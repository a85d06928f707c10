import Mathlib.Tactic

/-!
Circular doubly linked lists in an array of links.

An entry is a number; `next` and `prev` are its links. A list has a root entry that is
linked to itself when the list is empty.

* `Links`, `initEntry`, `addBefore`, `removeEntry`: the links and the operations on them.
* `Linked`: consecutive entries of a sequence are linked both ways; `linked_insert` and
  `linked_remove` are the two local edits.
* `IsRing d root xs`: the list of `root` holds the entries `xs`, in this order;
  `IsRing.addLast` and `IsRing.remove` say what the operations do to it,
  `IsRing.next_root` and `IsRing.next_mem` how it is walked.
-/

namespace Dlist

open Function (update)

/-- The links of all entries. -/
structure Links where
  next : ℕ → ℕ
  prev : ℕ → ℕ

variable {d d' : Links} {root e q n x y : ℕ} {xs pre post A B l : List ℕ}

namespace Links

variable (d : Links)

/-- Link an entry to itself. -/
def initEntry (e : ℕ) : Links :=
  { next := update d.next e e, prev := update d.prev e e }

/-- Insert `e` before `n`. -/
def addBefore (e n : ℕ) : Links :=
  let p := d.prev n
  { next := update (update d.next e n) p e
    prev := update (update d.prev e p) n e }

/-- Unlink `e`, and link it to itself. -/
def removeEntry (e : ℕ) : Links :=
  let p := d.prev e
  let n := d.next e
  { next := update (update d.next p n) e e
    prev := update (update d.prev n p) e e }

end Links

/-- The entries from `x` on, at most `fuel` of them. -/
def walk (d : Links) (root : ℕ) : ℕ → ℕ → List ℕ
  | 0, _ => []
  | fuel + 1, x => if x = root then [] else x :: walk d root fuel (d.next x)

/-- The entries of a list that has at most `fuel` of them. -/
def entries (d : Links) (root fuel : ℕ) : List ℕ := walk d root fuel (d.next root)

/-- Consecutive entries are linked both ways. -/
def Linked (d : Links) : List ℕ → Prop
  | x :: y :: l => d.next x = y ∧ d.prev y = x ∧ Linked d (y :: l)
  | _ => True

/-- The list of `root` holds `xs`, in this order. -/
structure IsRing (d : Links) (root : ℕ) (xs : List ℕ) : Prop where
  nodup : (root :: xs).Nodup
  linked : Linked d (root :: xs ++ [root])

/-! ### Linked sequences -/

@[simp] lemma linked_nil : Linked d [] := trivial

@[simp] lemma linked_singleton : Linked d [x] := trivial

lemma linked_cons_cons : Linked d (x :: y :: l) ↔ d.next x = y ∧ d.prev y = x ∧ Linked d (y :: l) :=
  Iff.rfl

/-- A sequence is linked if its two halves are; they share the entry at the seam. -/
lemma linked_append : ∀ {A : List ℕ},
    Linked d (A ++ x :: B) ↔ Linked d (A ++ [x]) ∧ Linked d (x :: B)
  | [] => by simp
  | [a] => by simp [linked_cons_cons, and_assoc]
  | a :: b :: A => by
      have ih : Linked d (b :: A ++ x :: B) ↔ Linked d (b :: A ++ [x]) ∧ Linked d (x :: B) :=
        linked_append
      simp only [List.cons_append] at ih ⊢
      rw [linked_cons_cons, linked_cons_cons, ih]
      simp only [and_assoc]

/-- Only the `next` of all entries but the last and the `prev` of all but the first
matter. -/
lemma Linked.congr (h : Linked d l) (hnext : ∀ x ∈ l.dropLast, d'.next x = d.next x)
    (hprev : ∀ x ∈ l.tail, d'.prev x = d.prev x) : Linked d' l := by
  induction l with
  | nil => trivial
  | cons x l ih =>
    cases l with
    | nil => trivial
    | cons y l =>
      obtain ⟨hn, hp, hl⟩ := h
      refine ⟨?_, ?_, ih hl ?_ ?_⟩
      · rw [hnext x (by simp), hn]
      · rw [hprev y (by simp), hp]
      · intro z hz
        exact hnext z (by simp [hz])
      · intro z hz
        exact hprev z (List.mem_of_mem_tail (by simpa using hz))

/-- Inserting `e` between `q` and `n`. -/
lemma linked_insert (h : Linked d (A ++ q :: n :: B)) (hq : q ∉ A ++ (n :: B).dropLast)
    (hn : n ∉ (A ++ [q]).tail ++ B) (he : e ∉ A ++ q :: n :: B) :
    Linked (d.addBefore e n) (A ++ q :: e :: n :: B) := by
  obtain ⟨hA, hqn, hp, hB⟩ := linked_append.1 h
  simp only [List.mem_append, List.mem_cons, not_or] at hq hn he
  obtain ⟨heA, heq, hen, heB⟩ := he
  have hnext : ∀ x, x ≠ q → x ≠ e → (d.addBefore e n).next x = d.next x := by
    intro x hxq hxe
    simp [Links.addBefore, hp, hxq, hxe]
  have hprev : ∀ x, x ≠ n → x ≠ e → (d.addBefore e n).prev x = d.prev x := by
    intro x hxn hxe
    simp [Links.addBefore, hxn, hxe]
  rw [linked_append, linked_cons_cons, linked_cons_cons]
  refine ⟨hA.congr ?_ ?_, ?_, ?_, ?_, ?_, hB.congr ?_ ?_⟩
  · intro x hx
    rw [List.dropLast_concat] at hx
    exact hnext x (fun hxq => hq.1 (hxq ▸ hx)) (fun hxe => heA (hxe ▸ hx))
  · intro x hx
    have hmem := List.mem_of_mem_tail hx
    simp only [List.mem_append, List.mem_singleton] at hmem
    refine hprev x (fun hxn => hn.1 (hxn ▸ hx)) ?_
    rintro rfl
    exact hmem.elim heA heq
  · simp [Links.addBefore, hp]
  · simp [Links.addBefore, hp, hen]
  · simp [Links.addBefore, hp, heq]
  · simp [Links.addBefore]
  · intro x hx
    refine hnext x (fun hxq => hq.2 (hxq ▸ hx)) ?_
    rintro rfl
    exact (List.mem_cons.1 (List.mem_of_mem_dropLast hx)).elim hen heB
  · intro x hx
    exact hprev x (fun hxn => hn.2 (hxn ▸ hx)) (fun hxe => heB (hxe ▸ hx))

/-- Unlinking `e` between `q` and `n`. -/
lemma linked_remove (h : Linked d (A ++ q :: e :: n :: B)) (hq : q ∉ A ++ (n :: B).dropLast)
    (hn : n ∉ (A ++ [q]).tail ++ B) (he : e ∉ A ++ q :: n :: B) :
    Linked (d.removeEntry e) (A ++ q :: n :: B) := by
  obtain ⟨hA, hqe, hpe, hen', hpn, hB⟩ := linked_append.1 h
  simp only [List.mem_append, List.mem_cons, not_or] at hq hn he
  obtain ⟨heA, heq, hen, heB⟩ := he
  have hnext : ∀ x, x ≠ q → x ≠ e → (d.removeEntry e).next x = d.next x := by
    intro x hxq hxe
    simp [Links.removeEntry, hpe, hxq, hxe]
  have hprev : ∀ x, x ≠ n → x ≠ e → (d.removeEntry e).prev x = d.prev x := by
    intro x hxn hxe
    simp [Links.removeEntry, hen', hxn, hxe]
  rw [linked_append, linked_cons_cons]
  refine ⟨hA.congr ?_ ?_, ?_, ?_, hB.congr ?_ ?_⟩
  · intro x hx
    rw [List.dropLast_concat] at hx
    exact hnext x (fun hxq => hq.1 (hxq ▸ hx)) (fun hxe => heA (hxe ▸ hx))
  · intro x hx
    have hmem := List.mem_of_mem_tail hx
    simp only [List.mem_append, List.mem_singleton] at hmem
    refine hprev x (fun hxn => hn.1 (hxn ▸ hx)) ?_
    rintro rfl
    exact hmem.elim heA heq
  · simp [Links.removeEntry, hpe, hen', Ne.symm heq]
  · simp [Links.removeEntry, hpe, hen', Ne.symm hen]
  · intro x hx
    refine hnext x (fun hxq => hq.2 (hxq ▸ hx)) ?_
    rintro rfl
    exact (List.mem_cons.1 (List.mem_of_mem_dropLast hx)).elim hen heB
  · intro x hx
    exact hprev x (fun hxn => hn.2 (hxn ▸ hx)) (fun hxe => heB (hxe ▸ hx))

/-! ### Rings -/

/-- Every nonempty sequence has a last entry. -/
lemma exists_concat (x : ℕ) (l : List ℕ) : ∃ A q, x :: l = A ++ [q] :=
  ⟨(x :: l).dropLast, (x :: l).getLast (List.cons_ne_nil _ _),
    (List.dropLast_concat_getLast _).symm⟩

/-- Where a ring is cut between `pre` and `post`, its entries before and after the cut are
distinct from the others. -/
lemma seam (hnd : (root :: (pre ++ post)).Nodup) (hq : root :: pre = A ++ [q])
    (hn : post ++ [root] = n :: B) :
    q ∉ A ++ (n :: B).dropLast ∧ n ∉ (A ++ [q]).tail ++ B ∧
      ∀ e, e ∉ root :: (pre ++ post) → e ∉ A ++ q :: n :: B := by
  refine ⟨?_, ?_, ?_⟩
  · have hperm : (root :: (pre ++ post)) = A ++ q :: post := by
      rw [← List.cons_append, hq, List.append_assoc, List.singleton_append]
    rw [hperm, List.nodup_middle, List.nodup_cons] at hnd
    rw [← hn, List.dropLast_concat]
    exact hnd.1
  · have hperm : (root :: (pre ++ post)).Perm (pre ++ n :: B) := by
      rw [← hn, ← List.append_assoc]
      exact (List.perm_append_singleton root (pre ++ post)).symm
    have hnd' := hperm.nodup_iff.1 hnd
    rw [List.nodup_middle, List.nodup_cons] at hnd'
    rw [← hq, List.tail_cons]
    exact hnd'.1
  · intro e he hmem
    have hlist : A ++ q :: n :: B = root :: (pre ++ (post ++ [root])) := by
      rw [hn, ← List.cons_append, hq, List.append_assoc, List.singleton_append]
    rw [hlist] at hmem
    simp only [List.mem_cons, List.mem_append, List.not_mem_nil, or_false] at hmem he
    tauto

/-- The closed list of a ring that is cut between `pre` and `post`. -/
lemma closed_eq (hq : root :: pre = A ++ [q]) (hn : post ++ [root] = n :: B) :
    root :: (pre ++ post) ++ [root] = A ++ q :: n :: B := by
  rw [List.cons_append, List.append_assoc, hn, ← List.cons_append, hq, List.append_assoc,
    List.singleton_append]

/-- Inserting `e` before `n`, the entry that follows `pre`. -/
lemma IsRing.insert (h : IsRing d root (pre ++ post)) (hn : post ++ [root] = n :: B)
    (he : e ∉ root :: (pre ++ post)) : IsRing (d.addBefore e n) root (pre ++ e :: post) := by
  obtain ⟨A, q, hq⟩ := exists_concat root pre
  obtain ⟨hqn, hnn, hen⟩ := seam h.nodup hq hn
  have hlinked := h.linked
  rw [closed_eq hq hn] at hlinked
  refine ⟨?_, ?_⟩
  · rw [← List.cons_append, List.nodup_middle, List.cons_append, List.nodup_cons]
    exact ⟨he, h.nodup⟩
  · have hclosed : root :: (pre ++ e :: post) ++ [root] = A ++ q :: e :: n :: B := by
      have heq : (e :: post) ++ [root] = e :: n :: B := by rw [List.cons_append, hn]
      exact closed_eq hq heq
    rw [hclosed]
    exact linked_insert hlinked hqn hnn (hen e he)

/-- Inserting before the root is inserting at the end. -/
theorem IsRing.addLast (h : IsRing d root xs) (he : e ∉ root :: xs) :
    IsRing (d.addBefore e root) root (xs ++ [e]) := by
  have h' : IsRing d root (xs ++ []) := by rwa [List.append_nil]
  exact h'.insert (List.nil_append [root]) (by rwa [List.append_nil])

/-- Unlinking an entry. -/
theorem IsRing.remove (h : IsRing d root (pre ++ e :: post)) :
    IsRing (d.removeEntry e) root (pre ++ post) := by
  obtain ⟨A, q, hq⟩ := exists_concat root pre
  obtain ⟨n, B, hn⟩ : ∃ n B, post ++ [root] = n :: B :=
    List.exists_cons_of_ne_nil (List.append_ne_nil_of_right_ne_nil _ (List.cons_ne_nil _ _))
  have hnd := h.nodup
  rw [← List.cons_append, List.nodup_middle, List.cons_append, List.nodup_cons] at hnd
  obtain ⟨hqn, hnn, hen⟩ := seam hnd.2 hq hn
  have hlinked := h.linked
  have hclosed : root :: (pre ++ e :: post) ++ [root] = A ++ q :: e :: n :: B := by
    have heq : (e :: post) ++ [root] = e :: n :: B := by rw [List.cons_append, hn]
    exact closed_eq hq heq
  rw [hclosed] at hlinked
  refine ⟨hnd.2, ?_⟩
  rw [closed_eq hq hn]
  exact linked_remove hlinked hqn hnn (hen e hnd.1)

/-- What follows the root is the first entry, or the root again. -/
lemma IsRing.next_root (h : IsRing d root xs) : d.next root = (xs ++ [root]).head (by simp) := by
  have hlinked := h.linked
  cases xs with
  | nil => exact hlinked.1
  | cons x xs => exact hlinked.1

lemma IsRing.next_mem (h : IsRing d root (pre ++ x :: post)) :
    d.next x = (post ++ [root]).head (by simp) := by
  have hlinked : Linked d (root :: pre ++ x :: (post ++ [root])) := by
    have hl := h.linked
    rwa [List.cons_append, List.append_assoc, List.cons_append] at hl
  have htail := (linked_append.1 hlinked).2
  cases post with
  | nil => exact htail.1
  | cons y post => exact htail.1

lemma IsRing.walk_eq : ∀ {post pre : List ℕ} {fuel : ℕ}, IsRing d root (pre ++ post) →
    post.length ≤ fuel → walk d root fuel ((post ++ [root]).head (by simp)) = post
  | [], _, 0, _, _ => rfl
  | [], _, fuel + 1, _, _ => by simp [walk]
  | x :: post, pre, fuel + 1, h, hle => by
      have hne : x ≠ root := by
        have hnd := (List.nodup_cons.1 h.nodup).1
        rintro rfl
        exact hnd (by simp)
      have hnext : d.next x = (post ++ [root]).head (by simp) := h.next_mem
      have h' : IsRing d root ((pre ++ [x]) ++ post) := by rwa [List.append_assoc]
      have hrest := h'.walk_eq (Nat.le_of_succ_le_succ hle)
      simp only [List.cons_append, List.head_cons, walk, if_neg hne, hnext, hrest]

/-- The entries read off the links are those of the ring. -/
theorem IsRing.entries_eq {fuel : ℕ} (h : IsRing d root xs) (hle : xs.length ≤ fuel) :
    entries d root fuel = xs := by
  have h' : IsRing d root ([] ++ xs) := h
  rw [entries, h.next_root, h'.walk_eq hle]

/-- Entries that are not on the list may be relinked. -/
lemma IsRing.frame (h : IsRing d root xs)
    (hd : ∀ x ∈ root :: xs, d'.next x = d.next x ∧ d'.prev x = d.prev x) : IsRing d' root xs := by
  refine ⟨h.nodup, h.linked.congr ?_ ?_⟩
  · intro x hx
    rw [List.dropLast_concat] at hx
    exact (hd x hx).1
  · intro x hx
    have hmem : x ∈ root :: xs := by
      rw [List.cons_append, List.tail_cons] at hx
      simpa [or_comm] using hx
    exact (hd x hmem).2

end Dlist
