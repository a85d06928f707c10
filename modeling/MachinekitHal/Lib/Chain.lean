import Mathlib.Tactic

/-!
Singly linked chains.

* `Path next a xs b`: the links lead from `a` through `xs` to `b`. A ring through `a` is a
  path from `a` to `a`.
* `path_append` cuts a path in two, `Path.congr` is its frame rule, `Path.setLast`,
  `Path.fork` and `Path.splice` lead it elsewhere.
* `Path.rotate`: a ring can be entered anywhere.
* `seek`: the first entry on the way from `a` at which a search stops; `seek_path` and
  `seek_eq` find it.
* `walkTo`: the entries in front of `b`; `Path.walkTo` says which these are.
-/

namespace Linking

/-- `next` leads from `a` through the entries of the list to `b`. -/
def Path (next : ℕ → ℕ) : ℕ → List ℕ → ℕ → Prop
  | a, [], b => next a = b
  | a, x :: xs, b => next a = x ∧ Path next x xs b

/-- The first entry from `a` on at which `stop` holds, among the first `fuel`. -/
def seek (next : ℕ → ℕ) (stop : ℕ → Bool) : ℕ → ℕ → Option ℕ
  | 0, _ => none
  | fuel + 1, a => if stop a then some a else seek next stop fuel (next a)

/-- The entries from `a` on in front of `b`, at most `fuel`. -/
def walkTo (next : ℕ → ℕ) (b : ℕ) : ℕ → ℕ → List ℕ
  | 0, _ => []
  | fuel + 1, a => if a = b then [] else a :: walkTo next b fuel (next a)

variable {next next' : ℕ → ℕ} {stop : ℕ → Bool} {a b c p x fuel : ℕ} {xs ys : List ℕ}

lemma path_append : Path next a (xs ++ c :: ys) b ↔ Path next a xs c ∧ Path next c ys b := by
  induction xs generalizing a with
  | nil => rfl
  | cons x xs ih => rw [List.cons_append, Path, Path, ih, and_assoc]

/-- Only the links of the entries matter. -/
lemma Path.congr (h : Path next a xs b) (hn : ∀ x ∈ a :: xs, next' x = next x) :
    Path next' a xs b := by
  induction xs generalizing a with
  | nil => exact (hn a (.head _)).trans h
  | cons x xs ih =>
    exact ⟨(hn a (.head _)).trans h.1,
      ih h.2 fun y hy => hn y (.tail _ hy)⟩

/-- The entries one link further. -/
lemma Path.map (h : Path next a xs b) : (a :: xs).map next = xs ++ [b] := by
  induction xs generalizing a with
  | nil => exact congrArg (fun y => [y]) h
  | cons x xs ih =>
    have hrest := ih h.2
    rw [List.map_cons, h.1, hrest, List.cons_append]

/-- The links of a ring lead to different entries. -/
lemma Path.next_inj (h : Path next a xs a) (hnd : (a :: xs).Nodup) (hx : x ∈ a :: xs)
    (hp : p ∈ a :: xs) (he : next x = next p) : x = p := by
  have hnd' : ((a :: xs).map next).Nodup := by
    rw [h.map]
    exact (List.perm_append_singleton a xs).nodup_iff.2 hnd
  exact List.inj_on_of_nodup_map hnd' hx hp he

/-- The last entry of a path leads to its end. -/
lemma Path.last (h : Path next a xs b) : next ((a :: xs).getLast (by simp)) = b := by
  induction xs generalizing a with
  | nil => exact h
  | cons x xs ih =>
    rw [List.getLast_cons (List.cons_ne_nil x xs)]
    exact ih h.2

/-- Each entry of a path but the last leads to a later one. -/
lemma Path.step {r : ℕ → ℕ → Prop} (h : Path next a xs b) (hr : (a :: xs).Pairwise r)
    (hx : x ∈ a :: xs) :
    x = (a :: xs).getLast (by simp) ∨ next x ∈ xs ∧ r x (next x) := by
  induction xs generalizing a with
  | nil => exact .inl (List.mem_singleton.1 hx)
  | cons y xs ih =>
    rw [List.getLast_cons (List.cons_ne_nil y xs)]
    rw [List.pairwise_cons] at hr
    rcases List.mem_cons.1 hx with rfl | hx
    · exact .inr ⟨h.1 ▸ (.head _), h.1 ▸ hr.1 y (.head _)⟩
    · exact (ih h.2 hr.2 hx).imp_right fun hn => ⟨.tail _ hn.1, hn.2⟩

/-- Another link at the last entry leads the path elsewhere. -/
lemma Path.setLast (h : Path next a xs b) (hp : p = (a :: xs).getLast (by simp))
    (hnd : (a :: xs).Nodup) (hn : ∀ x ∈ a :: xs, x ≠ p → next' x = next x)
    (hc : next' p = c) : Path next' a xs c := by
  induction xs generalizing a with
  | nil =>
    obtain rfl : p = a := hp
    exact hc
  | cons x xs ih =>
    rw [List.getLast_cons (List.cons_ne_nil x xs)] at hp
    rw [List.nodup_cons] at hnd
    have hpm : p ∈ x :: xs := hp ▸ List.getLast_mem _
    have ha : a ≠ p := fun h => hnd.1 (h ▸ hpm)
    exact ⟨(hn a (.head _) ha).trans h.1,
      ih h.2 hp hnd.2 fun y hy => hn y (.tail _ hy)⟩

/-- A ring entered at another entry. -/
lemma Path.rotate (h : Path next a xs a) (hx : x ∈ a :: xs) :
    ∃ ys, Path next x ys x ∧ (x :: ys).Perm (a :: xs) := by
  rcases List.mem_cons.1 hx with rfl | hx
  · exact ⟨xs, h, List.Perm.refl _⟩
  · obtain ⟨pre, post, rfl⟩ := List.append_of_mem hx
    obtain ⟨hpre, hpost⟩ := path_append.1 h
    refine ⟨post ++ a :: pre, path_append.2 ⟨hpost, hpre⟩, ?_⟩
    have hswap : ((x :: post) ++ (a :: pre)).Perm ((a :: pre) ++ (x :: post)) :=
      List.perm_append_comm
    exact hswap

/-- What follows the last entry of the first part of a path, entered from elsewhere. -/
lemma Path.fork (h : Path next a (xs ++ ys) b) (hp : p = (a :: xs).getLast (by simp))
    (hc : next' c = next p) (hn : ∀ y ∈ ys, next' y = next y) : Path next' c ys b := by
  cases ys with
  | nil =>
    rw [List.append_nil] at h
    exact hc.trans (hp ▸ h.last)
  | cons y ys =>
    obtain ⟨hxs, hys⟩ := path_append.1 h
    exact ⟨hc.trans (hp ▸ hxs.last), hys.congr hn⟩

/-- Two paths in a row: the last entry of the first is led to where `c`, the start of the
second, leads. -/
lemma Path.splice {z : ℕ} (h : Path next a xs z) (hp : p = (a :: xs).getLast (by simp))
    (hnd : (a :: xs).Nodup) (hys : Path next c ys b)
    (hn : ∀ x ∈ a :: xs, x ≠ p → next' x = next x) (hny : ∀ y ∈ ys, next' y = next y)
    (hc : next' p = next c) : Path next' a (xs ++ ys) b := by
  cases ys with
  | nil =>
    rw [List.append_nil]
    exact h.setLast hp hnd hn (hc.trans hys)
  | cons y ys =>
    exact path_append.2 ⟨h.setLast hp hnd hn (hc.trans hys.1), hys.2.congr hny⟩

/-- A search along a path finds the first entry at which it stops, if there is one. -/
lemma seek_path (h : Path next a xs b) (hs : ∃ x ∈ a :: xs, stop x = true)
    (hf : xs.length < fuel) : ∃ pre x post, a :: xs = pre ++ x :: post ∧
      seek next stop fuel a = some x ∧ stop x = true ∧ ∀ y ∈ pre, stop y = false := by
  obtain ⟨n, rfl⟩ : ∃ n, fuel = n + 1 := ⟨fuel - 1, by omega⟩
  by_cases ha : stop a = true
  · exact ⟨[], a, xs, rfl, by rw [seek, if_pos ha], ha, nofun⟩
  · induction xs generalizing a n with
    | nil =>
      obtain ⟨y, hy, hstop⟩ := hs
      obtain rfl := List.mem_singleton.1 hy
      exact absurd hstop ha
    | cons x xs ih =>
      have hrest : ∃ y ∈ x :: xs, stop y = true := by
        obtain ⟨y, hy, hstop⟩ := hs
        rcases List.mem_cons.1 hy with rfl | hy
        · exact absurd hstop ha
        · exact ⟨y, hy, hstop⟩
      obtain ⟨m, rfl⟩ : ∃ m, n = m + 1 := ⟨n - 1, by simp at hf; omega⟩
      have hseek : seek next stop (m + 1 + 1) a = seek next stop (m + 1) x := by
        rw [seek, if_neg ha, h.1]
      have hfalse : stop a = false := Bool.eq_false_iff.2 ha
      by_cases hx : stop x = true
      · refine ⟨[a], x, xs, rfl, ?_, hx, ?_⟩
        · rw [hseek, seek, if_pos hx]
        · intro y hy
          rwa [List.mem_singleton.1 hy]
      · obtain ⟨pre, y, post, he, hy, hstop, hpre⟩ := ih h.2 hrest m (by simpa using hf) hx
        refine ⟨a :: pre, y, post, by rw [he]; rfl, hseek.trans hy, hstop, ?_⟩
        intro z hz
        rcases List.mem_cons.1 hz with rfl | hz
        · exact hfalse
        · exact hpre z hz

/-- A search along a path that stops at one entry only finds it. -/
lemma seek_eq (h : Path next a xs b) (hp : p ∈ a :: xs) (hstop : stop p = true)
    (hno : ∀ x ∈ a :: xs, x ≠ p → stop x = false) (hf : xs.length < fuel) :
    seek next stop fuel a = some p := by
  obtain ⟨pre, x, post, he, hseek, hx, _⟩ := seek_path h ⟨p, hp, hstop⟩ hf
  have hmem : x ∈ a :: xs := he ▸ List.mem_append_right _ (.head _)
  by_cases hxp : x = p
  · rwa [hxp] at hseek
  · rw [hno x hmem hxp] at hx
    cases hx

/-- A walk along a path lists its entries. -/
lemma Path.walkTo (h : Path next a xs b) (hb : b ∉ xs) (hf : xs.length < fuel) :
    walkTo next b fuel (next a) = xs := by
  obtain ⟨n, rfl⟩ : ∃ n, fuel = n + 1 := ⟨fuel - 1, by omega⟩
  induction xs generalizing a n with
  | nil => exact if_pos h
  | cons x xs ih =>
    rw [List.mem_cons, not_or] at hb
    rw [List.length_cons] at hf
    obtain ⟨m, rfl⟩ : ∃ m, n = m + 1 := ⟨n - 1, by omega⟩
    rw [Linking.walkTo, h.1, if_neg (Ne.symm hb.1), ih h.2 hb.2 m (by omega)]

end Linking
