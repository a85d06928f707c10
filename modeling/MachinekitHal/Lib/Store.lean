import Mathlib.Tactic

/-!
A store of keyed records, kept as a list.

The list holds records that are referred to by a key; a write through a reference
is `modify`. Which key a record has is a parameter, so one list can hold records of
any type. Only the order of the records, never their number or their keys, depends
on how they were inserted, so insertion is treated up to permutation.

* `modify`: the write; `mem_modify` and `keys_modify` say what it leaves alone.
* `countP_modify`, `flatMap_modify_perm`: how a write to one record changes a count
  over all of them, and a list collected from all of them.
* `at?`: the read; `at?_eq_some` identifies it when the keys are distinct, `at?_modify` is
  the read after a write.
-/

namespace Store

variable {α β : Type*} {key : α → ℕ} {k : ℕ} {f : α → α} {l : List α} {a b : α}

/-- The record with key `k`. -/
def at? (key : α → ℕ) (k : ℕ) (l : List α) : Option α := l.find? fun a => key a = k

/-- Change the records with key `k` by `f`. -/
def modify (key : α → ℕ) (k : ℕ) (f : α → α) (l : List α) : List α :=
  l.map fun a => if key a = k then f a else a

@[simp] lemma modify_nil : modify key k f [] = [] := rfl

lemma mem_modify : b ∈ modify key k f l ↔ ∃ a ∈ l, (if key a = k then f a else a) = b := by
  simp [modify]

/-- A record with another key is still there. -/
lemma mem_modify_of_ne (ha : a ∈ l) (hk : key a ≠ k) : a ∈ modify key k f l :=
  mem_modify.2 ⟨a, ha, by simp [hk]⟩

/-- The record with key `k` is there, changed. -/
lemma mem_modify_self (ha : a ∈ l) (hk : key a = k) : f a ∈ modify key k f l :=
  mem_modify.2 ⟨a, ha, by simp [hk]⟩

/-- A property of all records after a write: of the written ones as they are now, of
the others as they were. -/
lemma forall_modify {p : α → Prop} (h : ∀ a ∈ l, key a ≠ k → p a)
    (hf : ∀ a ∈ l, key a = k → p (f a)) : ∀ b ∈ modify key k f l, p b := by
  intro b hb
  obtain ⟨a, ha, rfl⟩ := mem_modify.1 hb
  split_ifs with hk
  · exact hf a ha hk
  · exact h a ha hk

/-- Two writes through one reference are one. -/
lemma modify_modify {g : α → α} (hf : ∀ a, key (f a) = key a) :
    modify key k g (modify key k f l) = modify key k (fun a => g (f a)) l := by
  simp only [modify, List.map_map]
  refine List.map_congr_left fun a _ => ?_
  by_cases hk : key a = k <;> simp [hk, hf]

/-- A write keeps a list of what it does not change. -/
lemma map_modify {g : α → β} (hf : ∀ a, g (f a) = g a) :
    (modify key k f l).map g = l.map g := by
  rw [modify, List.map_map]
  refine List.map_congr_left fun a _ => ?_
  by_cases hk : key a = k <;> simp [hk, hf]

/-- A write that keeps the keys keeps the list of keys. -/
lemma keys_modify (hf : ∀ a, key (f a) = key a) : (modify key k f l).map key = l.map key :=
  map_modify hf

/-- Distinct keys identify a record. -/
lemma eq_of_key (hnd : (l.map key).Nodup) (ha : a ∈ l) (hb : b ∈ l) (h : key a = key b) :
    a = b :=
  List.inj_on_of_nodup_map hnd ha hb h

/-- With distinct keys, reading finds exactly the record with the key. -/
lemma at?_eq_some (hnd : (l.map key).Nodup) : at? key k l = some a ↔ a ∈ l ∧ key a = k := by
  constructor
  · intro h
    have hk : key a = k := by simpa using List.find?_some h
    exact ⟨List.mem_of_find?_eq_some h, hk⟩
  · rintro ⟨ha, rfl⟩
    cases hf : at? key (key a) l with
    | none =>
      have hno := List.find?_eq_none.1 hf a ha
      simp at hno
    | some b =>
      have hb : key b = key a := by simpa using List.find?_some hf
      rw [eq_of_key hnd (List.mem_of_find?_eq_some hf) ha hb]

/-- Reading after a write that keeps the keys: the written record if it has the key, the old
one otherwise. -/
lemma at?_modify {k' : ℕ} (hf : ∀ a, key (f a) = key a) :
    at? key k (modify key k' f l) = if k' = k then (at? key k l).map f else at? key k l := by
  induction l with
  | nil => simp [at?]
  | cons b l ih =>
    have hcons : modify key k' f (b :: l)
        = (if key b = k' then f b else b) :: modify key k' f l := rfl
    have hkey : key (if key b = k' then f b else b) = key b := by
      split_ifs <;> simp [hf]
    have hread : ∀ c l', at? key k (c :: l') = if key c = k then some c else at? key k l' := by
      intro c l'
      by_cases hc : key c = k <;> simp [at?, hc]
    rw [hcons, hread, hread, hkey, ih]
    by_cases hb : key b = k
    · simp only [hb, if_true, Option.map_some]
      by_cases hk : k' = k
      · simp [hk]
      · simp [hk, Ne.symm hk]
    · simp [hb]

/-- A write that changes no record. -/
lemma modify_of_fixed (h : ∀ a ∈ l, key a = k → f a = a) : modify key k f l = l := by
  have hid : ∀ a ∈ l, (if key a = k then f a else a) = a := by
    intro a ha
    split_ifs with hk
    · exact h a ha hk
    · rfl
  rw [modify, List.map_congr_left hid, List.map_id']

/-- No record has the key: nothing is written. -/
lemma modify_eq_self (h : k ∉ l.map key) : modify key k f l = l :=
  modify_of_fixed fun _ ha hk => absurd (hk ▸ List.mem_map_of_mem ha) h

/-- With distinct keys, a write changes the one record in its place. -/
lemma modify_middle {l₁ l₂ : List α} (hnd : ((l₁ ++ a :: l₂).map key).Nodup) :
    modify key (key a) f (l₁ ++ a :: l₂) = l₁ ++ f a :: l₂ := by
  rw [List.map_append, List.map_cons, List.nodup_append, List.nodup_cons] at hnd
  obtain ⟨-, ⟨hback, -⟩, hfront⟩ := hnd
  have hno : key a ∉ l₁.map key := fun hm => hfront _ hm _ (.head _) rfl
  have hl₁ : modify key (key a) f l₁ = l₁ := modify_eq_self hno
  have hl₂ : modify key (key a) f l₂ = l₂ := modify_eq_self hback
  rw [modify, List.map_append, List.map_cons, if_pos rfl, ← modify, ← modify, hl₁, hl₂]

/-- What a write to the record `a` does to a count: it counts `f a` in its place. -/
lemma countP_modify {p : α → Bool} (hnd : (l.map key).Nodup) (ha : a ∈ l) (hk : key a = k) :
    (modify key k f l).countP p + (if p a then 1 else 0)
      = l.countP p + (if p (f a) then 1 else 0) := by
  induction l with
  | nil => simp at ha
  | cons b l ih =>
    rw [List.map_cons, List.nodup_cons] at hnd
    have hcons : modify key k f (b :: l)
        = (if key b = k then f b else b) :: modify key k f l := rfl
    rcases List.mem_cons.1 ha with rfl | ha
    · have hrest : modify key k f l = l := modify_eq_self (hk ▸ hnd.1)
      rw [hcons, hrest, if_pos hk, List.countP_cons, List.countP_cons]
      omega
    · have hb : key b ≠ k := by
        intro hb
        exact hnd.1 (by rw [hb, ← hk]; exact List.mem_map_of_mem ha)
      have hrest := ih hnd.2 ha
      rw [hcons, if_neg hb, List.countP_cons, List.countP_cons]
      omega

/-- A write that does not change what is counted keeps the count. -/
lemma countP_modify_of_iff {p : α → Bool} (h : ∀ a ∈ l, key a = k → p (f a) = p a) :
    (modify key k f l).countP p = l.countP p := by
  rw [modify, List.countP_map]
  refine List.countP_congr fun a ha => ?_
  by_cases hk : key a = k <;> simp [hk, h a ha]

/-- Records that agree are counted once. -/
lemma countP_le_one {p : α → Bool} (hnd : (l.map key).Nodup)
    (h : ∀ a ∈ l, ∀ b ∈ l, p a = true → p b = true → a = b) : l.countP p ≤ 1 := by
  rw [List.countP_eq_length_filter]
  have hnf : (l.filter p).Nodup := (hnd.of_map key).filter p
  match hf : l.filter p, hnf with
  | [], _ => simp
  | [_], _ => simp
  | a :: b :: l', hnf =>
    have ha : a ∈ l.filter p := hf ▸ (.head _)
    have hb : b ∈ l.filter p := hf ▸ .tail _ (.head _)
    obtain ⟨ha, hpa⟩ := List.mem_filter.1 ha
    obtain ⟨hb, hpb⟩ := List.mem_filter.1 hb
    obtain rfl := h a ha b hb hpa hpb
    simp at hnf

/-- What a write to the record `a` does to the list collected from all records. -/
lemma flatMap_modify_perm {g : α → List β} (hnd : (l.map key).Nodup) (ha : a ∈ l)
    (hk : key a = k) : ((modify key k f l).flatMap g ++ g a).Perm (l.flatMap g ++ g (f a)) := by
  induction l with
  | nil => simp at ha
  | cons b l ih =>
    rw [List.map_cons, List.nodup_cons] at hnd
    have hcons : modify key k f (b :: l)
        = (if key b = k then f b else b) :: modify key k f l := rfl
    rcases List.mem_cons.1 ha with rfl | ha
    · have hrest : modify key k f l = l := modify_eq_self (hk ▸ hnd.1)
      rw [hcons, hrest, if_pos hk, List.flatMap_cons, List.flatMap_cons]
      have h1 : (g (f a) ++ l.flatMap g ++ g a).Perm (l.flatMap g ++ g (f a) ++ g a) :=
        List.perm_append_comm.append_right _
      have h2 : (l.flatMap g ++ g (f a) ++ g a).Perm (g a ++ (l.flatMap g ++ g (f a))) :=
        List.perm_append_comm
      simpa only [List.append_assoc] using h1.trans h2
    · have hb : key b ≠ k := by
        intro hb
        exact hnd.1 (by rw [hb, ← hk]; exact List.mem_map_of_mem ha)
      rw [hcons, if_neg hb, List.flatMap_cons, List.flatMap_cons, List.append_assoc,
        List.append_assoc]
      exact (ih hnd.2 ha).append_left _

/-- A write that does not change what is collected keeps the collected list. -/
lemma flatMap_modify_of_eq {g : α → List β} (h : ∀ a ∈ l, key a = k → g (f a) = g a) :
    (modify key k f l).flatMap g = l.flatMap g := by
  rw [modify, List.flatMap_map]
  refine List.flatMap_congr fun a ha => ?_
  by_cases hk : key a = k <;> simp [hk, h a ha]

end Store
