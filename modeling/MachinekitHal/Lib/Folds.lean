import Mathlib.Tactic

/-!
A left fold, with the state at the turn of each element.

* `turns`: the elements of a list, each with the state that the elements before it leave.
* `forall_turns_iff`: what is true at all turns, if at each it is a matter of the element only.
* `foldl_iff`: what is true at the end, if each element adds its own condition.
* `foldlM_isSome`, `foldlM_invariant`, `foldlM_update`: a fold that may stop.
* `Each`, `foldlM_iff_each`, `exists_each_iff`: a loop that changes one entry at each turn.
-/

namespace Folds

variable {σ α : Type*} {f : σ → α → σ} {l : List α} {s : σ} {I P : σ → Prop} {R : α → Prop}

/-- The elements of a list, each with the state before its turn. -/
def turns (f : σ → α → σ) : σ → List α → List (σ × α)
  | _, [] => []
  | s, a :: l => (s, a) :: turns f (f s a) l

/-- Under an invariant, what is said at each turn comes down to a condition on the element. It is
enough that elements which meet the condition keep the invariant. -/
lemma forall_turns_iff {Q : σ → α → Prop} (hs : I s)
    (hQ : ∀ s, ∀ a ∈ l, I s → (Q s a ↔ R a))
    (hstep : ∀ s, ∀ a ∈ l, I s → R a → I (f s a)) :
    (∀ x ∈ turns f s l, Q x.1 x.2) ↔ ∀ a ∈ l, R a := by
  induction l generalizing s with
  | nil => simp [turns]
  | cons a l ih =>
    have hhead : Q s a ↔ R a := hQ s a (.head _) hs
    simp only [turns, List.forall_mem_cons, hhead]
    refine and_congr_right fun hR => ih (hstep s a (.head _) hs hR) ?_ ?_
    · exact fun t b hb => hQ t b (List.mem_cons_of_mem a hb)
    · exact fun t b hb => hstep t b (List.mem_cons_of_mem a hb)

/-- Under an invariant, what every element keeps exactly if it meets a condition is true at the
end exactly if it is at the start and all elements meet the condition. -/
lemma foldl_iff (hs : I s) (hP : ∀ s, ∀ a ∈ l, I s → (P (f s a) ↔ P s ∧ R a))
    (hstep : ∀ s, ∀ a ∈ l, I s → I (f s a)) : P (l.foldl f s) ↔ P s ∧ ∀ a ∈ l, R a := by
  induction l generalizing s with
  | nil => simp
  | cons a l ih =>
    have htail := ih (hstep s a (.head _) hs)
      (fun t b hb => hP t b (List.mem_cons_of_mem a hb))
      (fun t b hb => hstep t b (List.mem_cons_of_mem a hb))
    rw [List.foldl_cons, htail, hP s a (.head _) hs, List.forall_mem_cons, and_assoc]

/-- A fold that may stop runs to its end exactly if each element is taken, whatever was before. -/
lemma foldlM_isSome {f : σ → α → Option σ} {bad : α → Bool}
    (hbad : ∀ s a, (f s a).isSome = !bad a) (s : σ) (l : List α) :
    (l.foldlM f s).isSome = l.all fun a => !bad a := by
  induction l generalizing s with
  | nil => rfl
  | cons a l ih =>
    rw [List.foldlM_cons, List.all_cons, ← hbad s a]
    cases f s a with
    | none => rfl
    | some t => exact ih t

/-- What every element that is taken keeps is true at the end. -/
lemma foldlM_invariant {f : σ → α → Option σ} (hstep : ∀ s a t, I s → f s a = some t → I t)
    {t : σ} (hs : I s) (h : l.foldlM f s = some t) : I t := by
  induction l generalizing s with
  | nil => exact Option.some.inj h ▸ hs
  | cons a l ih =>
    rw [List.foldlM_cons] at h
    obtain ⟨u, hu, hrest⟩ := Option.bind_eq_some_iff.1 h
    exact ih (hstep s a u hs hu) hrest

/-- A loop that changes one entry at each turn: each is changed once. -/
lemma foldlM_update {ι β : Type*} [DecidableEq ι] {f : ι → β → Option β} {is : List ι}
    (hnodup : is.Nodup) (y₀ y : ι → β) :
    is.foldlM (fun y i => (f i (y i)).map (Function.update y i)) y₀ = some y ↔
      (∀ i ∈ is, f i (y₀ i) = some (y i)) ∧ ∀ i ∉ is, y i = y₀ i := by
  induction is generalizing y₀ with
  | nil =>
    rw [List.foldlM_nil]
    constructor
    · intro h
      cases h
      exact ⟨fun i hi => absurd hi List.not_mem_nil, fun i _ => rfl⟩
    · rintro ⟨-, hout⟩
      exact congrArg some (funext fun i => (hout i List.not_mem_nil).symm)
  | cons a is ih =>
    obtain ⟨ha, hnodup⟩ := List.nodup_cons.1 hnodup
    have hne : ∀ i ∈ is, i ≠ a := fun i hi heq => ha (heq ▸ hi)
    rw [List.foldlM_cons]
    constructor
    · intro h
      obtain ⟨y₁, hy₁, hrest⟩ := Option.bind_eq_some_iff.1 h
      obtain ⟨b, hb, rfl⟩ := Option.map_eq_some_iff.1 hy₁
      obtain ⟨hin, hout⟩ := (ih hnodup _).1 hrest
      have hya : y a = b := by rw [hout a ha, Function.update_self]
      refine ⟨fun i hi => ?_, fun i hi => ?_⟩
      · rcases List.mem_cons.1 hi with rfl | hi
        · rw [hya, hb]
        · rw [← hin i hi, Function.update_of_ne (hne i hi)]
      · obtain ⟨hia, hi⟩ := not_or.1 (List.mem_cons.not.1 hi)
        rw [hout i hi, Function.update_of_ne hia]
    · rintro ⟨hin, hout⟩
      refine Option.bind_eq_some_iff.2 ⟨Function.update y₀ a (y a), ?_, (ih hnodup _).2 ⟨?_, ?_⟩⟩
      · rw [hin a (.head _), Option.map_some]
      · intro i hi
        rw [Function.update_of_ne (hne i hi)]
        exact hin i (List.mem_cons_of_mem a hi)
      · intro i hi
        by_cases hia : i = a
        · rw [hia, Function.update_self]
        · rw [Function.update_of_ne hia]
          exact hout i (List.mem_cons.not.2 (not_or.2 ⟨hia, hi⟩))

/-! ### Loops over the indices below a bound -/

section Each

variable {β : Type*} {n : ℕ}

/-- Each entry below `n` is changed by `f`, the others stay. -/
def Each (n : ℕ) (f : ℕ → β → Option β) (y y' : ℕ → β) : Prop :=
  (∀ i < n, f i (y i) = some (y' i)) ∧ ∀ i, ¬ i < n → y' i = y i

lemma foldlM_iff_each (f : ℕ → β → Option β) (y y' : ℕ → β) :
    (List.range n).foldlM (fun y i => (f i (y i)).map (Function.update y i)) y = some y' ↔
      Each n f y y' := by
  rw [foldlM_update List.nodup_range]
  simp only [List.mem_range]
  rfl

lemma exists_each {f : ℕ → β → Option β} {y : ℕ → β} (h : ∀ i < n, ∃ c, f i (y i) = some c) :
    ∃ y', Each n f y y' := by
  refine ⟨fun i => if i < n then (f i (y i)).getD (y i) else y i, fun i hi => ?_, fun i hi => ?_⟩
  · obtain ⟨c, hc⟩ := h i hi
    dsimp only
    rw [if_pos hi, hc, Option.getD_some]
  · exact if_neg hi

/-- Something is true of all entries behind the loop exactly if it is behind each turn. -/
lemma exists_each_iff {P : ℕ → β → Prop} (f : ℕ → β → Option β) (y : ℕ → β) :
    (∃ y', Each n f y y' ∧ ∀ i < n, P i (y' i)) ↔ ∀ i < n, ∃ c, f i (y i) = some c ∧ P i c := by
  constructor
  · rintro ⟨y', heach, hP⟩ i hi
    exact ⟨y' i, heach.1 i hi, hP i hi⟩
  · intro h
    obtain ⟨y', heach⟩ := exists_each fun i hi => ⟨_, (h i hi).choose_spec.1⟩
    refine ⟨y', heach, fun i hi => ?_⟩
    obtain ⟨c, hc, hP⟩ := h i hi
    cases hc.symm.trans (heach.1 i hi)
    exact hP

end Each

end Folds
