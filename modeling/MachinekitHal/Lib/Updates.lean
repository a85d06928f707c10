import Mathlib.Tactic

/-!
Lists of updates of a function.

* `applyAll`: the function after the updates, the last one at a point counting.
* `lastAt`: the value the updates leave at a point, if one of them is there.
* `applyAll_apply`: the first in terms of the second; `applyAll_eq_iff`: two functions agree
  after the same updates exactly if they agree away from them.
-/

namespace Updates

variable {α β : Type*} [DecidableEq α]

/-- The function after a list of updates. -/
def applyAll (f : α → β) (l : List (α × β)) : α → β :=
  l.foldl (fun f p => Function.update f p.1 p.2) f

/-- The value of the last update at `x`. -/
def lastAt : List (α × β) → α → Option β
  | [], _ => none
  | p :: l, x => (lastAt l x).or (if p.1 = x then some p.2 else none)

@[simp] lemma applyAll_nil (f : α → β) : applyAll f [] = f := rfl

@[simp] lemma applyAll_append (f : α → β) (l l' : List (α × β)) :
    applyAll f (l ++ l') = applyAll (applyAll f l) l' := List.foldl_append

/-- The value at a point is that of the last update there, or the one at the start. -/
lemma applyAll_apply (f : α → β) (l : List (α × β)) (x : α) :
    applyAll f l x = (lastAt l x).getD (f x) := by
  induction l generalizing f with
  | nil => rfl
  | cons p l ih =>
    have hcons : applyAll f (p :: l) = applyAll (Function.update f p.1 p.2) l := rfl
    rw [hcons, ih, lastAt]
    cases lastAt l x with
    | some v => rfl
    | none =>
      by_cases hx : p.1 = x
      · subst hx
        simp
      · simp [hx, Function.update_of_ne (Ne.symm hx)]

/-- A point is updated exactly if it is the point of an update. -/
lemma lastAt_eq_none {l : List (α × β)} {x : α} : lastAt l x = none ↔ x ∉ l.map Prod.fst := by
  induction l with
  | nil => simp [lastAt]
  | cons p l ih =>
    rw [lastAt, Option.or_eq_none_iff, ih]
    by_cases hx : p.1 = x
    · simp [hx]
    · simp [hx, Ne.symm hx]

/-- With distinct points, the update at a point is the one in the list. -/
lemma lastAt_eq_some {l : List (α × β)} {x : α} {v : β} (hnd : (l.map Prod.fst).Nodup) :
    lastAt l x = some v ↔ (x, v) ∈ l := by
  induction l with
  | nil => simp [lastAt]
  | cons p l ih =>
    rw [List.map_cons, List.nodup_cons] at hnd
    rw [lastAt, List.mem_cons, ← ih hnd.2]
    by_cases hx : p.1 = x
    · have hno : lastAt l x = none := lastAt_eq_none.2 (hx ▸ hnd.1)
      rw [hno, Option.none_or, if_pos hx, Option.some.injEq]
      constructor
      · intro hv
        exact .inl (by rw [← hx, ← hv])
      · rintro (hp | hp)
        · rw [← hp]
        · cases hp
    · have hne : (x, v) ≠ p := fun h => hx (by rw [← h])
      rw [if_neg hx, Option.or_none]
      exact (or_iff_right hne).symm

/-- The updates of a list that is mapped. -/
lemma lastAt_map {γ : Type*} (g : β → γ) (l : List (α × β)) (x : α) :
    lastAt (l.map fun p => (p.1, g p.2)) x = (lastAt l x).map g := by
  induction l with
  | nil => rfl
  | cons p l ih =>
    rw [List.map_cons, lastAt, lastAt, ih]
    cases lastAt l x with
    | some v => rfl
    | none => by_cases hx : p.1 = x <;> simp [hx]

/-- Two functions agree after the same updates exactly if they agreed where none is. -/
theorem applyAll_eq_iff {f g : α → β} {l : List (α × β)} :
    applyAll f l = applyAll g l ↔ ∀ x, x ∉ l.map Prod.fst → f x = g x := by
  rw [funext_iff]
  refine forall_congr' fun x => ?_
  rw [applyAll_apply, applyAll_apply, ← lastAt_eq_none]
  cases lastAt l x with
  | none => simp
  | some v => simp

/-- Updates that restore the value at the start. -/
lemma applyAll_eq_self_at {f : α → β} {l : List (α × β)} {x : α} :
    applyAll f l x = f x ↔ ∀ v, lastAt l x = some v → v = f x := by
  rw [applyAll_apply]
  cases lastAt l x with
  | none => simp
  | some v => simp

end Updates
