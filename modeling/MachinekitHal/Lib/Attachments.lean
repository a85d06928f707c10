import Mathlib.Data.Set.Card
import Mathlib.Tactic

/-!
Users attached to places, and the counters of the places.

Each user is attached to a place or to none (`att`), and each live place has a counter.

* `users`: the users of a place.
* `Accounted`: the counter of every live place is the number of its users, and only live
  places have users.
* `Accounted.attach`, `Accounted.detach`, `Accounted.create`, `Accounted.remove`: the
  operations keep this; a place is removed when its counter is zero.
* `Accounted.count_eq_zero`: a zero counter means that there are no users.
-/

namespace Attachments

open Function (update)

variable {B L : Type*} {live live' : Set L} {count count' : L → ℤ}
  {att att' : B → Option L} {b : B} {l : L}

/-- The users of a place. -/
def users (att : B → Option L) (l : L) : Set B := {b | att b = some l}

/-- The counters count the users, and what has users is live. -/
structure Accounted (live : Set L) (count : L → ℤ) (att : B → Option L) : Prop where
  finite : ∀ l, (users att l).Finite
  count : ∀ l ∈ live, count l = (users att l).ncard
  live : ∀ b l, att b = some l → l ∈ live

section Update

variable [DecidableEq B]

/-- The users of a place after one attached itself to it. -/
lemma users_attach : users (update att b (some l)) l = insert b (users att l) := by
  ext c
  by_cases hc : c = b
  · simp [users, hc]
  · simp [users, hc]

/-- The users of a place after one left it. -/
lemma users_detach : users (update att b none) l = users att l \ {b} := by
  ext c
  by_cases hc : c = b
  · simp [users, hc]
  · simp [users, hc]

/-- A user that was not attached is missed nowhere. -/
lemma users_of_ne {l' : L} (hb : att b = none) (hne : l' ≠ l) :
    users (update att b (some l)) l' = users att l' := by
  ext c
  by_cases hc : c = b
  · simp [users, hc, hb, hne.symm]
  · simp [users, hc]

end Update

namespace Accounted

/-- What the counters of the live places and the attachments say is all there is. -/
lemma congr (h : Accounted live count att) (hlive : live' = live)
    (hcount : ∀ l ∈ live, count' l = count l) (hatt : att' = att) :
    Accounted live' count' att' := by
  subst hlive hatt
  exact ⟨h.finite, fun l hl => (hcount l hl).trans (h.count l hl), h.live⟩

/-- A zero counter means that there are no users. -/
lemma count_eq_zero (h : Accounted live count att) (hl : l ∈ live) :
    count l = 0 ↔ users att l = ∅ := by
  rw [h.count l hl, Nat.cast_eq_zero, Set.ncard_eq_zero (h.finite l)]

/-- A user that is not attached attaches itself to a live place. -/
theorem attach [DecidableEq B] (h : Accounted live count att) (hl : l ∈ live) (hb : att b = none)
    (hself : count' l = count l + 1) (hother : ∀ l' ∈ live, l' ≠ l → count' l' = count l') :
    Accounted live count' (update att b (some l)) := by
  have hnew : b ∉ users att l := by simp [users, hb]
  refine ⟨fun l' => ?_, fun l' hl' => ?_, fun c l' hc => ?_⟩
  · by_cases hll : l' = l
    · rw [hll, users_attach]
      exact (h.finite l).insert b
    · rw [users_of_ne hb hll]
      exact h.finite l'
  · by_cases hll : l' = l
    · rw [hll, users_attach, Set.ncard_insert_of_notMem hnew (h.finite l), hself, h.count l hl]
      push_cast
      rfl
    · rw [users_of_ne hb hll, hother l' hl' hll, h.count l' hl']
  · by_cases hcb : c = b
    · rw [hcb, Function.update_self, Option.some.injEq] at hc
      exact hc ▸ hl
    · rw [Function.update_of_ne hcb] at hc
      exact h.live c l' hc

/-- A user leaves its place. -/
theorem detach [DecidableEq B] (h : Accounted live count att) (hb : att b = some l)
    (hself : count' l = count l - 1) (hother : ∀ l' ∈ live, l' ≠ l → count' l' = count l') :
    Accounted live count' (update att b none) := by
  have hmem : b ∈ users att l := hb
  refine ⟨fun l' => ?_, fun l' hl' => ?_, fun c l' hc => ?_⟩
  · rw [users_detach]
    exact (h.finite l').subset Set.sdiff_subset
  · rw [users_detach]
    by_cases hll : l' = l
    · have hcard := Set.ncard_sdiff_singleton_add_one hmem (h.finite l)
      rw [hll, hself, h.count l (h.live b l hb)]
      omega
    · have hno : b ∉ users att l' := by
        simp only [users, Set.mem_ofPred_eq, hb, Option.some.injEq]
        exact fun he => hll he.symm
      rw [Set.sdiff_singleton_eq_self hno, hother l' hl' hll, h.count l' hl']
  · by_cases hcb : c = b
    · simp [hcb] at hc
    · rw [Function.update_of_ne hcb] at hc
      exact h.live c l' hc

/-- A new place, with a zero counter. -/
theorem create (h : Accounted live count att) (hl : l ∉ live) (hself : count' l = 0)
    (hother : ∀ l' ∈ live, count' l' = count l') : Accounted (insert l live) count' att := by
  refine ⟨h.finite, fun l' hl' => ?_, fun b l' hb => .inr (h.live b l' hb)⟩
  rcases hl' with rfl | hl'
  · have hno : users att l' = ∅ := by
      rw [Set.eq_empty_iff_forall_notMem]
      exact fun b hb => hl (h.live b l' hb)
    rw [hself, hno, Set.ncard_empty, Nat.cast_zero]
  · rw [hother l' hl', h.count l' hl']

/-- A place is removed when its counter is zero. -/
theorem remove (h : Accounted live count att) (hl : l ∈ live) (hzero : count l = 0) :
    Accounted (live \ {l}) count att := by
  refine ⟨h.finite, fun l' hl' => h.count l' hl'.1, fun b l' hb => ⟨h.live b l' hb, ?_⟩⟩
  rintro rfl
  have hno := (h.count_eq_zero hl).1 hzero
  exact Set.eq_empty_iff_forall_notMem.1 hno b hb

end Accounted

end Attachments
