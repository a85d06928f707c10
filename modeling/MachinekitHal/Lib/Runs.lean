import Mathlib.Tactic

/-!
Runs of a partial step function.

A system is a step function `step : σ → α → Option σ`: the action `a` is either
not enabled in `s` (`none`) or leads to one state. A *guard* `ok : σ → α → Prop`
restricts the runs under consideration to those whose every step meets it.

* `run`: the state a list of actions leads to when each meets a decidable guard,
  executable.
* `Reach`: the states reached from `s₀` by steps that meet the guard.
* `Reach.invariant`: the rule of invariants; `Reach.mono` weakens a guard.
* `reach_of_run`: an executed run is a run, so a concrete run can refute a
  statement about all of them.
-/

namespace Runs

variable {σ α : Type*} {step : σ → α → Option σ} {ok ok' : σ → α → Prop} {s₀ s t : σ}

/-- The state after the actions `as`, `none` if one of them is not enabled or does
not meet the guard. -/
def run (step : σ → α → Option σ) (ok : σ → α → Bool) : σ → List α → Option σ
  | s, [] => some s
  | s, a :: as =>
    if ok s a then
      match step s a with
      | some s' => run step ok s' as
      | none => none
    else none

/-- The states reached from `s₀` by enabled steps that meet the guard `ok`. -/
inductive Reach (step : σ → α → Option σ) (ok : σ → α → Prop) (s₀ : σ) : σ → Prop where
  | refl : Reach step ok s₀ s₀
  | tail {s t : σ} {a : α} : Reach step ok s₀ s → ok s a → step s a = some t →
      Reach step ok s₀ t

namespace Reach

/-- The rule of invariants: what holds at the start and is kept by every
guarded step holds in every state reached. -/
theorem invariant {P : σ → Prop} (h0 : P s₀)
    (hstep : ∀ {s a t}, P s → ok s a → step s a = some t → P t)
    (h : Reach step ok s₀ s) : P s := by
  induction h with
  | refl => exact h0
  | tail _ hok hs ih => exact hstep ih hok hs

/-- A weaker guard reaches at least as much. -/
lemma mono (hok : ∀ {s a}, ok s a → ok' s a) (h : Reach step ok s₀ s) :
    Reach step ok' s₀ s := by
  induction h with
  | refl => exact .refl
  | tail _ ha hs ih => exact .tail ih (hok ha) hs

lemma trans (h : Reach step ok s₀ s) (h' : Reach step ok s t) : Reach step ok s₀ t := by
  induction h' with
  | refl => exact h
  | tail _ ha hs ih => exact .tail ih ha hs

end Reach

/-- An executed run is a run. -/
lemma reach_of_run {ok : σ → α → Bool} : ∀ (as : List α) (s : σ),
    run step ok s as = some t → Reach step (fun s a => ok s a = true) s t
  | [], s, h => by
      obtain rfl : s = t := by simpa [run] using h
      exact .refl
  | a :: as, s, h => by
      rw [run] at h
      split_ifs at h with hok
      cases hs : step s a with
      | none => simp [hs] at h
      | some s' =>
        have h' : run step ok s' as = some t := by simpa [hs] using h
        have h1 : Reach step (fun s a => ok s a = true) s s' := .tail .refl hok hs
        exact h1.trans (reach_of_run as s' h')

/-- The state after an executed run, and what was evaluated of it. -/
lemma run_map {β : Type*} {ok : σ → α → Bool} {as : List α} {f : σ → β} {b : β}
    (h : (run step ok s as).map f = some b) :
    ∃ t, run step ok s as = some t ∧ f t = b ∧ Reach step (fun s a => ok s a = true) s t := by
  obtain ⟨t, ht, hb⟩ := Option.map_eq_some_iff.1 h
  exact ⟨t, ht, hb, reach_of_run as s ht⟩

end Runs
