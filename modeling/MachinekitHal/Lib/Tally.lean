import Mathlib.Tactic

/-!
Weighted runs of a deterministic system.

A system takes the action `a` in the state `s` to `step s a`.

* `runAll`: the state after a list of actions; `Along`: every step of it meets a condition.
* `Along.invariant`: the rule of invariants; `Along.imp` uses it to change the condition, and
  `Along.rel` is the rule for two runs.
* `tally`: the sum of the weights of the steps; `tally_congr`: the weights matter only along
  the run.
* `tally_modEq`: a function of the state that each step changes by its weight, up to a modulus,
  changes by the tally along the run.
-/

namespace Tally

variable {σ α : Type*} {step : σ → α → σ} {ok ok' : σ → α → Prop} {w w' : σ → α → ℤ}

/-- The state after the actions. -/
def runAll (step : σ → α → σ) (s : σ) (as : List α) : σ := as.foldl step s

/-- Every step of a run meets `ok`. -/
def Along (step : σ → α → σ) (ok : σ → α → Prop) : σ → List α → Prop
  | _, [] => True
  | s, a :: as => ok s a ∧ Along step ok (step s a) as

instance instDecidableAlong [h : ∀ s a, Decidable (ok s a)] :
    ∀ (s : σ) (as : List α), Decidable (Along step ok s as)
  | _, [] => isTrue trivial
  | s, a :: as =>
    have : Decidable (Along step ok (step s a) as) := instDecidableAlong (step s a) as
    inferInstanceAs (Decidable (ok s a ∧ Along step ok (step s a) as))

/-- The sum of the weights of the steps. -/
def tally (step : σ → α → σ) (w : σ → α → ℤ) : σ → List α → ℤ
  | _, [] => 0
  | s, a :: as => w s a + tally step w (step s a) as

lemma along_append (s : σ) (as bs : List α) :
    Along step ok s (as ++ bs) ↔ Along step ok s as ∧ Along step ok (runAll step s as) bs := by
  induction as generalizing s with
  | nil => simp [Along, runAll]
  | cons a as ih =>
    have hih := ih (step s a)
    show ok s a ∧ Along step ok (step s a) (as ++ bs) ↔
      (ok s a ∧ Along step ok (step s a) as) ∧ Along step ok (runAll step (step s a) as) bs
    rw [hih, and_assoc]

section Invariant

variable {P : σ → Prop} (hstep : ∀ {s a}, P s → ok s a → P (step s a))

include hstep

/-- The rule of invariants. -/
theorem Along.invariant {s : σ} {as : List α} (h0 : P s) (h : Along step ok s as) :
    P (runAll step s as) := by
  induction as generalizing s with
  | nil => exact h0
  | cons a as ih => exact ih (hstep h0 h.1) h.2

/-- Another condition that is met where the invariant holds. -/
lemma Along.imp (himp : ∀ {s a}, P s → ok s a → ok' s a) {s : σ} {as : List α} (h0 : P s)
    (h : Along step ok s as) : Along step ok' s as := by
  induction as generalizing s with
  | nil => trivial
  | cons a as ih => exact ⟨himp h0 h.1, ih (hstep h0 h.1) h.2⟩

end Invariant

/-- Two conditions along one run. -/
lemma Along.and {s : σ} {as : List α} (h : Along step ok s as) (h' : Along step ok' s as) :
    Along step (fun s a => ok s a ∧ ok' s a) s as := by
  induction as generalizing s with
  | nil => trivial
  | cons a as ih => exact ⟨⟨h.1, h'.1⟩, ih h.2 h'.2⟩

/-- A condition on the actions alone. -/
lemma along_of_forall {s : σ} {as : List α} (h : ∀ a ∈ as, ∀ s, ok s a) : Along step ok s as := by
  induction as generalizing s with
  | nil => trivial
  | cons a as ih =>
    exact ⟨h a (.head _) s, ih fun b hb => h b (List.mem_cons_of_mem a hb)⟩

/-- The rule for two runs of the same actions. -/
theorem Along.rel {τ : Type*} {step' : τ → α → τ} {R : σ → τ → Prop}
    (hstep : ∀ {s t a}, R s t → ok s a → R (step s a) (step' t a)) {s : σ} {t : τ} {as : List α}
    (h0 : R s t) (h : Along step ok s as) : R (runAll step s as) (runAll step' t as) := by
  induction as generalizing s t with
  | nil => exact h0
  | cons a as ih => exact ih (hstep h0 h.1) h.2

/-- Weights that agree along the run. -/
theorem tally_congr {s : σ} {as : List α} (h : Along step (fun s a => w s a = w' s a) s as) :
    tally step w s as = tally step w' s as := by
  induction as generalizing s with
  | nil => rfl
  | cons a as ih => rw [tally, tally, h.1, ih h.2]

/-- What each step changes by its weight, the run changes by the tally. -/
theorem tally_modEq {f : σ → ℤ} {n : ℤ} {s : σ} {as : List α}
    (h : Along step (fun s a => f (step s a) ≡ f s + w s a [ZMOD n]) s as) :
    f (runAll step s as) ≡ f s + tally step w s as [ZMOD n] := by
  induction as generalizing s with
  | nil =>
    show f s ≡ f s + 0 [ZMOD n]
    rw [Int.add_zero]
  | cons a as ih =>
    calc f (runAll step s (a :: as)) ≡ f (step s a) + tally step w (step s a) as [ZMOD n] :=
          ih h.2
      _ ≡ f s + w s a + tally step w (step s a) as [ZMOD n] := h.1.add_right _
      _ = f s + tally step w s (a :: as) := by rw [tally, Int.add_assoc]

end Tally
