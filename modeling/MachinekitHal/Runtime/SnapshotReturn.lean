import MachinekitHal.Runtime.TripleBuffer

/-!
When `rtapi_tb_snapshot` returns.

The flags that a snapshot compares with are those it loaded before its loop, so it returns
once the flags are the same again. Two flips in a row leave the flags as they were.

* `flip_iterate_eq`: the numbers of flips that lead back to the flags a snapshot loaded.
* `SnapshotRun`: a call under way while the producer goes on.
* `snapshot_returns`: whether the call returns once the producer has stopped.
-/

namespace MachinekitHal

open Runs

/-! ### Flips in a row -/

/-- The numbers of flips from the flags `f`, with new data, that lead back to `f`. The
highest bit is unused. -/
def FlipsBack (f : BitVec 8) (k : ℕ) : Prop :=
  k = 0 ∨ f.msb = false ∧ (Even k ∨ tbCleanIdx f = tbWriteIdx f)

/-- The second flip undoes the first, except for the highest bit. -/
lemma flip_three (f : BitVec 8) :
    tbFlipFlags (tbFlipFlags (tbFlipFlags f)) = tbFlipFlags f := by
  revert f
  decide

lemma flip_two_eq (f : BitVec 8) (hf : tbNewData f = true) :
    tbFlipFlags (tbFlipFlags f) = f ↔ f.msb = false := by
  revert f
  decide

lemma flip_one_eq (f : BitVec 8) (hf : tbNewData f = true) :
    tbFlipFlags f = f ↔ f.msb = false ∧ tbCleanIdx f = tbWriteIdx f := by
  revert f
  decide

/-- Any odd number of flips is as good as one, any even number but none as good as two. -/
lemma flip_iterate (f : BitVec 8) (k : ℕ) : tbFlipFlags^[2 * k + 1] f = tbFlipFlags f ∧
    tbFlipFlags^[2 * k + 2] f = tbFlipFlags (tbFlipFlags f) := by
  induction k with
  | zero => exact ⟨rfl, rfl⟩
  | succ k ih =>
    have hodd : tbFlipFlags^[2 * (k + 1) + 1] f = tbFlipFlags f := by
      rw [show 2 * (k + 1) + 1 = 2 * k + 2 + 1 by ring, Function.iterate_succ_apply', ih.2]
      exact flip_three f
    refine ⟨hodd, ?_⟩
    rw [Function.iterate_succ_apply', hodd]

/-- The numbers of flips that lead back to the flags there were. -/
lemma flip_iterate_eq {f : BitVec 8} (hf : tbNewData f = true) (k : ℕ) :
    tbFlipFlags^[k] f = f ↔ FlipsBack f k := by
  rw [FlipsBack]
  rcases Nat.even_or_odd' k with ⟨j, rfl | rfl⟩
  · cases j with
    | zero => simp
    | succ j =>
      have heven : Even (2 * (j + 1)) := even_two_mul _
      rw [show 2 * (j + 1) = 2 * j + 2 by ring] at heven ⊢
      rw [(flip_iterate f j).2, flip_two_eq f hf]
      simp [heven]
  · have hodd : ¬ Even (2 * j + 1) := by simp
    rw [(flip_iterate f j).1, flip_one_eq f hf]
    simp [hodd]

/-! ### A call under way -/

variable {α : Type} {s s' t u : TbSys α}

/-- The consumer is outside of `rtapi_tb_snapshot`. -/
def TbSys.returned (s : TbSys α) : Bool :=
  match s.reader with
  | .out _ => true
  | .snapshot _ _ => false

/-- What happens while a snapshot is under way: the actions of the producer, and the
compare-and-swaps of the consumer. -/
def TbAct.concurrent : TbAct α → Bool
  | .snapLoad | .snapIdx => false
  | _ => true

/-- Once the producer has stopped, finitely many steps of the consumer leave the call. -/
def TbSys.Returns (t : TbSys α) : Prop :=
  ∃ u, Reach tbStep (fun _ a => a = .snapCas) t u ∧ u.returned = true

/-- A call that loaded its flags in `s` is under way in `t`, or has returned. -/
structure SnapshotRun (s t : TbSys α) : Prop where
  flips : s.flips.length ≤ t.flips.length
  underway : ∀ snap f, t.reader = .snapshot snap f → f = s.flags ∧ tbNewData f = true ∧
    t.flags = tbFlipFlags^[t.flips.length - s.flips.length] s.flags

lemma SnapshotRun.load (hload : tbStep s .snapLoad = some s') : SnapshotRun s s' := by
  rw [tbStep] at hload
  split at hload
  · next snap hr =>
      split at hload
      · cases hload
        refine ⟨le_refl _, fun snap' f hf => ?_⟩
        rw [hr] at hf
        cases hf
      · next hnew =>
          cases hload
          refine ⟨le_refl _, fun snap' f hf => ?_⟩
          obtain ⟨-, rfl⟩ := TbReader.snapshot.inj hf
          exact ⟨rfl, Bool.eq_true_of_not_eq_false hnew, by simp⟩
  · cases hload

/-- A step that leaves the flags and the flips alone. -/
lemma SnapshotRun.same (h : SnapshotRun s t) (hflags : u.flags = t.flags)
    (hflips : u.flips = t.flips) (hreader : u.reader = t.reader) : SnapshotRun s u := by
  refine ⟨by rw [hflips]; exact h.flips, fun snap f hf => ?_⟩
  rw [hflags, hflips]
  exact h.underway snap f (hreader ▸ hf)

lemma SnapshotRun.flip (h : SnapshotRun s t) {v : α} {w : TbWriter} :
    SnapshotRun s
      { t with flags := tbFlipFlags t.flags, writer := w, flips := t.flips ++ [v] } := by
  have hle := h.flips
  have hlen : (t.flips ++ [v]).length - s.flips.length
      = (t.flips.length - s.flips.length) + 1 := by
    rw [List.length_append, List.length_singleton]
    omega
  refine ⟨by simp only [List.length_append]; omega, fun snap f hf => ?_⟩
  obtain ⟨hf', hnew, hflags⟩ := h.underway snap f hf
  refine ⟨hf', hnew, ?_⟩
  rw [hlen, Function.iterate_succ_apply', hflags]

/-- Every step while the call is under way. -/
lemma SnapshotRun.step (h : SnapshotRun s t) {a : TbAct α} (ha : a.concurrent = true)
    (hs : tbStep t a = some u) : SnapshotRun s u := by
  cases a with
  | writeIdx =>
    rw [tbStep] at hs
    split at hs
    · cases hs
      exact h.same rfl rfl rfl
    · cases hs
  | write v =>
    rw [tbStep] at hs
    split at hs
    · cases hs
      exact h.same rfl rfl rfl
    · cases hs
  | flipCall =>
    rw [tbStep] at hs
    split at hs
    · cases hs
      exact h.same rfl rfl rfl
    · cases hs
  | flipLoad =>
    rw [tbStep] at hs
    split at hs
    · cases hs
      exact h.same rfl rfl rfl
    · cases hs
  | flipCas =>
    rw [tbStep] at hs
    split at hs
    · next f hw =>
        split at hs
        · next hf =>
            cases hs
            subst hf
            exact h.flip
        · cases hs
          exact h.same rfl rfl rfl
    · cases hs
  | snapCas =>
    rw [tbStep] at hs
    split at hs
    · split at hs
      · cases hs
        refine ⟨h.flips, fun snap f hf => ?_⟩
        cases hf
      · cases hs
        exact h
    · cases hs
  | snapLoad => cases ha
  | snapIdx => cases ha

/-- With the producer stopped, a call that has not returned does so if the flags are those it
loaded, and otherwise makes the same attempt for ever. -/
lemma returns_iff {snap : Option (BitVec 8)} {f : BitVec 8} (hr : t.reader = .snapshot snap f) :
    t.Returns ↔ t.flags = f := by
  constructor
  · rintro ⟨u, hreach, hu⟩
    by_contra hne
    have hstay : u = t := by
      refine hreach.invariant (P := fun u => u = t) rfl ?_
      rintro v a w rfl rfl hs
      rw [tbStep, hr] at hs
      simp only [if_neg hne] at hs
      exact (Option.some.inj hs).symm
    rw [hstay, TbSys.returned, hr] at hu
    cases hu
  · intro hf
    have hs : tbStep t .snapCas = some { t with flags := tbSnapshotFlags f
                                                reader := .out none
                                                taken := t.taken ++ [t.flips.length] } := by
      rw [tbStep, hr]
      simp only [if_pos hf]
    exact ⟨_, .tail .refl rfl hs, rfl⟩

/-- **Termination of `rtapi_tb_snapshot`.** Whatever the flags, and however many flips the
producer completes after the call has loaded them: once the producer stops, the call returns
if and only if it has done so already or the flips so far lead back to the flags it loaded. -/
theorem snapshot_returns (hload : tbStep s .snapLoad = some s')
    (hrun : Reach tbStep (fun _ a => a.concurrent = true) s' t) :
    t.Returns ↔ t.returned = true ∨ FlipsBack s.flags (t.flips.length - s.flips.length) := by
  have h : SnapshotRun s t := hrun.invariant (P := SnapshotRun s) (.load hload)
    fun hI ha hs => hI.step ha hs
  cases hr : t.reader with
  | out snap =>
      have ht : t.returned = true := by rw [TbSys.returned, hr]
      exact ⟨fun _ => .inl ht, fun _ => ⟨t, .refl, ht⟩⟩
  | snapshot snap f =>
      have ht : t.returned = false := by rw [TbSys.returned, hr]
      obtain ⟨rfl, hnew, hflags⟩ := h.underway snap f hr
      rw [returns_iff hr, hflags, flip_iterate_eq hnew, ht]
      simp

/-- Two flips fall between the load of a snapshot and its compare-and-swap. -/
def twoFlips : List (TbAct ℕ) :=
  [.flipCall, .flipLoad, .flipCas, .snapCas, .flipCall, .flipLoad, .flipCas]

/-- The data of one flip, which a snapshot is about to take. -/
def oneFlip : TbSys ℕ :=
  { TbSys.init (fun _ => 0) with flags := tbFlipFlags tbInit, flips := [0] }

/-- After two flips it returns. -/
theorem snapshot_returns_twoFlips : ∃ s' t, tbStep oneFlip .snapLoad = some s' ∧
    run tbStep (fun _ a => a.concurrent) s' twoFlips = some t ∧ t.returned = false ∧
      t.Returns := by
  refine ⟨_, _, rfl, rfl, rfl, ?_⟩
  exact (snapshot_returns (s := oneFlip) rfl (reach_of_run twoFlips _ rfl)).2
    (.inr (.inr ⟨by decide, .inl (by decide)⟩))

/-- After one flip the call never returns. -/
theorem snapshot_returns_never : ¬ ∀ s s' t : TbSys ℕ, tbStep s .snapLoad = some s' →
    Reach tbStep (fun _ a => a.concurrent = true) s' t → t.Returns := by
  intro h
  obtain ⟨t, ht⟩ : ∃ t, run tbStep (fun _ a => a.concurrent)
      { oneFlip with reader := .snapshot none oneFlip.flags } (twoFlips.take 3) = some t :=
    ⟨_, rfl⟩
  have hreturns := h oneFlip _ t rfl (reach_of_run (twoFlips.take 3) _ ht)
  cases ht
  have hback := (returns_iff rfl).1 hreturns
  exact absurd hback (by decide)

end MachinekitHal
