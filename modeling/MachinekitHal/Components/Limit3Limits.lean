import MachinekitHal.Components.Limit3
import MachinekitHal.Lib.Braking

/-!
The limits of `limit3`, for every sequence of inputs.

The velocity and the acceleration stay within their limits whatever happens. The position
does so as long as the output can still be stopped in time; some of the exits of the function
see to that, the others do not look.

* `Limits.StopsBelow`, `Limits.StopsAbove`: full braking stops the output in time.
* `Limits.Gentle`: the inputs and states for which the function leaves the output able to
  stop in time.
* `Within`: the invariant; `Limits.limit3_within` keeps it.
* `Limits.Respects`: what the limits ask of one call.
* `limit3_limits`: the limits are respected as long as the calls are gentle.
-/

namespace MachinekitHal

open Casts Braking

namespace Limits

variable (L : Limits) (s : Limit3) (c : Limit3Call) (m : ℚ)

/-! ### Stopping in time -/

/-- The most the velocity can change in one period. -/
def velStep : ℚ := L.maxa * L.fperiod

/-- From the position `x` and the velocity `v` the output can stop below the maximum, up to
`m` times the tolerance of the function. -/
def StopsBelow (x v : ℚ) : Prop :=
  x + brakingDistance L.velStep L.fperiod v ≤ L.max_ + m * EPSILON
  deriving Decidable

/-- The same for the minimum. -/
def StopsAbove (x v : ℚ) : Prop :=
  L.min_ - m * EPSILON ≤ x - brakingDistance L.velStep L.fperiod (-v)
  deriving Decidable

/-- The velocity that leads to a position in one period. -/
def velTo (pos : ℚ) : ℚ := (pos - s.out) / L.fperiod

/-- Stopping in time from a position that is reached in one period. -/
def StopsFrom (pos : ℚ) : Prop :=
  L.StopsBelow m pos (L.velTo s pos) ∧ L.StopsAbove m pos (L.velTo s pos)
  deriving Decidable

/-- Full acceleration up, and down, leaves the room to stop before the limit. -/
def RoomUp : Prop := L.StopsBelow m (L.maxPos s) (L.maxVel s)
  deriving Decidable
def RoomDown : Prop := L.StopsAbove m (L.minPos s) (L.minVel s)
  deriving Decidable

/-- The time to a standstill at a position with uniform acceleration. -/
def timeTo (pos : ℚ) : ℚ := 2 * (pos - s.out) / s.outVel

/-- A position that can be reached in this period, from a standstill or slowing down. -/
def Arrives (pos : ℚ) : Prop :=
  L.ValidNext s pos ∧ (s.outVel = 0 ∨ EPSILON ≤ |s.outVel|) ∧ |timeTo s pos| ≤ L.fperiod
  deriving Decidable

/-- A position that is still ahead, in a time that an `int` of periods holds. -/
def Ahead (pos : ℚ) : Prop :=
  EPSILON ≤ |s.outVel| ∧ EPSILON ≤ timeTo s pos ∧ timeTo s pos / L.fperiod + 1 < 2 ^ 31
  deriving Decidable

/-- The start pin is cleared, and the tolerance is small against what a period changes. -/
def Halts : Prop := c.start = false ∧ EPSILON ≤ L.velStep ∧ EPSILON ≤ L.velStep * L.fperiod
  deriving Decidable

/-- The function worries about a limit, and the output arrives there, or is headed beyond it
while it is still ahead. -/
def HeedsMax : Prop :=
  L.target s c = .maxLimit ∧ (L.Arrives s L.max_ ∨ L.Ahead s L.max_ ∧ s.out < L.max_ ∧
    L.max_ + EPSILON < L.stopPosMax s ∧ L.RoomDown s m)
  deriving Decidable
def HeedsMin : Prop :=
  L.target s c = .minLimit ∧ (L.Arrives s L.min_ ∨ L.Ahead s L.min_ ∧ L.min_ < s.out ∧
    L.stopPosMin s < L.min_ - EPSILON ∧ L.RoomUp s m)
  deriving Decidable

/-- The input can be taken over: it can be reached in this period, and the output stops in
time from there. -/
def Follows : Prop :=
  L.ValidNext s c.in_ ∧ L.StopsFrom s m c.in_ ∧ (|s.outVel - L.inVel s c| < EPSILON ∨
    2 * |s.out - s.inPosOld| ≤ L.fperiod * |s.outVel - L.inVel s c|)
  deriving Decidable

/-- The output chases an input below or above it, with room on that side. -/
def ChasesDown : Prop :=
  c.in_ ≤ s.out ∧ L.inPosMax s c + EPSILON ≤ L.outPosMax s c ∧
    L.inPosMin s c - EPSILON < L.outPosMin s c ∧ L.RoomDown s m
  deriving Decidable
def ChasesUp : Prop :=
  s.out ≤ c.in_ ∧ L.outPosMax s c < L.inPosMax s c + EPSILON ∧ L.RoomUp s m
  deriving Decidable

/-- The calls for which the function leaves the output able to stop in time, as conditions on
the inputs and the state. -/
def Gentle : Prop :=
  (L.RoomUp s m ∧ L.RoomDown s m) ∨ L.Halts c ∨ L.HeedsMax s c m ∨ L.HeedsMin s c m ∨
    (L.target s c = .input ∧ (L.Follows s c m ∨ L.ChasesDown s c m ∨ L.ChasesUp s c m))
  deriving Decidable

lemma velStep_pos : 0 < L.velStep := mul_pos L.maxa_pos L.fperiod_pos

lemma stopsBelow_iff (x v : ℚ) :
    L.StopsBelow m x v ↔ Room L.velStep L.fperiod (L.max_ + m * EPSILON) x v :=
  (room_iff L.velStep_pos L.fperiod_pos.le).symm

/-- A floor is a ceiling for the negated numbers. -/
lemma stopsAbove_iff (x v : ℚ) :
    L.StopsAbove m x v ↔ Room L.velStep L.fperiod (-(L.min_ - m * EPSILON)) (-x) (-v) := by
  rw [room_iff L.velStep_pos L.fperiod_pos.le, StopsAbove]
  constructor <;> intro h <;> linarith

/-! ### Velocities -/

variable {L s c m}

lemma minVel_ge : s.outVel - L.velStep ≤ L.minVel s := by
  refine le_trans (le_of_eq ?_) (le_max_left _ _)
  rw [vfGivenViAT, velStep]
  ring

lemma maxVel_le : L.maxVel s ≤ s.outVel + L.velStep := min_le_left _ _

/-- The lowest velocity brakes as much as possible, or moves down. -/
lemma minVel_brakes : L.minVel s ≤ s.outVel - L.velStep ∨ L.minVel s ≤ 0 := by
  rcases max_choice (vfGivenViAT s.outVel (-L.maxa) L.fperiod) (-L.maxv) with h | h
  · refine .inl (le_of_eq (h.trans ?_))
    rw [vfGivenViAT, velStep]
    ring
  · refine .inr (h.le.trans ?_)
    have hmaxv := L.maxv_pos
    linarith

/-- Where even full braking moves up, the output was faster by a whole step. -/
lemma minVel_fast (h : 0 ≤ L.minVel s) : L.minVel s = s.outVel - L.velStep := by
  rcases max_choice (vfGivenViAT s.outVel (-L.maxa) L.fperiod) (-L.maxv) with hc | hc
  · rw [minVel, hc, vfGivenViAT, velStep]
    ring
  · have hmaxv := L.maxv_pos
    rw [minVel, hc] at h
    linarith

lemma maxVel_fast (h : L.maxVel s ≤ 0) : L.maxVel s = s.outVel + L.velStep := by
  rcases min_choice (vfGivenViAT s.outVel L.maxa L.fperiod) L.maxv with hc | hc
  · rw [maxVel, hc, vfGivenViAT, velStep]
  · have hmaxv := L.maxv_pos
    rw [maxVel, hc] at h
    linarith

lemma maxVel_brakes : -L.maxVel s ≤ -s.outVel - L.velStep ∨ -L.maxVel s ≤ 0 := by
  rcases min_choice (vfGivenViAT s.outVel L.maxa L.fperiod) L.maxv with h | h
  · refine .inl ?_
    rw [maxVel, h, vfGivenViAT, velStep]
    linarith
  · refine .inr ?_
    have hmaxv := L.maxv_pos
    rw [maxVel, h]
    linarith

/-- There is a choice of velocities. -/
lemma minVel_lt_maxVel (hv : |s.outVel| ≤ L.maxv) : L.minVel s < L.maxVel s := by
  have hq := L.velStep_pos
  have hmaxv := L.maxv_pos
  obtain ⟨h1, h2⟩ := abs_le.1 hv
  rw [velStep] at hq
  have h3 : vfGivenViAT s.outVel (-L.maxa) L.fperiod = s.outVel - L.maxa * L.fperiod := by
    rw [vfGivenViAT]
    ring
  have h4 : vfGivenViAT s.outVel L.maxa L.fperiod = s.outVel + L.maxa * L.fperiod := rfl
  rw [minVel, maxVel, h3, h4]
  refine max_lt (lt_min ?_ ?_) (lt_min ?_ ?_) <;> linarith

lemma velTo_mul (pos : ℚ) : s.out + L.velTo s pos * L.fperiod = pos := by
  have hT := L.fperiod_pos.ne'
  rw [velTo]
  field_simp
  ring

lemma velTo_add (v : ℚ) : L.velTo s (s.out + v * L.fperiod) = v := by
  have hT := L.fperiod_pos.ne'
  rw [velTo]
  field_simp
  ring

lemma velTo_le {pos v : ℚ} : L.velTo s pos ≤ v ↔ pos ≤ s.out + v * L.fperiod := by
  rw [velTo, div_le_iff₀ L.fperiod_pos, sub_le_iff_le_add']

lemma le_velTo {pos v : ℚ} : v ≤ L.velTo s pos ↔ s.out + v * L.fperiod ≤ pos := by
  rw [velTo, le_div_iff₀ L.fperiod_pos, le_sub_iff_add_le']

lemma validNext_iff {pos : ℚ} :
    L.ValidNext s pos ↔ L.velTo s pos ≤ L.maxVel s ∧ L.minVel s ≤ L.velTo s pos := by
  rw [velTo_le, le_velTo, ValidNext, maxPos, minPos]

/-! ### What a call leads to -/

lemma limit3_eq {I : IntConversion} (hload : c.load = false) :
    L.limit3 I s c = L.setNextState s (L.nextPos s c I) c.in_ := by
  rw [limit3, hload]
  rfl

lemma exit_reach (h : L.exit s c = .reach) :
    L.ValidNext s (L.goal s c).posCur ∧ |L.goalTime s c| ≤ L.fperiod := by
  by_contra hno
  rw [exit] at h
  simp only [if_neg hno] at h
  split_ifs at h

/-- Full acceleration up comes first, unless the goal is reached. -/
lemma exit_of_up (h : (L.goal s c).achPosMax < (L.goal s c).posMax + EPSILON) :
    L.exit s c = .reach ∨ L.exit s c = .up := by
  simp only [exit, if_pos h]
  split_ifs <;> simp

/-- Full acceleration down comes next. -/
lemma exit_of_down (hup : ¬ (L.goal s c).achPosMax < (L.goal s c).posMax + EPSILON)
    (h : (L.goal s c).achPosMin > (L.goal s c).posMin - EPSILON) :
    L.exit s c = .reach ∨ L.exit s c = .down := by
  simp only [exit, if_neg hup, if_pos h]
  split_ifs <;> simp

/-- The exits when the output is headed beyond the goal. -/
lemma exit_of_above (h : (L.goal s c).posMax + EPSILON < (L.goal s c).achPosMax)
    (hprev : s.out < (L.goal s c).posPrev) :
    L.exit s c = .reach ∨ L.exit s c = .land ∨
      L.exit s c = .down ∨ L.exit s c = .brakeDown := by
  simp only [exit, if_neg h.not_gt, if_pos (And.intro h hprev)]
  split_ifs <;> simp

lemma exit_of_below (h : (L.goal s c).achPosMin < (L.goal s c).posMin - EPSILON)
    (hprev : (L.goal s c).posPrev < s.out) :
    L.exit s c = .reach ∨ L.exit s c = .land ∨ L.exit s c = .up ∨ L.exit s c = .brakeUp := by
  have hno : ¬ ((L.goal s c).posMax + EPSILON < (L.goal s c).achPosMax ∧
      (L.goal s c).posPrev > s.out) := fun hc => hprev.not_gt hc.2
  simp only [exit, if_neg h.not_gt, if_neg hno, if_pos (And.intro h hprev)]
  split_ifs <;> simp

/-- The landing is reachable. -/
lemma landPos_valid {I : IntConversion} (hle : L.minPos s ≤ L.maxPos s) :
    L.ValidNext s (L.landPos s c I) := by
  rw [landPos]
  dsimp only
  split_ifs
  · exact ⟨le_refl _, hle⟩
  · exact ⟨hle, le_refl _⟩
  · exact ⟨min_le_left _ _, le_min hle (le_max_left _ _)⟩

/-- What a call leads to is reachable. -/
lemma nextPos_valid {I : IntConversion} (hv : |s.outVel| ≤ L.maxv) :
    L.ValidNext s (L.nextPos s c I) := by
  have hle : L.minPos s ≤ L.maxPos s := by
    have hmul := mul_le_mul_of_nonneg_right (minVel_lt_maxVel hv).le L.fperiod_pos.le
    rw [minPos, maxPos]
    linarith
  rw [nextPos]
  cases hexit : L.exit s c with
  | reach => exact (exit_reach hexit).1
  | up => exact ⟨le_refl _, hle⟩
  | brakeUp => exact ⟨le_refl _, hle⟩
  | down => exact ⟨hle, le_refl _⟩
  | brakeDown => exact ⟨hle, le_refl _⟩
  | land => exact landPos_valid hle
  | coast => constructor <;> linarith

/-! ### The invariant -/

end Limits

/-- The output is not too fast, and it can be stopped in time on both sides. -/
structure Within (L : Limits) (m : ℚ) (s : Limit3) : Prop where
  speed : |s.outVel| ≤ L.maxv
  below : L.StopsBelow m s.out s.outVel
  above : L.StopsAbove m s.out s.outVel

namespace Limits

variable {L : Limits} {s : Limit3} {c : Limit3Call} {m pos : ℚ}

/-- A position that is reached with full braking, or by moving back. -/
lemma stopsBelow_of_brakes (hW : Within L m s)
    (hv : L.velTo s pos ≤ s.outVel - L.velStep ∨ L.velTo s pos ≤ 0) :
    L.StopsBelow m pos (L.velTo s pos) := by
  have hroom := ((stopsBelow_iff L m _ _).1 hW.below).brake_or_back L.velStep_pos.le
    L.fperiod_pos.le hv
  rw [velTo_mul] at hroom
  exact (stopsBelow_iff L m _ _).2 hroom

lemma stopsAbove_of_brakes (hW : Within L m s)
    (hv : -L.velTo s pos ≤ -s.outVel - L.velStep ∨ -L.velTo s pos ≤ 0) :
    L.StopsAbove m pos (L.velTo s pos) := by
  have hroom := ((stopsAbove_iff L m _ _).1 hW.above).brake_or_back L.velStep_pos.le
    L.fperiod_pos.le hv
  have hpos : -s.out + -L.velTo s pos * L.fperiod = -pos := by
    have hmul : s.out + L.velTo s pos * L.fperiod = pos := velTo_mul pos
    linear_combination -hmul
  rw [hpos] at hroom
  exact (stopsAbove_iff L m _ _).2 hroom

/-- A position within the limits, at a velocity that can be stopped at once. -/
lemma stopsFrom_of_slow (hm : 0 ≤ m) (hlo : L.min_ ≤ pos) (hhi : pos ≤ L.max_)
    (hv : |L.velTo s pos| ≤ L.velStep) : L.StopsFrom s m pos := by
  obtain ⟨h1, h2⟩ := abs_le.1 hv
  have he : 0 ≤ m * EPSILON := mul_nonneg hm (by norm_num [EPSILON])
  refine ⟨(stopsBelow_iff L m _ _).2 ?_, (stopsAbove_iff L m _ _).2 ?_⟩
  · exact room_of_le L.velStep_pos.le L.fperiod_pos.le h2 (by linarith)
  · exact room_of_le L.velStep_pos.le L.fperiod_pos.le (by linarith) (by linarith)

/-! ### Reaching the goal -/

/-- A goal that stands still and is reached in one period is reached with at most half the
velocity. -/
lemma velTo_half (hv : EPSILON ≤ |s.outVel|)
    (ht : |if |-s.outVel| < EPSILON then 0 else (s.out - pos) / ((-s.outVel + 0) / 2)| ≤
      L.fperiod) : |L.velTo s pos| ≤ |s.outVel| / 2 := by
  have hpos : 0 < |s.outVel| := lt_of_lt_of_le (by norm_num [EPSILON]) hv
  rw [abs_neg, if_neg hv.not_gt, abs_div, abs_div, abs_sub_comm, add_zero, abs_neg,
    abs_of_pos (two_pos (α := ℚ)), div_le_iff₀ (by linarith)] at ht
  rw [velTo, abs_div, abs_of_pos L.fperiod_pos, div_le_iff₀ L.fperiod_pos]
  linarith

/-- It is a velocity that can be stopped at once. -/
lemma velTo_slow (hvalid : L.ValidNext s pos) (hhalf : |L.velTo s pos| ≤ |s.outVel| / 2) :
    |L.velTo s pos| ≤ L.velStep := by
  obtain ⟨h1, h2⟩ := validNext_iff.1 hvalid
  have h3 := minVel_ge (L := L) (s := s)
  have h4 := maxVel_le (L := L) (s := s)
  obtain ⟨h5, h6⟩ := abs_le.1 hhalf
  have hq := L.velStep_pos
  rw [abs_le]
  rcases le_total 0 s.outVel with h | h
  · rw [abs_of_nonneg h] at h5 h6
    constructor <;> linarith
  · rw [abs_of_nonpos h] at h5 h6
    constructor <;> linarith

/-! ### Standing still -/

/-- Where the output stops from the velocity `v`, as the function has it. -/
def stopPos (L : Limits) (s : Limit3) (v : ℚ) : ℚ :=
  s.out + sGivenViVfT v 0 (|tGivenViVfA v 0 L.maxa| + L.fperiod)

lemma stopPos_eq (v : ℚ) :
    L.stopPos s v = s.out + v / 2 * (|v| / L.maxa + L.fperiod) := by
  rw [stopPos, sGivenViVfT, tGivenViVfA, abs_div, abs_of_pos L.maxa_pos, zero_sub, abs_neg,
    zero_add]

lemma stopTime_pos (v : ℚ) : 0 < |v| / L.maxa + L.fperiod :=
  add_pos_of_nonneg_of_pos (div_nonneg (abs_nonneg v) L.maxa_pos.le) L.fperiod_pos

/-- It lies in the direction of the velocity. -/
lemma lt_stopPos_iff {v : ℚ} : s.out < L.stopPos s v ↔ 0 < v := by
  rw [stopPos_eq, lt_add_iff_pos_right, mul_pos_iff_of_pos_right (L.stopTime_pos v)]
  constructor <;> intro h <;> linarith

lemma stopPos_lt_iff {v : ℚ} : L.stopPos s v < s.out ↔ v < 0 := by
  rw [stopPos_eq, add_lt_iff_neg_left, ← neg_pos, ← neg_mul,
    mul_pos_iff_of_pos_right (L.stopTime_pos v)]
  constructor <;> intro h <;> linarith

/-- When it is reached in one period, it is reached with no more than that velocity. -/
lemma velTo_stopPos {v : ℚ} (hslow : |L.velTo s (L.stopPos s v)| ≤ L.velStep) :
    |L.velTo s (L.stopPos s v)| ≤ |v| := by
  have ha := L.maxa_pos
  have hT := L.fperiod_pos
  have hq := L.velStep_pos
  have hvel : |L.velTo s (L.stopPos s v)| = |v| / 2 * (|v| / L.velStep + 1) := by
    have htime : |v| / L.velStep + 1 = (|v| / L.maxa + L.fperiod) / L.fperiod := by
      rw [velStep]
      field_simp
    rw [htime, velTo, stopPos_eq, add_sub_cancel_left, abs_div, abs_mul, abs_div,
      abs_of_pos (two_pos (α := ℚ)), abs_of_pos (L.stopTime_pos v), abs_of_pos hT, mul_div_assoc]
  rw [hvel] at hslow ⊢
  -- a greater velocity takes longer to stop
  have hv : |v| / L.velStep ≤ 1 := by
    by_contra hgt
    rw [not_le, one_lt_div hq] at hgt
    have h1 : 1 < |v| / L.velStep := (one_lt_div hq).2 hgt
    have h2 : L.velStep / 2 * 2 < |v| / 2 * (|v| / L.velStep + 1) :=
      mul_lt_mul'' (by linarith) (by linarith) (by linarith) (by norm_num)
    linarith
  have hmul : |v| / 2 * (|v| / L.velStep + 1) ≤ |v| / 2 * 2 :=
    mul_le_mul_of_nonneg_left (by linarith) (by positivity)
  linarith

/-- Where the output is to stop: here if it can, or else as soon as it can. -/
lemma stopGoal_cases (hv : |s.outVel| ≤ L.maxv) :
    (L.minVel s < 0 ∧ 0 < L.maxVel s ∧ L.stopGoal s = s.out) ∨
    (L.maxVel s ≤ 0 ∧ L.stopGoal s = L.stopPos s (L.maxVel s)) ∨
    (0 ≤ L.minVel s ∧ L.stopGoal s = L.stopPos s (L.minVel s)) := by
  have hlt := minVel_lt_maxVel hv
  have hmax : L.stopPosMax s = L.stopPos s (L.maxVel s) := rfl
  have hmin : L.stopPosMin s = L.stopPos s (L.minVel s) := rfl
  have htime : L.stopTimeMax s < L.stopTimeMin s ↔ |L.maxVel s| < |L.minVel s| := by
    rw [stopTimeMax, stopTimeMin, tGivenViVfA, tGivenViVfA, abs_div, abs_div, zero_sub, zero_sub,
      abs_neg, abs_neg, add_lt_add_iff_right,
      div_lt_div_iff_of_pos_right (abs_pos.2 L.maxa_pos.ne')]
  rw [stopGoal, hmax, hmin]
  split_ifs with hin hfaster
  · exact .inl ⟨stopPos_lt_iff.1 hin.1, lt_stopPos_iff.1 hin.2, rfl⟩
  · -- the output moves down
    have hneg : L.minVel s < 0 := by
      by_contra h
      rw [htime, abs_of_nonneg (not_lt.1 h), abs_of_nonneg (by linarith)] at hfaster
      linarith
    exact .inr (.inl ⟨not_lt.1 fun h => hin ⟨stopPos_lt_iff.2 hneg, lt_stopPos_iff.2 h⟩, rfl⟩)
  · -- the output moves up
    have hpos : 0 < L.maxVel s := by
      by_contra h
      refine hfaster (htime.2 ?_)
      rw [abs_of_nonpos (not_lt.1 h), abs_of_nonpos (by linarith)]
      linarith
    exact .inr (.inr ⟨not_lt.1 fun h => hin ⟨stopPos_lt_iff.2 h, lt_stopPos_iff.2 hpos⟩, rfl⟩)

lemma velTo_out : L.velTo s s.out = 0 := by simp [velTo]

/-- The goal of a stop, when it is reached in one period, is reached with full braking or
by moving back. -/
lemma velTo_stopGoal (hv : |s.outVel| ≤ L.maxv)
    (hslow : |L.velTo s (L.stopGoal s)| ≤ L.velStep) :
    (L.velTo s (L.stopGoal s) ≤ s.outVel - L.velStep ∨ L.velTo s (L.stopGoal s) ≤ 0) ∧
      (-L.velTo s (L.stopGoal s) ≤ -s.outVel - L.velStep ∨ -L.velTo s (L.stopGoal s) ≤ 0) := by
  rcases stopGoal_cases hv with ⟨-, -, h⟩ | ⟨hmax0, h⟩ | ⟨hmin0, h⟩ <;> rw [h] at hslow ⊢
  · rw [velTo_out]
    exact ⟨.inr (le_refl _), .inr (by simp)⟩
  · have hback : L.stopPos s (L.maxVel s) ≤ s.out := not_lt.1 fun h =>
      absurd (lt_stopPos_iff.1 h) hmax0.not_gt
    have hle : L.velTo s (L.stopPos s (L.maxVel s)) ≤ 0 :=
      velTo_le.2 (by linarith)
    have hbound := velTo_stopPos hslow
    rw [abs_of_nonpos hle, abs_of_nonpos hmax0] at hbound
    refine ⟨.inr hle, (maxVel_brakes (L := L) (s := s)).imp ?_ ?_⟩ <;> exact hbound.trans
  · have hforth : s.out ≤ L.stopPos s (L.minVel s) := not_lt.1 fun h =>
      absurd (stopPos_lt_iff.1 h) hmin0.not_gt
    have hle : 0 ≤ L.velTo s (L.stopPos s (L.minVel s)) :=
      le_velTo.2 (by linarith)
    have hbound := velTo_stopPos hslow
    rw [abs_of_nonneg hle, abs_of_nonneg hmin0] at hbound
    refine ⟨(minVel_brakes (L := L) (s := s)).imp ?_ ?_, .inr (by linarith)⟩ <;>
      exact hbound.trans

/-- Moving up without a chance to stop at once, full acceleration stops a step later than
full braking. -/
lemma stopPos_gap (hv : |s.outVel| ≤ L.maxv) (h : 0 ≤ L.minVel s) :
    L.stopPosMin s + L.velStep * L.fperiod ≤ L.stopPosMax s := by
  have ha := L.maxa_pos
  have hT := L.fperiod_pos
  have hq := L.velStep_pos
  have hfast := minVel_fast h
  have hmax : L.minVel s + L.velStep ≤ L.maxVel s := by
    rw [hfast, sub_add_cancel]
    refine le_min ?_ (abs_le.1 hv).2
    rw [vfGivenViAT, ← velStep]
    linarith
  change L.stopPos s _ + _ ≤ L.stopPos s _
  rw [stopPos_eq, stopPos_eq, abs_of_nonneg h, abs_of_nonneg (by linarith)]
  generalize L.minVel s = v at *
  generalize L.maxVel s = w at *
  have hdiv : v / L.maxa + L.fperiod ≤ w / L.maxa := by
    rw [le_div_iff₀ ha, add_mul, div_mul_cancel₀ _ ha.ne']
    rw [velStep] at hmax
    linarith
  have hdiv0 : 0 ≤ v / L.maxa := div_nonneg h ha.le
  have h1 : w / 2 * (v / L.maxa + L.fperiod + L.fperiod) ≤ w / 2 * (w / L.maxa + L.fperiod) :=
    mul_le_mul_of_nonneg_left (by linarith) (by linarith)
  have h2 : (v + L.velStep) / 2 * (v / L.maxa + L.fperiod + L.fperiod) ≤
      w / 2 * (v / L.maxa + L.fperiod + L.fperiod) :=
    mul_le_mul_of_nonneg_right (by linarith) (by linarith)
  have h3 : 0 ≤ L.velStep * (v / L.maxa) := by positivity
  have h4 : 0 ≤ v * L.fperiod := by positivity
  linarith

/-! ### Landing -/

/-- A landing that is still ahead takes `n` periods, and `n - 1` of them are no longer than
the time to the goal. -/
lemma landTime_eq {I : IntConversion} (ht : EPSILON ≤ L.goalTime s c)
    (hint : L.goalTime s c / L.fperiod + 1 < 2 ^ 31) :
    ∃ n : ℕ, 0 < n ∧ L.landTime s c I = n * L.fperiod ∧
      ((n : ℚ) - 1) * L.fperiod ≤ L.goalTime s c := by
  have hT := L.fperiod_pos
  have he : 0 < EPSILON := by norm_num [EPSILON]
  set t := L.goalTime s c with htdef
  have hsign : sign t = 1 := if_pos (by linarith)
  obtain ⟨x, hx⟩ : ∃ x, (t - EPSILON) / L.fperiod + 1 = x := ⟨_, rfl⟩
  have hx1 : 1 ≤ x := by
    rw [← hx, le_add_iff_nonneg_left]
    exact div_nonneg (by linarith) hT.le
  have hx2 : x < 2 ^ 31 := by
    have hdiv : (t - EPSILON) / L.fperiod ≤ t / L.fperiod :=
      div_le_div_of_nonneg_right (by linarith) hT.le
    linarith
  have hfloor : I.toInt x = ⌊x⌋ := by
    rw [I.toInt_eq x (by linarith) hx2, if_pos (by linarith)]
  have hpos : 1 ≤ ⌊x⌋ := Int.le_floor.2 (by exact_mod_cast hx1)
  obtain ⟨n, hn⟩ := Int.eq_ofNat_of_zero_le (zero_le_one.trans hpos)
  have hcast : ((⌊x⌋ : ℤ) : ℚ) = n := by rw [hn, Int.cast_natCast]
  refine ⟨n, by omega, ?_, ?_⟩
  · rw [landTime, ← htdef, hsign, mul_one, hx, hfloor, hcast]
  · have hle : (n : ℚ) ≤ x := hcast ▸ Int.floor_le x
    have hmul : ((n : ℚ) - 1) * L.fperiod ≤ (t - EPSILON) / L.fperiod * L.fperiod :=
      mul_le_mul_of_nonneg_right (by linarith) hT.le
    rw [div_mul_cancel₀ _ hT.ne'] at hmul
    linarith

/-- The velocity that a landing in `n` periods on a goal that stands still takes. -/
lemma velTo_landPos {I : IntConversion} {n : ℕ} (hn : 0 < n)
    (hgoal : L.goal s c = L.fixedGoal s pos) (hti : L.landTime s c I = n * L.fperiod) :
    L.velTo s (L.landPos s c I) ≤ max (L.minVel s) (s.outVel - s.outVel / n) ∧
      -L.velTo s (L.landPos s c I) ≤ max (-L.maxVel s) (-s.outVel - -s.outVel / n) := by
  have hT := L.fperiod_pos
  have hn0 : (n : ℚ) ≠ 0 := by exact_mod_cast hn.ne'
  have hti0 : ¬ L.landTime s c I = 0 := by
    rw [hti]
    exact mul_ne_zero hn0 hT.ne'
  have hvel : s.outVel + (-s.outVel - 0) / (n * L.fperiod) * L.fperiod =
      s.outVel - s.outVel / n := by
    field_simp
    ring
  have hpos : L.landPos s c I = min (L.maxPos s) (max (L.minPos s)
      (s.out + (s.outVel - s.outVel / n) * L.fperiod)) := by
    rw [landPos]
    dsimp only
    rw [if_neg hti0, hti, hgoal]
    exact congrArg (fun v => min (L.maxPos s) (max (L.minPos s) (s.out + v * L.fperiod))) hvel
  constructor
  · rw [velTo_le, hpos]
    refine (min_le_right _ _).trans (max_le ?_ ?_)
    · have hmul := mul_le_mul_of_nonneg_right (le_max_left (L.minVel s)
        (s.outVel - s.outVel / n)) hT.le
      rw [minPos]
      linarith
    · have hmul := mul_le_mul_of_nonneg_right (le_max_right (L.minVel s)
        (s.outVel - s.outVel / n)) hT.le
      linarith
  · have hmax : -max (-L.maxVel s) (-s.outVel - -s.outVel / n) =
        min (L.maxVel s) (s.outVel - s.outVel / n) := by
      rw [← min_neg_neg]
      congr 1 <;> ring
    rw [neg_le, hmax, le_velTo, hpos]
    refine le_min ?_ (le_max_of_le_right ?_)
    · have hmul := mul_le_mul_of_nonneg_right (min_le_left (L.maxVel s)
        (s.outVel - s.outVel / n)) hT.le
      rw [maxPos]
      linarith
    · have hmul := mul_le_mul_of_nonneg_right (min_le_right (L.maxVel s)
        (s.outVel - s.outVel / n)) hT.le
      linarith

/-! ### What keeps the output able to stop -/

/-- Every target but the input stands still; the limits are within the limits. -/
lemma goal_fixed (h : L.target s c ≠ .input) : ∃ pos, L.goal s c = L.fixedGoal s pos ∧
    ((L.target s c = .maxLimit ∨ L.target s c = .minLimit) → L.min_ ≤ pos ∧ pos ≤ L.max_) ∧
    (L.target s c = .stop → pos = L.stopGoal s) := by
  rw [goal]
  cases ht : L.target s c with
  | stop => exact ⟨_, rfl, by simp, fun _ => rfl⟩
  | maxLimit => exact ⟨_, rfl, fun _ => ⟨L.min_le_max, le_refl _⟩, by simp⟩
  | minLimit => exact ⟨_, rfl, fun _ => ⟨le_refl _, L.min_le_max⟩, by simp⟩
  | input => exact absurd ht h

/-- Reaching a goal that stands still, with a velocity to compare. -/
lemma stopsFrom_reach (hm : 0 ≤ m) (hW : Within L m s) (hexit : L.exit s c = .reach)
    (htarget : L.target s c ≠ .input) (hv : EPSILON ≤ |s.outVel|) :
    L.StopsFrom s m (L.goal s c).posCur := by
  obtain ⟨pos, hgoal, hlimit, hstop⟩ := goal_fixed htarget
  obtain ⟨hvalid, ht⟩ := exit_reach hexit
  rw [goalTime, hgoal] at ht
  rw [hgoal] at hvalid ⊢
  have hslow : |L.velTo s pos| ≤ L.velStep := velTo_slow hvalid (velTo_half hv ht)
  cases h : L.target s c with
  | input => exact absurd h htarget
  | stop =>
    obtain rfl := hstop h
    obtain ⟨hbelow, habove⟩ := velTo_stopGoal hW.speed hslow
    exact ⟨stopsBelow_of_brakes hW hbelow, stopsAbove_of_brakes hW habove⟩
  | maxLimit => exact stopsFrom_of_slow hm (hlimit (.inl h)).1 (hlimit (.inl h)).2 hslow
  | minLimit => exact stopsFrom_of_slow hm (hlimit (.inr h)).1 (hlimit (.inr h)).2 hslow

/-- A landing on a limit that is still ahead. -/
lemma stopsFrom_land {I : IntConversion} (hm : 0 ≤ m) (hW : Within L m s)
    (htarget : L.target s c = .maxLimit ∨ L.target s c = .minLimit)
    (ht : EPSILON ≤ L.goalTime s c) (hint : L.goalTime s c / L.fperiod + 1 < 2 ^ 31) :
    L.StopsFrom s m (L.landPos s c I) := by
  have he : 0 < EPSILON := by norm_num [EPSILON]
  have hme : 0 ≤ m * EPSILON := mul_nonneg hm he.le
  have hinput : L.target s c ≠ .input := by
    rcases htarget with h | h <;> rw [h] <;> simp
  obtain ⟨pos, hgoal, hlimit, -⟩ := goal_fixed hinput
  obtain ⟨hlo, hhi⟩ := hlimit htarget
  obtain ⟨n, hn, hti, hway⟩ := landTime_eq (I := I) ht hint
  obtain ⟨hbelow, habove⟩ := velTo_landPos hn hgoal hti
  -- the way to the goal
  have hgo : s.outVel * L.goalTime s c = 2 * (pos - s.out) := by
    have hdef : L.goalTime s c = if |-s.outVel| < EPSILON then 0
        else (s.out - pos) / ((-s.outVel + 0) / 2) := by
      rw [goalTime, hgoal]
      rfl
    rw [hdef] at ht ⊢
    split_ifs at ht ⊢ with hsmall
    · linarith
    · have hne : s.outVel ≠ 0 := fun h0 => hsmall (by rwa [h0, neg_zero, abs_zero])
      rw [add_zero, neg_div, div_neg, ← neg_div, neg_sub, div_div_eq_mul_div, mul_div_cancel₀ _ hne]
      ring
  obtain ⟨w, hw⟩ : ∃ w, L.velTo s (L.landPos s c I) = w := ⟨_, rfl⟩
  have hpos : s.out + w * L.fperiod = L.landPos s c I := hw ▸ velTo_mul _
  rw [StopsFrom, hw]
  rw [hw] at hbelow habove
  constructor
  · rw [stopsBelow_iff, ← hpos]
    refine ((stopsBelow_iff L m _ _).1 hW.below).land L.velStep_pos.le L.fperiod_pos.le hn
      minVel_ge minVel_brakes hbelow fun hv => ?_
    have hmul := mul_le_mul_of_nonneg_left hway hv.le
    linarith
  · rw [stopsAbove_iff, ← hpos, neg_add, ← neg_mul]
    refine ((stopsAbove_iff L m _ _).1 hW.above).land L.velStep_pos.le L.fperiod_pos.le hn
      ?_ maxVel_brakes habove fun hv => ?_
    · have hle := maxVel_le (L := L) (s := s)
      linarith
    · have hmul := mul_le_mul_of_nonneg_left hway hv.le
      linarith

lemma velTo_maxPos : L.velTo s (L.maxPos s) = L.maxVel s := velTo_add _

lemma velTo_minPos : L.velTo s (L.minPos s) = L.minVel s := velTo_add _

/-- Room for full acceleration is room for less. -/
lemma stopsBelow_of_roomUp (h : L.RoomUp s m) (hpos : pos ≤ L.maxPos s) :
    L.StopsBelow m pos (L.velTo s pos) :=
  (stopsBelow_iff L m _ _).2 (((stopsBelow_iff L m _ _).1 h).mono L.fperiod_pos.le hpos
    (velTo_le.2 hpos))

lemma stopsAbove_of_roomDown (h : L.RoomDown s m) (hpos : L.minPos s ≤ pos) :
    L.StopsAbove m pos (L.velTo s pos) :=
  (stopsAbove_iff L m _ _).2 (((stopsAbove_iff L m _ _).1 h).mono L.fperiod_pos.le
    (neg_le_neg hpos) (neg_le_neg (le_velTo.2 hpos)))

/-- A position on the way back. -/
lemma stopsBelow_of_le (hW : Within L m s) (hpos : pos ≤ s.out) :
    L.StopsBelow m pos (L.velTo s pos) :=
  stopsBelow_of_brakes hW (.inr (velTo_le.2 (by linarith)))

lemma stopsAbove_of_ge (hW : Within L m s) (hpos : s.out ≤ pos) :
    L.StopsAbove m pos (L.velTo s pos) :=
  stopsAbove_of_brakes hW (.inr (neg_nonpos.2 (le_velTo.2 (by linarith))))

lemma stopsFrom_up (hW : Within L m s) (h : L.StopsBelow m (L.maxPos s) (L.maxVel s)) :
    L.StopsFrom s m (L.maxPos s) := by
  refine ⟨by rwa [velTo_maxPos], stopsAbove_of_brakes hW ?_⟩
  rw [velTo_maxPos]
  exact maxVel_brakes

lemma stopsFrom_down (hW : Within L m s) (h : L.StopsAbove m (L.minPos s) (L.minVel s)) :
    L.StopsFrom s m (L.minPos s) := by
  refine ⟨stopsBelow_of_brakes hW ?_, by rwa [velTo_minPos]⟩
  rw [velTo_minPos]
  exact minVel_brakes

/-! ### Gentle calls -/

variable {I : IntConversion}

/-- A stop, by where the output is to stop. -/
lemma stopsFrom_halts (hm : 0 ≤ m) (hW : Within L m s) (h : L.Halts c) :
    L.StopsFrom s m (L.nextPos s c I) := by
  obtain ⟨hstart, hq, hqT⟩ := h
  have htarget : L.target s c = .stop := by simp [target, hstart]
  have hgoal : L.goal s c = L.fixedGoal s (L.stopGoal s) := by rw [goal, htarget]
  have hreach (hexit : L.exit s c = .reach) (hv : L.velStep ≤ |s.outVel|) :
      L.StopsFrom s m (L.nextPos s c I) := by
    rw [nextPos, hexit]
    exact stopsFrom_reach hm hW hexit (by simp [htarget]) (hq.trans hv)
  rcases stopGoal_cases hW.speed with ⟨hneg, hpos, hstop⟩ | ⟨hmax0, hstop⟩ | ⟨hmin0, hstop⟩
  · -- it stands still at once
    have hvalid : L.ValidNext s s.out := by
      rw [validNext_iff, velTo_out]
      exact ⟨hpos.le, hneg.le⟩
    have htime : L.goalTime s c = 0 := by simp [goalTime, hgoal, hstop, fixedGoal]
    have hexit : L.exit s c = .reach := by
      rw [exit, htime, hgoal, hstop]
      exact if_pos ⟨hvalid, by rw [abs_zero]; exact L.fperiod_pos.le⟩
    rw [nextPos, hexit, hgoal, hstop]
    exact ⟨stopsBelow_of_le hW (le_refl _), stopsAbove_of_ge hW (le_refl _)⟩
  · -- it moves down
    have hup : (L.goal s c).achPosMax < (L.goal s c).posMax + EPSILON := by
      rw [hgoal, hstop]
      exact lt_add_of_pos_right _ (by norm_num [EPSILON])
    rcases exit_of_up hup with hexit | hexit
    · refine hreach hexit (le_abs.2 (.inr ?_))
      have hfast := maxVel_fast hmax0
      linarith
    · rw [nextPos, hexit]
      refine stopsFrom_up hW ?_
      have hback := @stopsBelow_of_brakes L s m (L.maxPos s) hW
        (by rw [velTo_maxPos]; exact .inr hmax0)
      rwa [velTo_maxPos] at hback
  · -- it moves up
    have hup : ¬ (L.goal s c).achPosMax < (L.goal s c).posMax + EPSILON := by
      rw [hgoal, hstop, not_lt]
      have hgap := stopPos_gap hW.speed hmin0
      change L.stopPosMin s + EPSILON ≤ L.stopPosMax s
      linarith
    have hdown : (L.goal s c).achPosMin > (L.goal s c).posMin - EPSILON := by
      rw [hgoal, hstop]
      exact sub_lt_self _ (by norm_num [EPSILON])
    rcases exit_of_down hup hdown with hexit | hexit
    · refine hreach hexit (le_abs.2 (.inl ?_))
      have hfast := minVel_fast hmin0
      linarith
    · rw [nextPos, hexit]
      refine stopsFrom_down hW ?_
      have hback := @stopsAbove_of_brakes L s m (L.minPos s) hW
        (by rw [velTo_minPos]; exact .inr (neg_nonpos.2 hmin0))
      rwa [velTo_minPos] at hback

/-- The time to a goal that stands still. -/
lemma goalTime_fixed (hgoal : L.goal s c = L.fixedGoal s pos)
    (hv : s.outVel = 0 ∨ EPSILON ≤ |s.outVel|) : L.goalTime s c = timeTo s pos := by
  have he : 0 < EPSILON := by norm_num [EPSILON]
  rw [goalTime, hgoal, timeTo]
  simp only [fixedGoal, abs_neg]
  rcases hv with hv | hv
  · simp [hv, he]
  · rw [if_neg hv.not_gt, add_zero, neg_div, div_neg, ← neg_div, neg_sub, div_div_eq_mul_div,
      mul_comm]

/-- A limit that is reached in this period. -/
lemma stopsFrom_arrives (hm : 0 ≤ m) (hW : Within L m s)
    (htarget : L.target s c = .maxLimit ∨ L.target s c = .minLimit)
    (hgoal : L.goal s c = L.fixedGoal s pos) (hlo : L.min_ ≤ pos) (hhi : pos ≤ L.max_)
    (h : L.Arrives s pos) : L.StopsFrom s m (L.nextPos s c I) := by
  obtain ⟨hvalid, hv, ht⟩ := h
  have hexit : L.exit s c = .reach := by
    rw [exit]
    refine if_pos ⟨by rwa [hgoal], ?_⟩
    rwa [goalTime_fixed hgoal hv]
  rw [nextPos, hexit]
  rcases hv with hv | hv
  · obtain ⟨h1, h2⟩ := validNext_iff.1 hvalid
    have h3 := maxVel_le (L := L) (s := s)
    have h4 := minVel_ge (L := L) (s := s)
    change L.StopsFrom s m (L.goal s c).posCur
    rw [hgoal]
    change L.StopsFrom s m pos
    exact stopsFrom_of_slow hm hlo hhi (abs_le.2 ⟨by linarith, by linarith⟩)
  · refine stopsFrom_reach hm hW hexit ?_ hv
    rcases htarget with h | h <;> rw [h] <;> simp

/-- A limit that is ahead, by the exits that do not brake as much as possible. -/
lemma stopsFrom_ahead (hm : 0 ≤ m) (hW : Within L m s)
    (htarget : L.target s c = .maxLimit ∨ L.target s c = .minLimit)
    (hgoal : L.goal s c = L.fixedGoal s pos) (h : L.Ahead s pos)
    (hexit : L.exit s c = .reach ∨ L.exit s c = .land) :
    L.StopsFrom s m (L.nextPos s c I) := by
  obtain ⟨hv, ht, hint⟩ := h
  rw [← goalTime_fixed hgoal (.inr hv)] at ht hint
  rcases hexit with hexit | hexit <;> rw [nextPos, hexit]
  · refine stopsFrom_reach hm hW hexit ?_ hv
    rcases htarget with h | h <;> rw [h] <;> simp
  · exact stopsFrom_land hm hW htarget ht hint

lemma stopsFrom_heedsMax (hm : 0 ≤ m) (hW : Within L m s) (h : L.HeedsMax s c m) :
    L.StopsFrom s m (L.nextPos s c I) := by
  obtain ⟨htarget, h⟩ := h
  have hgoal : L.goal s c = L.fixedGoal s L.max_ := by rw [goal, htarget]
  rcases h with harrives | ⟨hahead, hout, hcrash, hdown⟩
  · exact stopsFrom_arrives hm hW (.inl htarget) hgoal L.min_le_max (le_refl _) harrives
  rcases exit_of_above (L := L) (s := s) (c := c) (by rwa [hgoal]) (by rwa [hgoal]) with
    hexit | hexit | hexit | hexit
  · exact stopsFrom_ahead hm hW (.inl htarget) hgoal hahead (.inl hexit)
  · exact stopsFrom_ahead hm hW (.inl htarget) hgoal hahead (.inr hexit)
  all_goals
    rw [nextPos, hexit]
    exact stopsFrom_down hW hdown

lemma stopsFrom_heedsMin (hm : 0 ≤ m) (hW : Within L m s) (h : L.HeedsMin s c m) :
    L.StopsFrom s m (L.nextPos s c I) := by
  obtain ⟨htarget, h⟩ := h
  have hgoal : L.goal s c = L.fixedGoal s L.min_ := by rw [goal, htarget]
  rcases h with harrives | ⟨hahead, hout, hcrash, hup⟩
  · exact stopsFrom_arrives hm hW (.inr htarget) hgoal (le_refl _) L.min_le_max harrives
  rcases exit_of_below (L := L) (s := s) (c := c) (by rwa [hgoal]) (by rwa [hgoal]) with
    hexit | hexit | hexit | hexit
  · exact stopsFrom_ahead hm hW (.inr htarget) hgoal hahead (.inl hexit)
  · exact stopsFrom_ahead hm hW (.inr htarget) hgoal hahead (.inr hexit)
  all_goals
    rw [nextPos, hexit]
    exact stopsFrom_up hW hup

/-- The input as the goal: it is taken over, or chased with full acceleration. -/
lemma stopsFrom_input (hW : Within L m s) (htarget : L.target s c = .input)
    (h : L.Follows s c m ∨ L.ChasesDown s c m ∨ L.ChasesUp s c m) :
    L.StopsFrom s m (L.nextPos s c I) := by
  have hgoal : L.goal s c = L.inputGoal s c := by rw [goal, htarget]
  have hreach (hexit : L.exit s c = .reach) : L.nextPos s c I = c.in_ ∧ L.ValidNext s c.in_ := by
    have hvalid := (exit_reach hexit).1
    rw [hgoal] at hvalid
    rw [nextPos, hexit, hgoal]
    exact ⟨rfl, hvalid⟩
  rcases h with ⟨hvalid, hstops, ht⟩ | ⟨hin, hup, hdown, hroom⟩ | ⟨hin, hup, hroom⟩
  · have htime : |L.goalTime s c| ≤ L.fperiod := by
      rw [goalTime, hgoal]
      change |if |s.outVel - L.inVel s c| < EPSILON then 0 else
        (s.out - s.inPosOld) / ((s.outVel - L.inVel s c + 0) / 2)| ≤ L.fperiod
      split_ifs with hsmall
      · rw [abs_zero]
        exact L.fperiod_pos.le
      · have hpos : 0 < |s.outVel - L.inVel s c| :=
          lt_of_lt_of_le (by norm_num [EPSILON]) (not_lt.1 hsmall)
        have hle := ht.resolve_left hsmall
        rw [add_zero, abs_div, abs_div, abs_of_pos (two_pos (α := ℚ)),
          div_le_iff₀ (by linarith)]
        linarith
    have hexit : L.exit s c = .reach := by
      rw [exit]
      exact if_pos ⟨by rwa [hgoal], htime⟩
    rwa [(hreach hexit).1]
  · rcases exit_of_down (L := L) (s := s) (c := c) (by rw [hgoal]; exact hup.not_gt)
      (by rwa [hgoal]) with hexit | hexit
    · obtain ⟨hnext, hvalid⟩ := hreach hexit
      rw [hnext]
      exact ⟨stopsBelow_of_le hW hin, stopsAbove_of_roomDown hroom hvalid.2⟩
    · rw [nextPos, hexit]
      exact stopsFrom_down hW hroom
  · rcases exit_of_up (L := L) (s := s) (c := c) (by rwa [hgoal]) with hexit | hexit
    · obtain ⟨hnext, hvalid⟩ := hreach hexit
      rw [hnext]
      exact ⟨stopsBelow_of_roomUp hroom hvalid.1, stopsAbove_of_ge hW hin⟩
    · rw [nextPos, hexit]
      exact stopsFrom_up hW hroom

/-- A gentle call leads to where the output can stop. -/
lemma stopsFrom_next (hm : 0 ≤ m) (hW : Within L m s) (h : L.Gentle s c m) :
    L.StopsFrom s m (L.nextPos s c I) := by
  rcases h with ⟨hup, hdown⟩ | hhalts | hmax | hmin | ⟨htarget, hin⟩
  · have hvalid := nextPos_valid (I := I) (c := c) hW.speed
    exact ⟨stopsBelow_of_roomUp hup hvalid.1, stopsAbove_of_roomDown hdown hvalid.2⟩
  · exact stopsFrom_halts hm hW hhalts
  · exact stopsFrom_heedsMax hm hW hmax
  · exact stopsFrom_heedsMin hm hW hmin
  · exact stopsFrom_input hW htarget hin

/-! ### Runs -/

/-- What the limits ask of a call from `s` to `s'`: its velocity, the change of it, and the
position, up to `m` times the tolerance. -/
structure Respects (L : Limits) (m : ℚ) (s s' : Limit3) : Prop where
  velocity : |s'.outVel| ≤ L.maxv
  acceleration : |s'.outVel - s.outVel| ≤ L.maxa * L.fperiod
  position : L.min_ - m * EPSILON ≤ s'.out ∧ s'.out ≤ L.max_ + m * EPSILON

/-- The velocity and its change are within the limits after every call. -/
lemma limit3_velocity (hv : |s.outVel| ≤ L.maxv) (hload : c.load = false) :
    |(L.limit3 I s c).outVel| ≤ L.maxv ∧
      |(L.limit3 I s c).outVel - s.outVel| ≤ L.maxa * L.fperiod := by
  obtain ⟨h1, h2⟩ := validNext_iff.1 (nextPos_valid (I := I) (c := c) hv)
  have h3 : L.minVel s ≤ (L.limit3 I s c).outVel := by rwa [limit3_eq hload]
  have h4 : (L.limit3 I s c).outVel ≤ L.maxVel s := by rwa [limit3_eq hload]
  have h5 := minVel_ge (L := L) (s := s)
  have h6 := maxVel_le (L := L) (s := s)
  have h7 : -L.maxv ≤ L.minVel s := le_max_right _ _
  have h8 : L.maxVel s ≤ L.maxv := min_le_right _ _
  rw [velStep] at h5 h6
  exact ⟨abs_le.2 ⟨by linarith, by linarith⟩, abs_le.2 ⟨by linarith, by linarith⟩⟩

/-- A gentle call keeps the invariant. -/
theorem limit3_within (hm : 0 ≤ m) (hW : Within L m s) (hload : c.load = false)
    (h : L.Gentle s c m) : Within L m (L.limit3 I s c) := by
  obtain ⟨hbelow, habove⟩ := stopsFrom_next (I := I) hm hW h
  refine ⟨(limit3_velocity hW.speed hload).1, ?_, ?_⟩ <;> rw [limit3_eq hload]
  · exact hbelow
  · exact habove

lemma within_of_rest (hm : 0 ≤ m) (hrest : s.outVel = 0) (hlo : L.min_ ≤ s.out)
    (hhi : s.out ≤ L.max_) : Within L m s := by
  have h0 : L.velTo s s.out = s.outVel := by rw [velTo, sub_self, zero_div, hrest]
  have hslow : |L.velTo s s.out| ≤ L.velStep := by
    rw [h0, hrest, abs_zero]
    exact L.velStep_pos.le
  have hstops : L.StopsFrom s m s.out := stopsFrom_of_slow hm hlo hhi hslow
  rw [StopsFrom, h0] at hstops
  refine ⟨?_, hstops.1, hstops.2⟩
  rw [hrest, abs_zero]
  exact L.maxv_pos.le

/-- The position is within the limits. -/
lemma position_of_within (hW : Within L m s) :
    L.min_ - m * EPSILON ≤ s.out ∧ s.out ≤ L.max_ + m * EPSILON := by
  have h1 := ((stopsBelow_iff L m _ _).1 hW.below).le
  have h2 := ((stopsAbove_iff L m _ _).1 hW.above).le
  exact ⟨by linarith, h1⟩

/-- As long as the calls are gentle, the invariant holds. -/
lemma states_within {calls : ℕ → Limit3Call} (hm : 0 ≤ m) (hW : Within L m s)
    (hload : ∀ k, (calls k).load = false) {n : ℕ}
    (h : ∀ k < n, L.Gentle (L.states I s calls k) (calls k) m) :
    Within L m (L.states I s calls n) := by
  induction n with
  | zero => exact hW
  | succ n ih =>
    exact limit3_within hm (ih fun k hk => h k (by omega)) (hload n) (h n (Nat.lt_succ_self n))

end Limits

open Limits

/-- **The limits of `limit3`.** From rest within the limits, for every sequence of calls: as
long as the calls are gentle, each of them respects the limits. -/
theorem limit3_limits (L : Limits) (I : IntConversion) (m : ℚ) (hm : 0 ≤ m) (s : Limit3)
    (hrest : s.outVel = 0) (hlo : L.min_ ≤ s.out) (hhi : s.out ≤ L.max_)
    (calls : ℕ → Limit3Call) (hload : ∀ k, (calls k).load = false) (n : ℕ)
    (hgentle : ∀ k < n, L.Gentle (L.states I s calls k) (calls k) m) :
    ∀ k < n, L.Respects m (L.states I s calls k) (L.states I s calls (k + 1)) := by
  intro k hk
  have hW (j : ℕ) (hj : j ≤ n) : Within L m (L.states I s calls j) :=
    states_within hm (within_of_rest hm hrest hlo hhi) hload fun i hi => hgentle i (by omega)
  obtain ⟨hv, ha⟩ := limit3_velocity (I := I) (hW k hk.le).speed (hload k)
  exact ⟨hv, ha, position_of_within (hW (k + 1) hk)⟩

/-! ### A run within the limits -/

/-- Limits for a run to the maximum and back. -/
def gentleLimits : Limits where
  min_ := -10
  max_ := 10
  maxv := 2
  maxa := 1
  fperiod := 1
  min_le_max := by norm_num
  maxv_pos := by norm_num
  maxa_pos := by norm_num
  fperiod_pos := by norm_num

/-- The input leads beyond the maximum, back inside, and below the minimum; in the end the
start pin is cleared. -/
def tourCall (k : ℕ) : Limit3Call :=
  ⟨if k < 8 then 100 else if k < 14 then 3 else -20, false, k < 21, 2⟩

/-- The output goes to the maximum, follows the input, and stops at the minimum. -/
theorem limit3_limits_reach : ∃ s : Limit3,
    (∀ k < 23, gentleLimits.Respects 1 (gentleLimits.states .lowest s tourCall k)
      (gentleLimits.states .lowest s tourCall (k + 1))) ∧
    s.out = 0 ∧ (gentleLimits.states .lowest s tourCall 6).out = gentleLimits.max_ ∧
    (gentleLimits.states .lowest s tourCall 13).out = 4 ∧
    (gentleLimits.states .lowest s tourCall 21).out = gentleLimits.min_ :=
  ⟨⟨0, 0, true, 0, 0, 0⟩, limit3_limits gentleLimits .lowest 1 zero_le_one _ rfl (by decide)
    (by decide) tourCall (fun _ => rfl) 23 (by decide +kernel), rfl, by decide +kernel⟩

/-! ### An overshoot -/

/-- Limits with a maximum of 0. -/
def steepLimits (k : ℚ) (hk : 0 < k) : Limits where
  min_ := -1000 * k
  max_ := 0
  maxv := k
  maxa := k
  fperiod := 1
  min_le_max := by linarith
  maxv_pos := hk
  maxa_pos := hk
  fperiod_pos := one_pos

/-- The output at rest at the maximum, while the input is far below. -/
def steepStart (k : ℚ) : Limit3 := ⟨0, 0, true, 0, -101 * k, 0⟩

/-- The input comes near, fast. -/
def steepCall (k : ℚ) : Limit3Call := ⟨-k, false, true, 2⟩

section

variable {I : IntConversion} {k : ℚ}

/-- The maximum can be reached in one period, so the function does not look whether the
output crashes into it, and follows the input. -/
lemma steep_up (hk : 0 < k) (hbig : EPSILON ≤ k) :
    (steepLimits k hk).nextPos (steepStart k) (steepCall k) I = k := by
  have he : 0 < EPSILON := by norm_num [EPSILON]
  have hmin : (steepLimits k hk).minVel (steepStart k) = -k := by
    simp [minVel, vfGivenViAT, steepLimits, steepStart]
  have hmax : (steepLimits k hk).maxVel (steepStart k) = k := by
    simp [maxVel, vfGivenViAT, steepLimits, steepStart]
  have hvel : (steepLimits k hk).inVel (steepStart k) (steepCall k) = 100 * k := by
    simp [inVel, steepLimits, steepStart, steepCall]
    ring
  have hmaxPos : (steepLimits k hk).maxPos (steepStart k) = k := by
    rw [maxPos, hmax]
    simp [steepLimits, steepStart]
  have hminPos : (steepLimits k hk).minPos (steepStart k) = -k := by
    rw [minPos, hmin]
    simp [steepLimits, steepStart]
  have hstop : (steepLimits k hk).stopPosMin (steepStart k) = -k := by
    rw [stopPosMin, stopTimeMin, hmin]
    simp [sGivenViVfT, tGivenViVfA, steepLimits, steepStart, hk.ne']
    ring
  have htime : (steepLimits k hk).inVelTimeMax (steepStart k) (steepCall k) = 98 := by
    have hdiv : (100 * k - k) / k = 99 := by
      field_simp
      norm_num
    rw [inVelTimeMax, hmax, hvel, tGivenViVfA]
    simp only [steepLimits, hdiv]
    norm_num
  have htarget : (steepLimits k hk).target (steepStart k) (steepCall k) = .input := by
    have h1 : ¬ (steepLimits k hk).stopPosMin (steepStart k) <
        (steepLimits k hk).min_ - EPSILON := by
      rw [hstop]
      simp only [steepLimits]
      linarith
    have h2 : (steepLimits k hk).ValidNext (steepStart k) (steepLimits k hk).max_ := by
      rw [ValidNext, hminPos, hmaxPos]
      simp [steepLimits, hk.le]
    have h3 : ¬ (steepCall k).in_ ≥ (steepLimits k hk).max_ := by
      simp [steepCall, steepLimits, hk]
    have h4 : ¬ (steepCall k).in_ ≤ (steepLimits k hk).min_ := by
      simp only [steepCall, steepLimits]
      linarith
    rw [target, if_neg (by simp [steepCall]), if_neg (fun h => h.2 h2),
      if_neg (fun h => h1 h.1), if_neg (fun h => h3 h.1), if_neg (fun h => h4 h.1)]
  have hgoal : (steepLimits k hk).goal (steepStart k) (steepCall k) =
      (steepLimits k hk).inputGoal (steepStart k) (steepCall k) := by
    rw [goal, htarget]
  have hach : (steepLimits k hk).outPosMax (steepStart k) (steepCall k) = 4950 * k := by
    rw [outPosMax, hmaxPos, hmax, hvel, htime, sGivenViVfT]
    ring
  have hpos : (steepLimits k hk).inPosMax (steepStart k) (steepCall k) = 9799 * k := by
    rw [inPosMax, hvel, htime]
    simp only [steepCall]
    ring
  have ht : (steepLimits k hk).goalTime (steepStart k) (steepCall k) = -101 / 50 := by
    have hdiff : (steepStart k).outVel - (steepLimits k hk).inVel (steepStart k) (steepCall k) =
        -(100 * k) := by
      rw [hvel]
      exact zero_sub _
    have hlarge : ¬ |-(100 * k)| < EPSILON := by
      rw [abs_neg, abs_of_pos (by linarith)]
      linarith
    rw [goalTime, hgoal, inputGoal]
    simp only [hdiff, if_neg hlarge]
    simp only [steepStart]
    field_simp
    ring
  have hup : (steepLimits k hk).exit (steepStart k) (steepCall k) = .up := by
    rw [exit, if_neg, if_pos]
    · rw [hgoal]
      change (steepLimits k hk).outPosMax _ _ < (steepLimits k hk).inPosMax _ _ + EPSILON
      rw [hach, hpos]
      linarith
    · rintro ⟨-, h⟩
      rw [ht] at h
      norm_num [steepLimits, abs_of_neg] at h
  rw [nextPos, hup]
  exact hmaxPos

end

/-- Whatever multiple of the tolerance is allowed, one call can exceed it. -/
theorem limit3_limits_overshoot : ¬ ∃ (m : ℚ) (I : IntConversion), ∀ (L : Limits) (s : Limit3)
    (c : Limit3Call), s.outVel = 0 → L.min_ ≤ s.out → s.out ≤ L.max_ → c.load = false →
      L.Respects m s (L.limit3 I s c) := by
  rintro ⟨m, I, hall⟩
  have he : 0 < EPSILON := by norm_num [EPSILON]
  obtain ⟨k, hk⟩ : ∃ k : ℚ, EPSILON + |m * EPSILON| = k := ⟨_, rfl⟩
  have hm := le_abs_self (m * EPSILON)
  have hm0 := abs_nonneg (m * EPSILON)
  have hk0 : 0 < k := by linarith
  have hlo : (steepLimits k hk0).min_ ≤ (steepStart k).out := by
    change -1000 * k ≤ 0
    linarith
  have hcall := hall (steepLimits k hk0) (steepStart k) (steepCall k) rfl hlo (le_refl _) rfl
  have hout : ((steepLimits k hk0).limit3 I (steepStart k) (steepCall k)).out = k := by
    rw [limit3_eq rfl]
    exact steep_up hk0 (by linarith)
  have hle : k ≤ 0 + m * EPSILON := hout ▸ hcall.position.2
  linarith

end MachinekitHal
