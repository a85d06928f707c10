import MachinekitHal.Hostmot2.Stepgen

/-!
The position controller of the hostmot2 step generators, under a change of sign.

* `Instance.mirror`: commands and feedback with the other sign.
* `matchAccel_neg`, `secondsToVelMatch_neg`, `velocityCmd_neg`: what the parts of the controller do.
* `abs_velocityCmd_sub_le`: the acceleration limit.
* `newVel_of_pos`, `newVel_of_neg`: the new velocity if the acceleration is not limited.
* `positionControl_odd_iff`: when the controller is odd.
-/

namespace MachinekitHal.Hm2Stepgen

variable {a v ff m s err T : ℚ} {e : Instance}

/-- Commands and feedback with the other sign. -/
def Instance.mirror (e : Instance) : Instance :=
  { e with
    pin.positionCmd := -e.pin.positionCmd
    pin.positionFb := -e.pin.positionFb
    oldPositionCmd := -e.oldPositionCmd
    pin.velocityCmd := -e.pin.velocityCmd
    pin.velocityFb := -e.pin.velocityFb }

lemma Instance.mirror_mirror (e : Instance) : e.mirror.mirror = e := by
  simp [Instance.mirror]

/-- The feed-forward velocity. -/
def ffVel (T : ℚ) (e : Instance) : ℚ := (e.pin.positionCmd - e.oldPositionCmd) / T

/-- The velocity error. -/
def velError (T : ℚ) (e : Instance) : ℚ := e.pin.velocityFb - ffVel T e

lemma ffVel_mirror (T : ℚ) (e : Instance) : ffVel T e.mirror = -ffVel T e := by
  show (-e.pin.positionCmd - -e.oldPositionCmd) / T = -((e.pin.positionCmd - e.oldPositionCmd) / T)
  ring

lemma velError_mirror (T : ℚ) (e : Instance) : velError T e.mirror = -velError T e := by
  rw [velError, ffVel_mirror, velError]
  show -e.pin.velocityFb - -ffVel T e = _
  ring

/-! ### The parts of the controller -/

/-- A limited acceleration changes sign with the error. -/
lemma matchAccel_neg (ha : a ≠ 0 ∨ err = 0) (T : ℚ) :
    matchAccel a (-err) T = -matchAccel a err T := by
  obtain hpos | rfl | hneg := lt_trichotomy 0 err
  · have ha' : a ≠ 0 := ha.resolve_right hpos.ne'
    rw [matchAccel, matchAccel, if_neg (by linarith), if_pos (by linarith), if_neg ha', if_pos hpos,
      if_neg ha', neg_neg]
  · simp [matchAccel]
  · have ha' : a ≠ 0 := ha.resolve_right hneg.ne
    rw [matchAccel, matchAccel, if_pos (by linarith), if_neg ha', if_neg (by linarith), if_pos hneg,
      if_neg ha']

lemma abs_matchAccel_le (ha : 0 < a) (err T : ℚ) : |matchAccel a err T| ≤ a := by
  rw [matchAccel]
  split_ifs with hpos hzero hneg hzero
  · exact absurd hzero ha.ne'
  · rw [abs_neg, abs_of_pos ha]
  · exact absurd hzero ha.ne'
  · rw [abs_of_pos ha]
  · rw [abs_zero]
    exact ha.le

/-- The time to the match stays. -/
lemma secondsToVelMatch_neg (err m : ℚ) :
    secondsToVelMatch (-err) (-m) = secondsToVelMatch err m := by
  simp only [secondsToVelMatch, neg_eq_zero, neg_div_neg_eq]

lemma limitAccel_neg (haT : 0 ≤ a * T) (v c : ℚ) :
    limitAccel a (-v) T (-c) = -limitAccel a v T c := by
  rw [limitAccel, limitAccel]
  split_ifs <;> linarith

/-- The new velocity changes sign with the velocities, the acceleration and the error. -/
lemma velocityCmd_neg (haT : 0 ≤ a * T) (v ff m s err : ℚ) :
    velocityCmd a (-v) (-ff) (-m) s (-err) T = -velocityCmd a v ff m s err T := by
  have hdp : -err + -2 * -m * T * s * 2 = -(err + -2 * m * T * s * 2) := by ring
  rw [velocityCmd, velocityCmd]
  dsimp only
  rw [hdp, abs_neg, abs_neg]
  split_ifs
  · rw [← limitAccel_neg haT]
    congr 1
    ring
  · ring
  · ring

/-- With a limited acceleration the speed changes by no more than the limit. -/
lemma abs_velocityCmd_sub_le (ha : 0 < a) (hT : 0 < T) (hm : |m| ≤ a) (v ff s err : ℚ) :
    |velocityCmd a v ff m s err T - v| ≤ a * T := by
  have haT : 0 < a * T := mul_pos ha hT
  have hmT : |m * T| ≤ a * T := by
    rw [abs_mul, abs_of_pos hT]
    exact mul_le_mul_of_nonneg_right hm hT.le
  rw [velocityCmd]
  dsimp only
  split_ifs with hmatch hflip
  · rw [limitAccel, if_pos ha]
    split_ifs with habove hbelow
    · rw [add_sub_cancel_left, abs_of_pos haT]
    · rw [sub_sub_cancel_left, abs_neg, abs_of_pos haT]
    · rw [abs_le]
      exact ⟨by linarith, by linarith⟩
  · rwa [add_sub_cancel_left, neg_mul, abs_neg]
  · rwa [add_sub_cancel_left]

/-! ### The controller -/

/-- The new velocity. -/
def newVel (T : ℚ) (e : Instance) : ℚ := (positionControl T e).2

/-- The position error at the time of the match. -/
def errorAtMatch (T s : ℚ) (e : Instance) : ℚ :=
  e.pin.positionFb + (ffVel T e + e.pin.velocityFb) * (1 / 2) * (s + T)
    - (e.pin.positionCmd + ffVel T e * s)

lemma newVel_eq (T : ℚ) (e : Instance) {m s : ℚ}
    (hm : matchAccel e.pin.maxaccel (velError T e) T = m)
    (hs : secondsToVelMatch (velError T e) m = s) :
    newVel T e = velocityCmd e.pin.maxaccel e.pin.velocityFb (ffVel T e) m s
      (errorAtMatch T s e) T := by
  rw [← hs, ← hm]
  rfl

lemma errorAtMatch_mirror (T s : ℚ) (e : Instance) :
    errorAtMatch T s e.mirror = -errorAtMatch T s e := by
  rw [errorAtMatch, errorAtMatch, ffVel_mirror]
  show -e.pin.positionFb + (-ffVel T e + -e.pin.velocityFb) * (1 / 2) * (s + T)
    - (-e.pin.positionCmd + -ffVel T e * s) = _
  ring

/-- The controller is odd wherever the acceleration to the match is. -/
lemma newVel_mirror (hT : 0 < T) (ha : 0 ≤ e.pin.maxaccel)
    (hodd : e.pin.maxaccel ≠ 0 ∨ velError T e = 0) : newVel T e.mirror = -newVel T e := by
  have haT : 0 ≤ e.pin.maxaccel * T := mul_nonneg ha hT.le
  have hm : matchAccel e.mirror.pin.maxaccel (velError T e.mirror) T
      = -matchAccel e.pin.maxaccel (velError T e) T := by
    rw [velError_mirror]
    exact matchAccel_neg hodd T
  have hs : secondsToVelMatch (velError T e.mirror) (-matchAccel e.pin.maxaccel (velError T e) T)
      = secondsToVelMatch (velError T e) (matchAccel e.pin.maxaccel (velError T e) T) := by
    rw [velError_mirror, secondsToVelMatch_neg]
  rw [newVel_eq T e rfl rfl, newVel_eq T e.mirror hm hs, errorAtMatch_mirror, ffVel_mirror]
  exact velocityCmd_neg haT _ _ _ _ _

/-- How far the feedback is from the old command. -/
def posError (e : Instance) : ℚ := e.pin.positionFb - e.oldPositionCmd

lemma posError_mirror (e : Instance) : posError e.mirror = -posError e := by
  show -e.pin.positionFb - -e.oldPositionCmd = -(e.pin.positionFb - e.oldPositionCmd)
  ring

lemma ffVel_mul (hT : 0 < T) (e : Instance) :
    ffVel T e * T = e.pin.positionCmd - e.oldPositionCmd := div_mul_cancel₀ _ hT.ne'

/-- Without a limit, a speed that is too high takes one period to match. -/
lemma newVel_of_pos (hT : 0 < T) (ha : e.pin.maxaccel = 0) (herr : 0 < velError T e) :
    newVel T e = if |posError e + 5 * velError T e * T| < |posError e + velError T e * T|
      then ffVel T e + 2 * velError T e else ffVel T e := by
  have hm : matchAccel e.pin.maxaccel (velError T e) T = -velError T e / T := by
    rw [matchAccel, if_pos herr, if_pos ha]
  have hne : -velError T e ≠ 0 := by linarith
  have hs : secondsToVelMatch (velError T e) (-velError T e / T) = T := by
    rw [secondsToVelMatch, if_neg (div_ne_zero hne hT.ne'), div_div_cancel₀ hne]
  have hmatch : errorAtMatch T T e = posError e + velError T e * T := by
    have hff := ffVel_mul hT e
    rw [errorAtMatch, posError, velError]
    linear_combination hff
  have hvel : -velError T e / T * T = -velError T e := div_mul_cancel₀ _ hT.ne'
  have hdp : posError e + velError T e * T + -2 * (-velError T e / T) * T * T * 2
      = posError e + 5 * velError T e * T := by
    linear_combination (-4 * T) * hvel
  rw [newVel_eq T e hm hs, velocityCmd, if_neg (lt_irrefl T), hmatch]
  dsimp only
  rw [hdp]
  split_ifs
  · rw [neg_mul, hvel, velError]
    ring
  · rw [hvel, velError]
    ring

/-- A speed that is too low takes a negative time: `match_accel` has the wrong sign. -/
lemma newVel_of_neg (hT : 0 < T) (ha : e.pin.maxaccel = 0) (herr : velError T e < 0) :
    newVel T e = ffVel T e - 1 / 2 * posError e / T := by
  have hm : matchAccel e.pin.maxaccel (velError T e) T = velError T e / T := by
    rw [matchAccel, if_neg (not_lt.2 herr.le), if_pos herr, if_pos ha]
  have hs : secondsToVelMatch (velError T e) (velError T e / T) = -T := by
    rw [secondsToVelMatch, if_neg (div_ne_zero herr.ne hT.ne'), neg_div, div_div_cancel₀ herr.ne]
  have hmatch : errorAtMatch T (-T) e = posError e := by
    have hff := ffVel_mul hT e
    rw [errorAtMatch, posError]
    linear_combination hff
  rw [newVel_eq T e hm hs, velocityCmd, if_pos (by linarith), hmatch, limitAccel,
    if_neg (by rw [ha]; exact lt_irrefl 0)]

/-- Without a limit the two signs agree only by chance. -/
lemma newVel_mirror_of_pos (hT : 0 < T) (ha : e.pin.maxaccel = 0) (herr : 0 < velError T e) :
    newVel T e.mirror = -newVel T e ↔
      posError e = 0 ∨ posError e = -(4 * velError T e * T) := by
  have herr' : velError T e.mirror < 0 := by
    rw [velError_mirror]
    linarith
  have hx : 0 < velError T e * T := mul_pos herr hT
  have hhalf : 1 / 2 * -posError e / T = -(posError e / (2 * T)) := by
    field_simp
  rw [@newVel_of_neg T e.mirror hT ha herr', newVel_of_pos hT ha herr, ffVel_mirror,
    posError_mirror, hhalf]
  split_ifs with hflip
  · have hD : posError e < 0 := by
      by_contra hD
      rw [abs_of_pos (by nlinarith), abs_of_pos (by nlinarith)] at hflip
      nlinarith
    have hiff : -ffVel T e - -(posError e / (2 * T)) = -(ffVel T e + 2 * velError T e) ↔
        posError e / (2 * T) = -(2 * velError T e) := by
      constructor <;> intro h <;> linarith
    rw [hiff, div_eq_iff (by linarith)]
    constructor
    · intro h
      exact .inr (by linarith)
    · rintro (h | h) <;> linarith
  · have hiff : -ffVel T e - -(posError e / (2 * T)) = -ffVel T e ↔ posError e / (2 * T) = 0 := by
      constructor <;> intro h <;> linarith
    rw [hiff, div_eq_zero_iff]
    constructor
    · rintro (h | h)
      · exact .inl h
      · linarith
    · rintro (h | h)
      · exact .inl h
      · refine absurd ?_ hflip
        rw [h, abs_of_pos (by linarith), abs_of_neg (by linarith)]
        linarith

/-- For a speed that is too low, the mirror image has one that is too high. -/
lemma newVel_mirror_of_neg (hT : 0 < T) (ha : e.pin.maxaccel = 0) (herr : velError T e < 0) :
    newVel T e.mirror = -newVel T e ↔
      posError e = 0 ∨ posError e = -(4 * velError T e * T) := by
  have herr' : 0 < velError T e.mirror := by
    rw [velError_mirror]
    linarith
  have hiff := @newVel_mirror_of_pos T e.mirror hT ha herr'
  rw [Instance.mirror_mirror, posError_mirror, velError_mirror] at hiff
  constructor
  · intro hodd
    rcases hiff.1 (by rw [hodd, neg_neg]) with hzero | hfour
    · exact .inl (by linarith)
    · exact .inr (by linarith)
  · intro hpos
    have hodd := hiff.2 (hpos.imp (fun h => by linarith) (fun h => by linarith))
    rw [hodd, neg_neg]

/-- The acceleration is within its limit. -/
def WithinAccel (T : ℚ) (e : Instance) : Prop :=
  0 < e.pin.maxaccel →
    |(positionControl T e).2 - e.pin.velocityFb| ≤ e.pin.maxaccel * T

lemma withinAccel (hT : 0 < T) (e : Instance) : WithinAccel T e := by
  intro ha
  exact abs_velocityCmd_sub_le ha hT (abs_matchAccel_le ha _ T) _ _ _ _

/-- **The controller is odd, and within the acceleration limit, if there is such a limit, if the
velocity is right, or if the feedback is in one of two places.** -/
theorem positionControl_odd_iff (hT : 0 < T) (ha : 0 ≤ e.pin.maxaccel) :
    ((positionControl T e.mirror).2 = -(positionControl T e).2 ∧ WithinAccel T e) ↔
      e.pin.maxaccel ≠ 0 ∨ e.pin.velocityFb = ffVel T e ∨
        e.pin.positionFb = e.oldPositionCmd ∨
        e.pin.positionFb = e.oldPositionCmd + 4 * (ffVel T e - e.pin.velocityFb) * T := by
  rw [and_iff_left (withinAccel hT e)]
  by_cases hacc : e.pin.maxaccel = 0
  · have hplaces : (posError e = 0 ∨ posError e = -(4 * velError T e * T)) ↔
        (e.pin.positionFb = e.oldPositionCmd ∨
          e.pin.positionFb = e.oldPositionCmd + 4 * (ffVel T e - e.pin.velocityFb) * T) := by
      rw [posError, velError, sub_eq_zero, sub_eq_iff_eq_add]
      refine or_congr_right ?_
      constructor <;> intro h <;> linarith
    rw [or_iff_right (not_not.2 hacc), ← hplaces]
    obtain hpos | hzero | hneg := lt_trichotomy 0 (velError T e)
    · rw [or_iff_right fun h => hpos.ne' (sub_eq_zero.2 h)]
      exact newVel_mirror_of_pos hT hacc hpos
    · exact iff_of_true (newVel_mirror hT ha (.inr hzero.symm)) (.inl (sub_eq_zero.1 hzero.symm))
    · rw [or_iff_right fun h => hneg.ne (sub_eq_zero.2 h)]
      exact newVel_mirror_of_neg hT hacc hneg
  · exact iff_of_true (newVel_mirror hT ha (.inl hacc)) (.inl hacc)

/-- A step generator at 1 with a speed of 10, a period after the old command. -/
def moving (maxaccel : ℚ) : Instance :=
  { quiet with
    pin.positionCmd := 1
    pin.positionFb := 1
    pin.velocityFb := 10
    pin.maxaccel := maxaccel }

/-- A command with limited acceleration. -/
theorem positionControl_odd_limited :
    (positionControl (1 / 1000) (moving 100).mirror).2
      = -(positionControl (1 / 1000) (moving 100)).2 ∧ WithinAccel (1 / 1000) (moving 100) :=
  (@positionControl_odd_iff (1 / 1000) (moving 100) (by norm_num) (by decide)).2
    (.inl (by decide))

/-- Without a limit the sign of a speed that is too low is wrong. -/
theorem positionControl_not_odd :
    ¬ ∀ (T : ℚ) (e : Instance), 0 < T → 0 ≤ e.pin.maxaccel →
      (positionControl T e.mirror).2 = -(positionControl T e).2 ∧ WithinAccel T e := by
  intro hall
  have hodd := (hall (1 / 1000) (moving 0) (by norm_num) (by decide)).1
  exact absurd hodd (by decide +kernel)

end MachinekitHal.Hm2Stepgen
