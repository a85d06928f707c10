import Mathlib
import MachinekitHal.Lib.Word
import MachinekitHal.Lib.RootBraking

/-!
`jplan.c`: the joint planner.

The numbers are those of an ordered field, with its square root as a parameter.

* `velReq`, `nextVel`: the velocity that the planner asks for, and the one the ramp allows.
* `JplanJoint.updateJoint`: one call for a joint.
* `JplanCmd`, `JplanInst`, `JplanInst.update`: the commands from the ring, and one call for an
  instance.
* `JplanInst.accesses`: the joints, and the elements of the message, that the call uses.
* `Approach`: a joint that has enough way to stop at its command, with the direction of the
  approach; `Approach.step`: every call keeps this.
* `joint_never_overshoots`: limits, no overshoot, and the end of the motion.
-/

namespace MachinekitHal

open Word

/-- `struct joint`. -/
structure JplanJoint (α : Type*) where
  /-- position command -/
  posCmd : α
  maxVel : α
  maxAcc : α
  currPos : α
  currVel : α
  homePos : α
  homeSet : Bool
  /-- non-zero if motion in progress -/
  active : Bool
  /-- if zero, motion stops ASAP -/
  enable : Bool

section Joint

variable {α : Type*} [Field α] [LinearOrder α] (sqrt : α → α)

/-- The request: a velocity that drives `posErr` to zero, but allows for stopping without position
overshoot; and whether this keeps the planner active. -/
def velReq (maxAcc maxDv tinyDp posErr : α) : α × Bool :=
  if tinyDp < posErr then (-maxDv + sqrt (2 * maxAcc * posErr + maxDv * maxDv), true)
  else if posErr < -tinyDp then (maxDv - sqrt (-2 * maxAcc * posErr + maxDv * maxDv), true)
  -- within 'tiny_dp' of desired pos, no need to move
  else (0, false)

/-- The velocity after a call: the limited request, approached at the accel limit. -/
def nextVel (maxVel maxDv req currVel : α) : α :=
  let req := if maxVel < req then maxVel else if req < -maxVel then -maxVel else req
  if currVel + maxDv < req then currVel + maxDv
  else if req < currVel - maxDv then currVel - maxDv
  else req

/-- `update_joint`. -/
def JplanJoint.updateJoint (period : α) (j : JplanJoint α) : JplanJoint α :=
  let currPos := if j.homeSet then j.homePos else j.currPos
  -- max change in velocity per servo period, and a tiny position range, to be treated as zero
  let maxDv := j.maxAcc * period
  let tinyDp := maxDv * period * (1 / 1000)
  let req := if j.enable then velReq sqrt j.maxAcc maxDv tinyDp (j.posCmd - currPos)
    else (0, false)
  let currVel := nextVel j.maxVel maxDv req.1 j.currVel
  { j with currVel
           currPos := currPos + currVel * period
           active := req.2 || decide (currVel ≠ 0) }

/-- The velocity after a call of the enabled planner. -/
noncomputable def plannedVel (maxVel maxAcc period posErr vel : ℝ) : ℝ :=
  nextVel maxVel (maxAcc * period)
    (velReq Real.sqrt maxAcc (maxAcc * period) (maxAcc * period * period * (1 / 1000)) posErr).1 vel

/-- A position range that is treated as zero. -/
noncomputable def JplanJoint.tiny (period : ℝ) (j : JplanJoint ℝ) : ℝ :=
  j.maxAcc * period * period * (1 / 1000)

end Joint

/-! ### Instances -/

/-- `JplanJoint` of the message: the fields that are set. -/
structure JplanCmd (α : Type*) where
  posCmd : Option α
  maxVel : Option α
  maxAcc : Option α
  enable : Option Bool

/-- Applies all set fields to driving pins. -/
def JplanCmd.apply {α : Type*} (c : JplanCmd α) (j : JplanJoint α) : JplanJoint α :=
  { j with enable := c.enable.getD j.enable
           posCmd := c.posCmd.getD j.posCmd
           maxVel := c.maxVel.getD j.maxVel
           maxAcc := c.maxAcc.getD j.maxAcc }

/-- `struct inst_data`, with the memory behind its joints. The records of the command ring are
decoded; one that does not decode is `none`. -/
structure JplanInst (α : Type*) where
  count : ℕ
  attached : Bool
  jcmd : List (Option (List (JplanCmd α)))
  jointsActive : Bool
  commands : ℕ
  joints : ℕ → JplanJoint α

/-- What a call uses: a joint of the instance, or an element of the message. -/
inductive JplanAccess where
  | joint (i : ℕ)
  | message (i : ℕ)
  deriving DecidableEq

namespace JplanInst

variable {α : Type*} (ip : JplanInst α)

/-- The message that the next call decodes: a new command is fetched if all joints are
inactive. -/
def message : Option (List (JplanCmd α)) :=
  if ip.attached ∧ ip.jointsActive = false then ip.jcmd.head?.join else none

/-- Fetches the next command. -/
def fetch : JplanInst α :=
  { ip with
    jcmd := if ip.attached ∧ ip.jointsActive = false then ip.jcmd.tail else ip.jcmd
    commands := if ip.message.isSome then wrap32 (ip.commands + 1) else ip.commands
    joints := fun i => match (ip.message.getD [])[i]? with
      | some c => c.apply (ip.joints i)
      | none => ip.joints i }

/-- `update`, for an instance. -/
def update [Field α] [LinearOrder α] (sqrt : α → α) (period : α) : JplanInst α :=
  let joints := fun i => if i < ip.count then (ip.fetch.joints i).updateJoint sqrt period
    else ip.fetch.joints i
  { ip.fetch with joints, jointsActive := (List.range ip.count).any fun i => (joints i).active }

/-- What a call uses: the joints and the elements of the message up to the number of these, and
then all joints. -/
def accesses : List JplanAccess :=
  (List.range (ip.message.getD []).length).flatMap (fun i => [.joint i, .message i]) ++
    (List.range ip.count).map .joint

/-- The other joints stay. -/
lemma update_joints [Field α] [LinearOrder α] (sqrt : α → α) (period : α) {i : ℕ}
    (hi : JplanAccess.joint i ∉ ip.accesses) : (ip.update sqrt period).joints i = ip.joints i := by
  simp only [accesses, List.mem_append, List.mem_flatMap, List.mem_map, List.mem_range,
    List.mem_cons, not_or, not_exists, not_and, List.not_mem_nil, not_false_eq_true] at hi
  have hmessage : (ip.message.getD [])[i]? = none :=
    List.getElem?_eq_none (not_lt.1 fun hlt => (hi.1 i hlt).1 rfl)
  have hcount : ¬ i < ip.count := fun hlt => hi.2 i hlt rfl
  rw [update]
  dsimp only
  rw [if_neg hcount, fetch]
  dsimp only
  rw [hmessage]

end JplanInst

end MachinekitHal

namespace MachinekitHal

open Braking

/-- The joint after `n` calls. -/
noncomputable def jointAfter (period : ℝ) (j : JplanJoint ℝ) (n : ℕ) : JplanJoint ℝ :=
  (fun j => j.updateJoint Real.sqrt period)^[n] j

section Step

variable {period maxVel maxAcc posErr vel d : ℝ} {j : JplanJoint ℝ} {n k : ℕ}

/-- The planner does not prefer a direction. -/
lemma plannedVel_neg (ha : 0 < maxAcc) (hT : 0 ≤ period) (hv : 0 ≤ maxVel) :
    plannedVel maxVel maxAcc period (-posErr) (-vel) =
      -plannedVel maxVel maxAcc period posErr vel := by
  have hq : 0 ≤ maxAcc * period := mul_nonneg ha.le hT
  have htiny : 0 ≤ maxAcc * period * period * (1 / 1000) := by positivity
  have hreq : (velReq Real.sqrt maxAcc (maxAcc * period) (maxAcc * period * period * (1 / 1000))
      (-posErr)).1 = -(velReq Real.sqrt maxAcc (maxAcc * period)
        (maxAcc * period * period * (1 / 1000)) posErr).1 := by
    simp only [velReq]
    split_ifs <;> first | linarith | (simp only []; ring_nf)
  rw [plannedVel, plannedVel, hreq]
  generalize (velReq Real.sqrt maxAcc (maxAcc * period) (maxAcc * period * period * (1 / 1000))
    posErr).1 = r
  simp only [nextVel]
  split_ifs <;> linarith

/-- The ramp, if the request needs no more braking than is possible. -/
lemma nextVel_eq {maxDv req : ℝ} (hq : 0 ≤ maxDv) (h0 : 0 ≤ vel) (hle : vel ≤ maxVel)
    (hreq0 : 0 ≤ req) (hreq : vel - maxDv ≤ req) :
    nextVel maxVel maxDv req vel = min (min req maxVel) (vel + maxDv) := by
  have hlow : ¬ req < -maxVel := by linarith
  simp only [nextVel, if_neg hlow]
  by_cases hmax : maxVel < req
  · rw [if_pos hmax, min_eq_right hmax.le]
    split_ifs with h1 h2
    · rw [min_eq_right h1.le]
    · linarith
    · rw [min_eq_left (not_lt.1 h1)]
  · rw [if_neg hmax, min_eq_left (not_lt.1 hmax)]
    split_ifs with h1 h2
    · rw [min_eq_right h1.le]
    · linarith
    · rw [min_eq_left (not_lt.1 h1)]

/-- The request on the way to the command: it is no faster than the square root law, and needs no
more braking than is possible. -/
lemma velReq_forward (ha : 0 < maxAcc) (hT : 0 ≤ period) (h : Brakes maxAcc posErr vel) :
    ∃ req active, velReq Real.sqrt maxAcc (maxAcc * period)
      (maxAcc * period * period * (1 / 1000)) posErr = (req, active) ∧
    0 ≤ req ∧ req ≤ root maxAcc period posErr ∧ vel - maxAcc * period ≤ req ∧
    (active = false ↔ posErr ≤ maxAcc * period * period * (1 / 1000)) ∧
    (active = false → req = 0) := by
  have hq : 0 ≤ maxAcc * period := mul_nonneg ha.le hT
  have htiny : 0 ≤ maxAcc * period * period * (1 / 1000) := by positivity
  have he := h.nonneg ha
  rw [velReq]
  by_cases hfar : maxAcc * period * period * (1 / 1000) < posErr
  · rw [if_pos hfar, ← root_eq]
    exact ⟨_, _, rfl, root_nonneg ha hT he, le_refl _, h.root_ge,
      ⟨fun h => absurd h (by decide), fun h => absurd hfar (not_lt.2 h)⟩,
      fun h => absurd h (by decide)⟩
  · have hneg : ¬ posErr < -(maxAcc * period * period * (1 / 1000)) := by linarith
    have hslow : vel ≤ maxAcc * period := by
      have hnear : 2 * maxAcc * posErr ≤ 2 * maxAcc * (maxAcc * period * period * (1 / 1000)) :=
        mul_le_mul_of_nonneg_left (not_lt.1 hfar) (by linarith)
      have hsq : 0 ≤ maxAcc * period * (maxAcc * period) := mul_self_nonneg _
      have hvel : vel * vel ≤ 2 * maxAcc * posErr := brakes_iff.1 h
      have hle : vel ^ 2 ≤ (maxAcc * period) ^ 2 := by nlinarith
      exact le_of_abs_le (abs_le_of_sq_le_sq hle hq)
    rw [if_neg hfar, if_neg hneg]
    exact ⟨_, _, rfl, le_refl _, root_nonneg ha hT he, by linarith,
      ⟨fun _ => not_lt.1 hfar, fun _ => rfl⟩, fun _ => rfl⟩

/-- Towards the command: the velocity within its limits, and there is enough way to stop. -/
lemma plannedVel_forward (ha : 0 < maxAcc) (hT : 0 ≤ period) (h0 : 0 ≤ vel) (hle : vel ≤ maxVel)
    (h : Brakes maxAcc posErr vel) :
    0 ≤ plannedVel maxVel maxAcc period posErr vel ∧
    plannedVel maxVel maxAcc period posErr vel ≤ maxVel ∧
    |plannedVel maxVel maxAcc period posErr vel - vel| ≤ maxAcc * period ∧
    Brakes maxAcc (posErr - plannedVel maxVel maxAcc period posErr vel * period)
      (plannedVel maxVel maxAcc period posErr vel) := by
  have hq : 0 ≤ maxAcc * period := mul_nonneg ha.le hT
  obtain ⟨req, active, hreq, hreq0, hroot, hbrake, -, -⟩ := velReq_forward ha hT h
  have hnext : plannedVel maxVel maxAcc period posErr vel =
      min (min req maxVel) (vel + maxAcc * period) := by
    rw [plannedVel, hreq]
    exact nextVel_eq hq h0 hle hreq0 hbrake
  have hnn : 0 ≤ plannedVel maxVel maxAcc period posErr vel := by
    rw [hnext]
    exact le_min (le_min hreq0 (h0.trans hle)) (by linarith)
  have hler : plannedVel maxVel maxAcc period posErr vel ≤ req := by
    rw [hnext]
    exact (min_le_left _ _).trans (min_le_left _ _)
  refine ⟨hnn, ?_, abs_le.2 ⟨?_, ?_⟩, Brakes.step ha hT (h.nonneg ha) hnn (hler.trans hroot)⟩
  · rw [hnext]
    exact (min_le_left _ _).trans (min_le_right _ _)
  · rw [hnext]
    have hmin : vel - maxAcc * period ≤ min (min req maxVel) (vel + maxAcc * period) :=
      le_min (le_min hbrake (by linarith)) (by linarith)
    linarith
  · have hmin : plannedVel maxVel maxAcc period posErr vel ≤ vel + maxAcc * period := by
      rw [hnext]
      exact min_le_right _ _
    linarith

lemma plannedVel_dir (hd : d = 1 ∨ d = -1) (ha : 0 < maxAcc) (hT : 0 ≤ period) (hv : 0 ≤ maxVel) :
    plannedVel maxVel maxAcc period (d * posErr) (d * vel) =
      d * plannedVel maxVel maxAcc period posErr vel := by
  rcases hd with rfl | rfl
  · rw [one_mul, one_mul, one_mul]
  · rw [neg_one_mul, neg_one_mul, neg_one_mul, plannedVel_neg ha hT hv]

/-! ### Calls -/

/-- The joint is enabled, with limits that make sense. -/
structure JplanJoint.Planned (j : JplanJoint ℝ) : Prop where
  enable : j.enable = true
  homeSet : j.homeSet = false
  maxVel : 0 ≤ j.maxVel
  maxAcc : 0 < j.maxAcc

/-- The velocity after the next call. -/
noncomputable def JplanJoint.planned (period : ℝ) (j : JplanJoint ℝ) : ℝ :=
  plannedVel j.maxVel j.maxAcc period (j.posCmd - j.currPos) j.currVel

/-- A call for a joint that is enabled. -/
lemma updateJoint_planned (h : j.Planned) : j.updateJoint Real.sqrt period =
    { j with currVel := j.planned period
             currPos := j.currPos + j.planned period * period
             active := (velReq Real.sqrt j.maxAcc (j.maxAcc * period) (j.tiny period)
               (j.posCmd - j.currPos)).2 || decide (j.planned period ≠ 0) } := by
  simp only [JplanJoint.updateJoint, h.enable, h.homeSet, if_true, Bool.false_eq_true, if_false]
  rfl

/-- The joint moves in the direction `d`, within the limit, and has enough way to stop. -/
structure Approach (d : ℝ) (j : JplanJoint ℝ) : Prop where
  planned : j.Planned
  forward : 0 ≤ d * j.currVel
  limit : d * j.currVel ≤ j.maxVel
  brakes : Brakes j.maxAcc (d * (j.posCmd - j.currPos)) (d * j.currVel)

/-- Every call keeps this, and changes the velocity by at most what the acceleration allows. -/
lemma Approach.step (h : Approach d j) (hd : d = 1 ∨ d = -1) (hT : 0 ≤ period) :
    Approach d (j.updateJoint Real.sqrt period) ∧
      |(j.updateJoint Real.sqrt period).currVel - j.currVel| ≤ j.maxAcc * period := by
  obtain ⟨h0, hle, hdiff, hbrakes⟩ :=
    plannedVel_forward h.planned.maxAcc hT h.forward h.limit h.brakes
  rw [plannedVel_dir hd h.planned.maxAcc hT h.planned.maxVel] at h0 hle hdiff hbrakes
  rw [updateJoint_planned h.planned]
  refine ⟨⟨⟨h.planned.enable, h.planned.homeSet, h.planned.maxVel, h.planned.maxAcc⟩, h0, hle, ?_⟩,
    ?_⟩
  · have hway : d * (j.posCmd - (j.currPos + j.planned period * period)) =
        d * (j.posCmd - j.currPos) - d * j.planned period * period := by ring
    show Brakes j.maxAcc (d * (j.posCmd - (j.currPos + j.planned period * period)))
      (d * j.planned period)
    rw [hway]
    exact hbrakes
  · rw [← mul_sub, abs_mul] at hdiff
    have habs : |d| = 1 := by rcases hd with rfl | rfl <;> norm_num
    rwa [habs, one_mul] at hdiff

/-- The joint is at its command, and reported inactive. -/
structure JointSettled (period : ℝ) (j : JplanJoint ℝ) : Prop where
  active : j.active = false
  near : |j.posCmd - j.currPos| ≤ j.tiny period
  rest : j.currVel = 0

/-- A call that reports the joint inactive leaves it settled. -/
lemma JointSettled.of_inactive (h : j.Planned)
    (hact : (j.updateJoint Real.sqrt period).active = false) :
    JointSettled period (j.updateJoint Real.sqrt period) := by
  rw [updateJoint_planned h] at hact ⊢
  obtain ⟨hreq, hrest⟩ := Bool.or_eq_false_iff.1 hact
  have h0 : j.planned period = 0 := not_not.1 (of_decide_eq_false hrest)
  refine ⟨hact, ?_, h0⟩
  show |j.posCmd - (j.currPos + j.planned period * period)| ≤ j.tiny period
  rw [h0, zero_mul, add_zero, abs_le]
  rw [velReq] at hreq
  split_ifs at hreq with hup hdown
  exact ⟨not_lt.1 hdown, not_lt.1 hup⟩

lemma JointSettled.step (hs : JointSettled period j) (h : j.Planned) (hT : 0 ≤ period) :
    JointSettled period (j.updateJoint Real.sqrt period) := by
  obtain ⟨hlow, hup⟩ := abs_le.1 hs.near
  have hreq : velReq Real.sqrt j.maxAcc (j.maxAcc * period) (j.tiny period)
      (j.posCmd - j.currPos) = (0, false) := by
    rw [velReq, if_neg (not_lt.2 hup), if_neg (not_lt.2 hlow)]
  have hq : 0 ≤ j.maxAcc * period := mul_nonneg h.maxAcc.le hT
  have h0 : j.planned period = 0 := by
    show nextVel j.maxVel (j.maxAcc * period) (velReq Real.sqrt j.maxAcc (j.maxAcc * period)
      (j.tiny period) (j.posCmd - j.currPos)).1 j.currVel = 0
    rw [hreq, hs.rest, nextVel_eq hq (le_refl 0) h.maxVel (le_refl 0) (by linarith),
      min_eq_left h.maxVel, zero_add, min_eq_left hq]
  refine .of_inactive h ?_
  rw [updateJoint_planned h, hreq, h0]
  simp

/-! ### Runs -/

lemma jointAfter_succ : jointAfter period j (n + 1) =
    (jointAfter period j n).updateJoint Real.sqrt period := Function.iterate_succ_apply' ..

/-- The calls change neither the command nor the limits. -/
lemma jointAfter_constant (n : ℕ) : (jointAfter period j n).posCmd = j.posCmd ∧
    (jointAfter period j n).maxVel = j.maxVel ∧ (jointAfter period j n).maxAcc = j.maxAcc := by
  induction n with
  | zero => exact ⟨rfl, rfl, rfl⟩
  | succ n ih =>
    rw [jointAfter_succ]
    exact ih

lemma Approach.run (h : Approach d j) (hd : d = 1 ∨ d = -1) (hT : 0 ≤ period) (n : ℕ) :
    Approach d (jointAfter period j n) := by
  induction n with
  | zero => exact h
  | succ n ih =>
    rw [jointAfter_succ]
    exact (ih.step hd hT).1

/-- At rest on one side of the command. -/
lemma Approach.rest (h : j.Planned) (hrest : j.currVel = 0)
    (hside : 0 ≤ d * (j.posCmd - j.currPos)) : Approach d j := by
  refine ⟨h, by rw [hrest, mul_zero], by rw [hrest, mul_zero]; exact h.maxVel, ?_⟩
  have ha := h.maxAcc
  rw [brakes_iff, hrest, mul_zero, mul_zero]
  positivity

/-- From rest the joint never goes faster than its limit, changes its velocity by at most what the
acceleration limit allows, and stays on the side of the command that it started from; once it
is reported inactive it stays so, at the command within a thousandth of
`max_acc * period * period`. -/
theorem joint_never_overshoots (j : JplanJoint ℝ) (period : ℝ) (h : j.Planned)
    (hT : 0 ≤ period) (hrest : j.currVel = 0) (n : ℕ) :
    |(jointAfter period j (n + 1)).currVel| ≤ j.maxVel ∧
    |(jointAfter period j (n + 1)).currVel - (jointAfter period j n).currVel| ≤
      j.maxAcc * period ∧
    (j.currPos ≤ j.posCmd → (jointAfter period j (n + 1)).currPos ≤ j.posCmd) ∧
    (j.posCmd ≤ j.currPos → j.posCmd ≤ (jointAfter period j (n + 1)).currPos) ∧
    ((jointAfter period j (n + 1)).active = false → ∀ k, n + 1 ≤ k →
      (jointAfter period j k).active = false ∧
      |j.posCmd - (jointAfter period j k).currPos| ≤ j.maxAcc * period ^ 2 / 1000) := by
  obtain ⟨hcmd, hvel, hacc⟩ := @jointAfter_constant period j (n + 1)
  have hup : j.currPos ≤ j.posCmd → ∀ n, Approach 1 (jointAfter period j n) := fun hside =>
    (Approach.rest h hrest (by linarith)).run (.inl rfl) hT
  have hdown : j.posCmd ≤ j.currPos → ∀ n, Approach (-1) (jointAfter period j n) := fun hside =>
    (Approach.rest h hrest (by linarith)).run (.inr rfl) hT
  obtain ⟨d, hd, hrun⟩ : ∃ d : ℝ, (d = 1 ∨ d = -1) ∧ ∀ n, Approach d (jointAfter period j n) := by
    rcases le_total j.currPos j.posCmd with hside | hside
    · exact ⟨1, .inl rfl, hup hside⟩
    · exact ⟨-1, .inr rfl, hdown hside⟩
  refine ⟨?_, ?_, fun hside => ?_, fun hside => ?_, fun hact k hk => ?_⟩
  · have h0 := (hrun (n + 1)).forward
    have hle := (hrun (n + 1)).limit
    rw [hvel] at hle
    rw [abs_le]
    rcases hd with rfl | rfl <;> constructor <;> linarith
  · have hstep := ((hrun n).step hd hT).2
    rwa [← jointAfter_succ, (jointAfter_constant n).2.2] at hstep
  · have hway := (hup hside (n + 1)).brakes.nonneg (hacc ▸ h.maxAcc)
    rw [hcmd] at hway
    linarith
  · have hway := (hdown hside (n + 1)).brakes.nonneg (hacc ▸ h.maxAcc)
    rw [hcmd] at hway
    linarith
  · have hsettled : JointSettled period (jointAfter period j k) := by
      induction k, hk using Nat.le_induction with
      | base =>
          rw [jointAfter_succ] at hact ⊢
          exact .of_inactive (hrun n).planned hact
      | succ k _ ih =>
          rw [jointAfter_succ]
          exact ih.step (hrun k).planned hT
    refine ⟨hsettled.active, ?_⟩
    have hnear := hsettled.near
    rw [JplanJoint.tiny, (jointAfter_constant k).1, (jointAfter_constant k).2.2] at hnear
    have htiny : j.maxAcc * period * period * (1 / 1000) = j.maxAcc * period ^ 2 / 1000 := by ring
    rwa [htiny] at hnear

/-- A joint that is a whole unit below its command. -/
theorem joint_never_overshoots_unit :
    (jointAfter 1 ⟨1, 1, 1, 0, 0, 0, false, false, true⟩ 8).currPos ≤ 1 :=
  (joint_never_overshoots ⟨1, 1, 1, 0, 0, 0, false, false, true⟩ 1
    ⟨rfl, rfl, zero_le_one, zero_lt_one⟩ zero_le_one rfl 7).2.2.1 zero_le_one

end Step

end MachinekitHal
