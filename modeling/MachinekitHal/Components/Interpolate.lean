import Mathlib.Data.Rat.Floor
import MachinekitHal.Lib.Word
import Mathlib.Algebra.Polynomial.Derivative

/-!
`interpolate.c`: the interpolator for trajectories.

Numbers are rational.

* `InterpJoint`, `TrajPoint`, `Interp`: the data of a joint, a message, and an instance.
* `InterpJoint.motion`: position, velocity and acceleration at some progress;
  `InterpJoint.segment`: the coefficients of a segment.
* `Interp.startSegment`, `Interp.stop`, `Interp.update`: one call for an instance.
* `Interp.accesses`: the joints, the elements of the message and the powers that it uses.
* `trajPoly`: the position of a joint as a polynomial in the progress; `motion_eq`: what
  `interpolate_joint` computes is its value and the values of its derivatives.
* `segment_start`, `segment_end`: a segment meets its end conditions.
* `Interp.rest`: after the last segment a joint stays at its end position.
* `interpolator_segments`: all of this for the calls of `update`.
-/

namespace MachinekitHal

open Word

/-- `powers[0] = 1.0`, and the loop for the others. -/
def generatePowers (n : ℤ) (x : ℚ) (powers : ℕ → ℚ) : ℕ → ℚ :=
  (List.range n.toNat).foldl (fun p i => Function.update p (i + 1) (p i * x))
    (Function.update powers 0 1)

/-! ### Joints -/

/-- `struct joint`. -/
structure InterpJoint where
  /-- current segment's end -/
  endPos : ℚ
  endVel : ℚ
  endAcc : ℚ
  currPos : ℚ
  currVel : ℚ
  currAcc : ℚ
  trajBusy : Bool
  /-- of current segment -/
  coeff : ℕ → ℚ

/-- Position, velocity and acceleration. -/
structure InterpMotion where
  pos : ℚ
  vel : ℚ
  acc : ℚ
  deriving DecidableEq

/-- The coefficients of a point that does not move. -/
def constantCoeff (pos : ℚ) : ℕ → ℚ := fun k => if k = 0 then pos else 0

namespace InterpJoint

variable (j : InterpJoint) (degree : ℕ)

/-- What `interpolate_joint` computes; the cases of the degree fall through. -/
def motion (pnow : ℕ → ℚ) : InterpMotion :=
  let m : InterpMotion := ⟨0, 0, 0⟩
  let m := if degree = 5 then
      { pos := m.pos + pnow 4 * j.coeff 4 + pnow 5 * j.coeff 5
        vel := m.vel + (4 * pnow 3 * j.coeff 4 + 5 * pnow 4 * j.coeff 5)
        acc := m.acc + (12 * pnow 2 * j.coeff 4 + 20 * pnow 3 * j.coeff 5) }
    else m
  let m := if degree = 5 ∨ degree = 3 then
      { pos := m.pos + pnow 2 * j.coeff 2 + pnow 3 * j.coeff 3
        vel := m.vel + (2 * pnow 1 * j.coeff 2 + 3 * pnow 2 * j.coeff 3)
        acc := m.acc + (2 * pnow 0 * j.coeff 2 + 6 * pnow 1 * j.coeff 3) }
    else m
  if degree = 5 ∨ degree = 3 ∨ degree = 1 then
    { m with pos := m.pos + pnow 0 * j.coeff 0 + pnow 1 * j.coeff 1
             vel := m.vel + pnow 0 * j.coeff 1 }
  else m

/-- `interpolate_joint`. -/
def interpolate (pnow : ℕ → ℚ) : InterpJoint :=
  { j with currPos := (j.motion degree pnow).pos
           currVel := (j.motion degree pnow).vel
           currAcc := (j.motion degree pnow).acc }

/-- The coefficients of a segment, from the current position to another one. -/
def segmentCoeff (powers : ℕ → ℚ) (duration pos2 vel2 acc2 : ℚ) : ℕ → ℚ :=
  let pos1 := j.currPos
  let vel1 := j.currVel
  let acc1 := j.currAcc
  match degree with
  | 1 => fun
    | 0 => pos1
    | 1 => (pos2 - pos1) / duration
    | _ => 0
  | 3 => fun
    | 0 => pos1
    | 1 => vel1
    | 2 => (-3 * pos1 + 3 * pos2 - 2 * vel1 * powers 1 - vel2 * powers 1) / powers 2
    | 3 => (2 * pos1 - 2 * pos2 + vel1 * powers 1 + vel2 * powers 1) / powers 3
    | _ => 0
  | 5 => fun
    | 0 => pos1
    | 1 => vel1
    | 2 => 0.5 * acc1
    | 3 => (-20 * pos1 + 20 * pos2 - 3 * acc1 * powers 2 + acc2 * powers 2 -
        12 * vel1 * powers 1 - 8 * vel2 * powers 1) / (2 * powers 3)
    | 4 => (30 * pos1 - 30 * pos2 + 3 * acc1 * powers 2 - 2 * acc2 * powers 2 +
        16 * vel1 * powers 1 + 14 * vel2 * powers 1) / (2 * powers 4)
    | 5 => (-12 * pos1 + 12 * pos2 - acc1 * powers 2 + acc2 * powers 2 -
        6 * vel1 * powers 1 - 6 * vel2 * powers 1) / (2 * powers 5)
    | _ => 0
  | _ => j.coeff

/-- A joint starts a segment. -/
def segment (powers : ℕ → ℚ) (duration pos2 vel2 acc2 : ℚ) : InterpJoint :=
  { j with trajBusy := true
           endPos := pos2
           endVel := vel2
           endAcc := acc2
           coeff := j.segmentCoeff degree powers duration pos2 vel2 acc2 }

/-- A joint jumps to the first point of a trajectory. -/
def jump (pos vel acc : ℚ) : InterpJoint :=
  { trajBusy := true
    endPos := pos
    endVel := vel
    endAcc := acc
    currPos := pos
    currVel := vel
    currAcc := acc
    coeff := constantCoeff pos }

/-- A joint stays at the end of its last segment. -/
def stop : InterpJoint := { j with trajBusy := false, coeff := constantCoeff j.endPos }

end InterpJoint

/-! ### Instances -/

/-- `JointTrajectoryPoint`: the elements of the message that are present. The arrays hold 10
elements; those that are not present are 0. -/
structure TrajPoint where
  positions : List ℚ
  velocities : List ℚ
  accelerations : List ℚ
  timeFromStart : ℚ

/-- `struct inst_data`, with the memory behind its joints and its powers. The records of the ring
are decoded; one that does not decode is `none`. -/
structure Interp where
  count : ℕ
  traj : List (Option TrajPoint)
  /-- degree of interpolation, 1:linear 3:cubic 5:quintic -/
  degree : ℕ
  /-- current segment duration -/
  duration : ℚ
  /-- time spent on current segment so far -/
  progress : ℚ
  /-- current segment starting time -/
  timeFromStart : ℚ
  powers : ℕ → ℚ
  pnow : ℕ → ℚ
  joints : ℕ → InterpJoint

/-- What a call uses: a joint of the instance, an element of an array of the message, or one of
the powers. -/
inductive InterpAccess where
  | joint (i : ℕ)
  | position (i : ℕ)
  | velocity (i : ℕ)
  | acceleration (i : ℕ)
  | power (i : ℕ)
  deriving DecidableEq

namespace Interp

variable (ip : Interp) (period : ℚ)

/-- A segment is completed if less than the invocation time is left of it. -/
def segmentCompleted : Prop := ip.duration - ip.progress - period < 0
  deriving Decidable

/-- The degree is passed as an `int`. -/
def powerCount : ℤ := wrapInt ip.degree

/-- A new segment; the very first point is not a segment, but has the start positions. -/
def startSegment (rx : TrajPoint) : Interp :=
  let duration := rx.timeFromStart - ip.timeFromStart
  if duration = 0 then
    { ip with duration
              joints := fun i => if i < ip.count then
                  .jump (rx.positions.getD i 0) (rx.velocities.getD i 0) (rx.accelerations.getD i 0)
                else ip.joints i }
  else
    let powers := generatePowers ip.powerCount duration ip.powers
    { ip with duration
              powers
              timeFromStart := rx.timeFromStart
              progress := 0
              joints := fun i => if i < rx.positions.length then
                  (ip.joints i).segment ip.degree powers duration (rx.positions.getD i 0)
                    (rx.velocities.getD i 0) (rx.accelerations.getD i 0)
                else ip.joints i }

/-- Segment completed and no new point in the ring. -/
def stop : Interp :=
  { ip with joints := fun i => if i < ip.count then (ip.joints i).stop else ip.joints i }

/-- The start of a call: the next point, if the segment is completed. -/
def next : Interp :=
  if ip.segmentCompleted period then
    match ip.traj with
    | some rx :: rest => { ip.startSegment rx with traj := rest }
    | none :: rest => { ip with traj := rest }
    | [] => ip.stop
  else ip

/-- Interpolates all joints at a progress. -/
def interpolate (progress : ℚ) : Interp :=
  let pnow := generatePowers ip.powerCount progress ip.pnow
  { ip with progress
            pnow
            joints := fun i => if i < ip.count then (ip.joints i).interpolate ip.degree pnow
              else ip.joints i }

/-- `update`, for an instance. -/
def update : Interp := (ip.next period).interpolate ((ip.next period).progress + period)

/-! ### Accesses -/

/-- The loop of `generatePowers`. -/
def powerAccesses : List InterpAccess := (List.range (ip.powerCount.toNat + 1)).map .power

/-- The powers that the cases of a degree have, for the coefficients and the interpolation. -/
def degreePowers (degree : ℕ) : List ℕ :=
  if degree = 5 then [0, 1, 2, 3, 4, 5]
  else if degree = 3 then [0, 1, 2, 3]
  else if degree = 1 then [0, 1]
  else []

/-- A joint and its elements of the message. -/
def elementAccesses (i : ℕ) : List InterpAccess :=
  [.joint i, .position i, .velocity i, .acceleration i]

/-- What a call does at the start with the point that it reads. -/
def nextAccesses : List InterpAccess :=
  match ip.traj with
  | some rx :: _ =>
    if rx.timeFromStart - ip.timeFromStart = 0 then (List.range ip.count).flatMap elementAccesses
    else ip.powerAccesses ++ (List.range rx.positions.length).flatMap fun i =>
      elementAccesses i ++ (degreePowers ip.degree).map .power
  | none :: _ => []
  | [] => (List.range ip.count).map .joint

/-- What a call uses. -/
def accesses : List InterpAccess :=
  (if ip.segmentCompleted period then ip.nextAccesses else []) ++ ip.powerAccesses ++
    (List.range ip.count).flatMap fun i => .joint i :: (degreePowers ip.degree).map .power

/-- The number of joints stays. -/
lemma next_count : (ip.next period).count = ip.count := by
  rw [next]
  split_ifs
  · split
    · dsimp only
      rw [startSegment]
      dsimp only
      split_ifs <;> rfl
    · rfl
    · rfl
  · rfl

/-- The other joints stay. -/
lemma update_joints {i : ℕ} (hi : InterpAccess.joint i ∉ ip.accesses period) :
    (ip.update period).joints i = ip.joints i := by
  simp only [accesses, List.mem_append, not_or, List.mem_flatMap, List.mem_range, List.mem_cons,
    not_exists, not_and] at hi
  obtain ⟨⟨hnext, -⟩, hlast⟩ := hi
  have hcount : ¬ i < ip.count := fun hlt => (hlast i hlt).1 rfl
  rw [update, interpolate]
  dsimp only
  rw [next_count, if_neg hcount, next]
  split_ifs with hdone
  · rw [if_pos hdone] at hnext
    rw [nextAccesses] at hnext
    split
    · next rx rest htraj =>
      rw [htraj] at hnext
      dsimp only at hnext ⊢
      rw [startSegment]
      dsimp only
      split_ifs at hnext ⊢ with hzero
      · exact if_neg hcount
      · refine if_neg fun hlt => hnext ?_
        simp [elementAccesses, hlt]
    · rfl
    · exact if_neg hcount
  · rfl

end Interp

end MachinekitHal

namespace MachinekitHal

open Polynomial

variable {n : ℤ} {x : ℚ} {powers : ℕ → ℚ} {k degree : ℕ} {j : InterpJoint}

/-- The degrees of the interpolator. -/
def InterpDegree (degree : ℕ) : Prop := degree = 1 ∨ degree = 3 ∨ degree = 5

/-- The powers up to the given one. -/
lemma generatePowers_apply (h : (k : ℤ) ≤ n) : generatePowers n x powers k = x ^ k := by
  obtain ⟨m, rfl⟩ := Int.eq_ofNat_of_zero_le (le_trans (Int.natCast_nonneg k) h)
  have hk : k ≤ m := by exact_mod_cast h
  rw [generatePowers, Int.toNat_natCast]
  clear h
  induction m generalizing k with
  | zero =>
    obtain rfl : k = 0 := Nat.le_zero.1 hk
    simp
  | succ m ih =>
    rw [List.range_succ, List.foldl_append, List.foldl_cons, List.foldl_nil]
    rcases Nat.lt_or_ge k (m + 1) with hlt | hge
    · rw [Function.update_of_ne (by omega)]
      exact ih (by omega)
    · obtain rfl : k = m + 1 := by omega
      rw [Function.update_self, ih (le_refl m), pow_succ]

/-- The position of a joint, as a polynomial in the progress. -/
noncomputable def trajPoly (degree : ℕ) (j : InterpJoint) : ℚ[X] :=
  ∑ k ∈ Finset.range (degree + 1), C (j.coeff k) * X ^ k

/-- The motion of a joint at a progress. -/
def InterpJoint.motionAt (degree : ℕ) (j : InterpJoint) (x : ℚ) : InterpMotion :=
  j.motion degree fun k => x ^ k

/-- Powers beyond the degree do not matter. -/
lemma motion_congr {p q : ℕ → ℚ} (hd : InterpDegree degree) (h : ∀ k ≤ degree, p k = q k) :
    j.motion degree p = j.motion degree q := by
  rcases hd with rfl | rfl | rfl <;> simp [InterpJoint.motion, h]

lemma powerCount_eq (hd : InterpDegree degree) : Word.wrapInt degree = degree := by
  rcases hd with rfl | rfl | rfl <;> decide

lemma motion_generatePowers (hd : InterpDegree degree) :
    j.motion degree (generatePowers (Word.wrapInt degree) x powers) = j.motionAt degree x := by
  rw [powerCount_eq hd]
  exact motion_congr hd fun k hk => generatePowers_apply (by exact_mod_cast hk)

/-- Velocity and acceleration are the derivatives of the position. -/
lemma motionAt_eq (hd : InterpDegree degree) : j.motionAt degree x =
    ⟨(trajPoly degree j).eval x, (trajPoly degree j).derivative.eval x,
      (trajPoly degree j).derivative.derivative.eval x⟩ := by
  rcases hd with rfl | rfl | rfl
  · simp [InterpJoint.motionAt, InterpJoint.motion, trajPoly, Finset.sum_range_succ]
    ring
  · simp [InterpJoint.motionAt, InterpJoint.motion, trajPoly, Finset.sum_range_succ]
    refine ⟨by ring, by ring, by ring⟩
  · simp [InterpJoint.motionAt, InterpJoint.motion, trajPoly, Finset.sum_range_succ]
    refine ⟨by ring, by ring, by ring⟩

/-! ### End conditions -/

variable {T pos2 vel2 acc2 : ℚ}

/-- A segment meets the conditions of its degree at the start. -/
lemma segment_start (hd : InterpDegree degree) :
    ((j.segment degree powers T pos2 vel2 acc2).motionAt degree 0).pos = j.currPos ∧
    (degree ≠ 1 →
      ((j.segment degree powers T pos2 vel2 acc2).motionAt degree 0).vel = j.currVel) ∧
    (degree = 5 →
      ((j.segment degree powers T pos2 vel2 acc2).motionAt degree 0).acc = j.currAcc) := by
  rcases hd with rfl | rfl | rfl <;>
    simp [InterpJoint.motionAt, InterpJoint.motion, InterpJoint.segment, InterpJoint.segmentCoeff]
  ring

/-- A segment meets the conditions of its degree at the end. -/
lemma segment_end (hd : InterpDegree degree) (hT : T ≠ 0) (hp : ∀ k ≤ degree, powers k = T ^ k) :
    ((j.segment degree powers T pos2 vel2 acc2).motionAt degree T).pos = pos2 ∧
    (degree ≠ 1 → ((j.segment degree powers T pos2 vel2 acc2).motionAt degree T).vel = vel2) ∧
    (degree = 5 → ((j.segment degree powers T pos2 vel2 acc2).motionAt degree T).acc = acc2) := by
  rcases hd with rfl | rfl | rfl
  · refine ⟨?_, fun h => absurd rfl h, fun h => absurd h (by decide)⟩
    simp [InterpJoint.motionAt, InterpJoint.motion, InterpJoint.segment, InterpJoint.segmentCoeff]
    field_simp
    ring
  · refine ⟨?_, fun _ => ?_, fun h => absurd h (by decide)⟩ <;>
      simp [InterpJoint.motionAt, InterpJoint.motion, InterpJoint.segment,
        InterpJoint.segmentCoeff, hp] <;> field_simp <;> ring
  · refine ⟨?_, fun _ => ?_, fun _ => ?_⟩ <;>
      simp [InterpJoint.motionAt, InterpJoint.motion, InterpJoint.segment,
        InterpJoint.segmentCoeff, hp] <;> field_simp <;> ring

/-! ### Calls -/

namespace Interp

variable {ip : Interp} {period : ℚ} {rx : TrajPoint} {rest : List (Option TrajPoint)} {i : ℕ}

/-- The outputs of a joint after a call. -/
lemma update_motion (hd : InterpDegree (ip.next period).degree) (hi : i < (ip.next period).count) :
    let m := ((ip.next period).joints i).motionAt (ip.next period).degree
      (ip.update period).progress
    ((ip.update period).joints i).currPos = m.pos ∧
    ((ip.update period).joints i).currVel = m.vel ∧
    ((ip.update period).joints i).currAcc = m.acc := by
  have hjoint : (ip.update period).joints i = ((ip.next period).joints i).interpolate
      (ip.next period).degree (generatePowers (ip.next period).powerCount
        ((ip.next period).progress + period) (ip.next period).pnow) := if_pos hi
  rw [hjoint, InterpJoint.interpolate, powerCount, motion_generatePowers hd]
  exact ⟨rfl, rfl, rfl⟩

/-- No call changes the degree and the number of joints. -/
lemma next_degree : (ip.next period).degree = ip.degree ∧ (ip.next period).count = ip.count := by
  rw [next]
  split_ifs
  · split
    · rw [startSegment]
      split_ifs <;> exact ⟨rfl, rfl⟩
    · exact ⟨rfl, rfl⟩
    · exact ⟨rfl, rfl⟩
  · exact ⟨rfl, rfl⟩

lemma next_joint (hc : ip.segmentCompleted period) (htraj : ip.traj = some rx :: rest)
    (hT : rx.timeFromStart - ip.timeFromStart ≠ 0) (hi : i < rx.positions.length) :
    (ip.next period).joints i = (ip.joints i).segment ip.degree
      (generatePowers ip.powerCount (rx.timeFromStart - ip.timeFromStart) ip.powers)
      (rx.timeFromStart - ip.timeFromStart) (rx.positions.getD i 0) (rx.velocities.getD i 0)
      (rx.accelerations.getD i 0) := by
  rw [next, if_pos hc, htraj]
  simp only [startSegment, if_neg hT, if_pos hi]

/-- A call that finds no new point. -/
lemma update_empty (htraj : ip.traj = []) :
    (ip.update period).traj = [] ∧ (ip.update period).duration = ip.duration ∧
    (ip.update period).progress = ip.progress + period ∧
    (ip.update period).degree = ip.degree ∧ (ip.update period).count = ip.count ∧
    ((ip.update period).joints i).endPos = (ip.joints i).endPos := by
  by_cases hc : ip.segmentCompleted period
  · have hnext : ip.next period = ip.stop := by rw [next, if_pos hc, htraj]
    rw [update, hnext]
    refine ⟨htraj, rfl, rfl, rfl, rfl, ?_⟩
    simp only [interpolate, stop]
    split_ifs <;> rfl
  · have hnext : ip.next period = ip := by rw [next, if_neg hc]
    rw [update, hnext]
    refine ⟨htraj, rfl, rfl, rfl, rfl, ?_⟩
    simp only [interpolate]
    split_ifs <;> rfl

/-- The state after `n` calls that find no new point. -/
lemma iterate_empty (htraj : ip.traj = []) (i n : ℕ) :
    let t := (fun s : Interp => s.update period)^[n] ip
    t.traj = [] ∧ t.duration = ip.duration ∧ t.progress = ip.progress + n * period ∧
    t.degree = ip.degree ∧ t.count = ip.count ∧ (t.joints i).endPos = (ip.joints i).endPos := by
  induction n with
  | zero => exact ⟨htraj, rfl, by simp, rfl, rfl, rfl⟩
  | succ n ih =>
    obtain ⟨h1, h2, h3, h4, h5, h6⟩ := ih
    obtain ⟨g1, g2, g3, g4, g5, g6⟩ := @update_empty _ period i h1
    simp only [Function.iterate_succ_apply']
    refine ⟨g1, g2.trans h2, ?_, g4.trans h4, g5.trans h5, g6.trans h6⟩
    rw [g3, h3]
    push_cast
    ring

/-- A call after the last segment: the joint is at its end position. -/
lemma update_rest (hd : InterpDegree ip.degree) (htraj : ip.traj = [])
    (hc : ip.segmentCompleted period) (hi : i < ip.count) :
    ((ip.update period).joints i).currPos = (ip.joints i).endPos := by
  have hnext : ip.next period = ip.stop := by rw [next, if_pos hc, htraj]
  obtain ⟨hpos, -, -⟩ := @update_motion ip period i (by rw [hnext]; exact hd)
    (by rw [hnext]; exact hi)
  rw [hpos, hnext]
  have hjoint : ip.stop.joints i = (ip.joints i).stop := if_pos hi
  rw [hjoint]
  show ((ip.joints i).stop.motionAt ip.degree _).pos = _
  rcases hd with hd | hd | hd <;> rw [hd] <;>
    simp [InterpJoint.motionAt, InterpJoint.motion, InterpJoint.stop, constantCoeff]

/-- The coefficients are those that the start of the call has left. -/
lemma update_segment {degree : ℕ} (x : ℚ) : ((ip.update period).joints i).motionAt degree x =
    ((ip.next period).joints i).motionAt degree x := by
  have hcoeff : ((ip.update period).joints i).coeff = ((ip.next period).joints i).coeff := by
    simp only [update, interpolate]
    split_ifs <;> rfl
  rw [InterpJoint.motionAt, InterpJoint.motion, hcoeff]
  rfl

end Interp

/-- A call for a joint of the instance, with a degree of 1, 3 or 5. Its outputs are the values of
the position polynomial and of its derivatives at the progress; if it starts a segment of the
non-zero duration `T`, the polynomial meets the conditions at 0 and `T`: those for the position,
for the degrees 3 and 5 those for the velocity, and for the degree 5 those for the acceleration;
and after the last segment the joint is at its end position in every call. -/
theorem interpolator_segments (ip : Interp) (period : ℚ) (i : ℕ) (hd : InterpDegree ip.degree)
    (hi : i < ip.count) :
    (∀ x, ((ip.update period).joints i).motionAt ip.degree x =
      ⟨(trajPoly ip.degree ((ip.update period).joints i)).eval x,
        (trajPoly ip.degree ((ip.update period).joints i)).derivative.eval x,
        (trajPoly ip.degree ((ip.update period).joints i)).derivative.derivative.eval x⟩) ∧
    (⟨((ip.update period).joints i).currPos, ((ip.update period).joints i).currVel,
        ((ip.update period).joints i).currAcc⟩ : InterpMotion) =
      ((ip.update period).joints i).motionAt ip.degree (ip.update period).progress ∧
    (∀ rx rest, ip.segmentCompleted period → ip.traj = some rx :: rest →
      rx.timeFromStart - ip.timeFromStart ≠ 0 → i < rx.positions.length →
      let m0 := ((ip.update period).joints i).motionAt ip.degree 0
      let mT := ((ip.update period).joints i).motionAt ip.degree
        (rx.timeFromStart - ip.timeFromStart)
      (m0.pos = (ip.joints i).currPos ∧ mT.pos = rx.positions.getD i 0) ∧
      (ip.degree ≠ 1 → m0.vel = (ip.joints i).currVel ∧ mT.vel = rx.velocities.getD i 0) ∧
      (ip.degree = 5 → m0.acc = (ip.joints i).currAcc ∧ mT.acc = rx.accelerations.getD i 0)) ∧
    (ip.traj = [] → ∀ n : ℕ, ip.duration < ip.progress + (n + 1) * period →
      (((fun s : Interp => s.update period)^[n + 1] ip).joints i).currPos =
        (ip.joints i).endPos) := by
  obtain ⟨hdegree, hcount⟩ := @Interp.next_degree ip period
  refine ⟨fun x => motionAt_eq hd, ?_, fun rx rest hc htraj hT hpos => ?_, fun htraj n hn => ?_⟩
  · obtain ⟨hp, hv, ha⟩ := @Interp.update_motion ip period i (hdegree ▸ hd) (hcount ▸ hi)
    rw [hp, hv, ha, Interp.update_segment, hdegree]
  · have hp : ∀ k ≤ ip.degree, generatePowers ip.powerCount
        (rx.timeFromStart - ip.timeFromStart) ip.powers k =
        (rx.timeFromStart - ip.timeFromStart) ^ k := by
      intro k hk
      rw [Interp.powerCount, powerCount_eq hd]
      exact generatePowers_apply (by exact_mod_cast hk)
    simp only [Interp.update_segment, Interp.next_joint hc htraj hT hpos]
    obtain ⟨hp0, hv0, ha0⟩ := @segment_start _ _ (ip.joints i) (rx.timeFromStart - ip.timeFromStart)
      (rx.positions.getD i 0) (rx.velocities.getD i 0) (rx.accelerations.getD i 0) hd
    obtain ⟨hpT, hvT, haT⟩ := segment_end hd hT hp
    exact ⟨⟨hp0, hpT⟩, fun h => ⟨hv0 h, hvT h⟩, fun h => ⟨ha0 h, haT h⟩⟩
  · obtain ⟨htr, hdur, hprog, hdeg, hcnt, hend⟩ :=
      @Interp.iterate_empty ip period htraj i n
    rw [Function.iterate_succ_apply', ← hend]
    refine Interp.update_rest (hdeg ▸ hd) htr ?_ (hcnt ▸ hi)
    rw [Interp.segmentCompleted, hdur, hprog]
    linarith

/-- A cubic segment of the duration 2 for one joint, and the last call for it. -/
theorem interpolator_segments_cubic :
    let j : InterpJoint := ⟨0, 0, 0, 1, 3, 0, false, constantCoeff 0⟩
    let ip : Interp := ⟨1, [some ⟨[5], [-1], [0], 2⟩], 3, 0, 0, 0, 0, 0, fun _ => j⟩
    (((ip.update (1 / 2)).joints 0).motionAt 3 2).pos = 5 ∧
      (((ip.update (1 / 2)).joints 0).motionAt 3 2).vel = -1 := by
  intro j ip
  have hc : ip.segmentCompleted (1 / 2) := by
    show (0 : ℚ) - 0 - 1 / 2 < 0
    norm_num
  have hT : (2 : ℚ) - 0 ≠ 0 := by norm_num
  have h := (interpolator_segments ip (1 / 2) 0 (.inr (.inl rfl)) (by decide)).2.2.1
    ⟨[5], [-1], [0], 2⟩ [] hc rfl hT (by decide)
  have hpos : (((ip.update (1 / 2)).joints 0).motionAt 3 (2 - 0)).pos = 5 := h.1.2
  have hvel : (((ip.update (1 / 2)).joints 0).motionAt 3 (2 - 0)).vel = -1 :=
    (h.2.1 (by decide)).2
  rw [sub_zero] at hpos hvel
  exact ⟨hpos, hvel⟩

end MachinekitHal
