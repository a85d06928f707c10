import MachinekitHal.Components.Interpolate
import MachinekitHal.Components.Jplan

/-!
What the messages make `interpolate.c` and `jplan.c` use.

* `InterpAccess.Inside`, `JplanAccess.Inside`: an access to a joint of the instance, to an element
  that is present in the message, or to a power of the array.
* `TrajPoint.Fits`: the numbers of elements fit each other and the instance.
* `trajectory_accesses`: the calls stay inside exactly if the message and the degree fit.
-/

namespace MachinekitHal

/-! ### The interpolator -/

/-- Inside the instance, the message or the array of powers. -/
def InterpAccess.Inside (count : ℕ) (rx : TrajPoint) : InterpAccess → Prop
  | .joint i => i < count
  | .position i => i < rx.positions.length
  | .velocity i => i < rx.velocities.length
  | .acceleration i => i < rx.accelerations.length
  | .power i => i ≤ 5

/-- The elements are those of all joints at the first point of a trajectory, and of the same
joints at the others. -/
def TrajPoint.Fits (rx : TrajPoint) (count : ℕ) (first : Prop) : Prop :=
  (first → count ≤ rx.positions.length ∧ count ≤ rx.velocities.length ∧
    count ≤ rx.accelerations.length) ∧
  (¬ first → rx.positions.length ≤ count ∧ rx.positions.length ≤ rx.velocities.length ∧
    rx.positions.length ≤ rx.accelerations.length)

/-- The point that a call reads; without elements if there is none. -/
def Interp.point (ip : Interp) (period : ℚ) : Option TrajPoint :=
  if ip.segmentCompleted period then ip.traj.head?.join else none

/-- All accesses of a call are inside. -/
def Interp.Inside (ip : Interp) (period : ℚ) : Prop :=
  ∀ a ∈ ip.accesses period, a.Inside ip.count ((ip.point period).getD ⟨[], [], [], 0⟩)

section Interpolator

variable {count n : ℕ} {rx : TrajPoint} {ip : Interp} {period : ℚ}

/-- The loop of `generatePowers`. -/
lemma powerAccesses_inside :
    (∀ a ∈ ip.powerAccesses, a.Inside count rx) ↔ ip.powerCount ≤ 5 := by
  rw [Interp.powerAccesses, List.forall_mem_map]
  simp only [InterpAccess.Inside, List.mem_range]
  constructor
  · intro h
    have hlast := h ip.powerCount.toNat (by omega)
    omega
  · intro h k hk
    omega

/-- The powers of a case of the degree. -/
lemma degreePowers_inside (degree : ℕ) :
    ∀ a ∈ (Interp.degreePowers degree).map .power, InterpAccess.Inside count rx a := by
  rw [List.forall_mem_map]
  simp only [InterpAccess.Inside, Interp.degreePowers]
  split_ifs <;> decide

/-- A loop over joints and their elements. -/
lemma elementAccesses_inside :
    (∀ i ∈ List.range n, ∀ a ∈ Interp.elementAccesses i, a.Inside count rx) ↔
      n ≤ count ∧ n ≤ rx.positions.length ∧ n ≤ rx.velocities.length ∧
        n ≤ rx.accelerations.length := by
  simp only [Interp.elementAccesses, List.mem_range, List.forall_mem_cons, InterpAccess.Inside,
    List.not_mem_nil, false_implies, implies_true, and_true]
  rw [← forall_lt_iff_le, ← forall_lt_iff_le, ← forall_lt_iff_le, ← forall_lt_iff_le]
  exact ⟨fun h => ⟨fun i hi => (h i hi).1, fun i hi => (h i hi).2.1, fun i hi => (h i hi).2.2.1,
    fun i hi => (h i hi).2.2.2⟩, fun h i hi => ⟨h.1 hi, h.2.1 hi, h.2.2.1 hi, h.2.2.2 hi⟩⟩

lemma interpolate_inside : ∀ i ∈ List.range count,
    ∀ a ∈ InterpAccess.joint i :: (Interp.degreePowers ip.degree).map .power,
      a.Inside count rx := by
  intro i hi
  rw [List.forall_mem_cons]
  exact ⟨List.mem_range.1 hi, degreePowers_inside _⟩

/-- The start of a call that reads a point. -/
lemma nextAccesses_inside {rest : List (Option TrajPoint)} (htraj : ip.traj = some rx :: rest)
    (hpow : ip.powerCount ≤ 5) :
    (∀ a ∈ ip.nextAccesses, a.Inside ip.count rx) ↔
      rx.Fits ip.count (rx.timeFromStart - ip.timeFromStart = 0) := by
  rw [Interp.nextAccesses, htraj, TrajPoint.Fits]
  by_cases hfirst : rx.timeFromStart - ip.timeFromStart = 0
  · simp only [if_pos hfirst, List.forall_mem_flatMap, elementAccesses_inside]
    exact ⟨fun h => ⟨fun _ => h.2, fun hno => absurd hfirst hno⟩,
      fun h => ⟨le_refl _, h.1 hfirst⟩⟩
  · have helements : (∀ i ∈ List.range rx.positions.length, ∀ a ∈ Interp.elementAccesses i ++
        (Interp.degreePowers ip.degree).map .power, a.Inside ip.count rx) ↔
        ∀ i ∈ List.range rx.positions.length, ∀ a ∈ Interp.elementAccesses i,
          a.Inside ip.count rx :=
      forall₂_congr fun i _ => List.forall_mem_append.trans
        (and_iff_left (degreePowers_inside ip.degree))
    simp only [if_neg hfirst]
    rw [List.forall_mem_append, powerAccesses_inside, and_iff_right hpow,
      List.forall_mem_flatMap, helements, elementAccesses_inside]
    exact ⟨fun h => ⟨fun hyes => absurd hyes hfirst, fun _ => ⟨h.1, h.2.2⟩⟩,
      fun h => ⟨(h.2 hfirst).1, le_refl _, (h.2 hfirst).2⟩⟩

/-- A call stays inside exactly if the degree and the point that it reads fit. -/
lemma interp_inside : ip.Inside period ↔ ip.powerCount ≤ 5 ∧
    ∀ rx, ip.point period = some rx →
      rx.Fits ip.count (rx.timeFromStart - ip.timeFromStart = 0) := by
  rw [Interp.Inside, Interp.accesses, List.forall_mem_append, List.forall_mem_append,
    powerAccesses_inside, List.forall_mem_flatMap, and_iff_left interpolate_inside, and_comm]
  refine and_congr_right fun hpow => ?_
  rw [Interp.point]
  by_cases hc : ip.segmentCompleted period
  · simp only [if_pos hc]
    cases htraj : ip.traj with
    | nil =>
      rw [Interp.nextAccesses, htraj]
      refine iff_of_true ?_ fun rx h => by cases h
      rw [List.forall_mem_map]
      exact fun i hi => List.mem_range.1 hi
    | cons r rest =>
      cases r with
      | none =>
        rw [Interp.nextAccesses, htraj]
        exact iff_of_true (fun a ha => absurd ha List.not_mem_nil) fun rx h => by cases h
      | some rx =>
        refine (nextAccesses_inside htraj hpow).trans ⟨fun h rx' hrx => ?_, fun h => h rx rfl⟩
        obtain rfl : rx = rx' := Option.some.inj hrx
        exact h
  · simp only [if_neg hc]
    exact iff_of_true (fun a ha => absurd ha List.not_mem_nil) fun rx h => by cases h

end Interpolator

/-! ### The joint planner -/

/-- Inside the instance or the message. -/
def JplanAccess.Inside (count size : ℕ) : JplanAccess → Prop
  | .joint i => i < count
  | .message i => i < size

/-- All accesses of a call are inside. -/
def JplanInst.Inside {α : Type*} (ip : JplanInst α) : Prop :=
  ∀ a ∈ ip.accesses, a.Inside ip.count (ip.message.getD []).length

/-- A call stays inside exactly if the message has no more elements than there are joints. -/
lemma jplan_inside {α : Type*} {ip : JplanInst α} :
    ip.Inside ↔ (ip.message.getD []).length ≤ ip.count := by
  rw [JplanInst.Inside, JplanInst.accesses, List.forall_mem_append, List.forall_mem_flatMap,
    List.forall_mem_map]
  simp only [List.mem_range, List.forall_mem_cons, JplanAccess.Inside, List.not_mem_nil,
    false_implies, implies_true, and_true]
  rw [← forall_lt_iff_le]
  exact ⟨fun h i hi => (h.1 i hi).1, fun h => ⟨fun i hi => ⟨h hi, hi⟩, fun i hi => hi⟩⟩

/-- What a call uses is inside the instance, the message and the array of powers exactly if the
degree is at most 5 as an `int` and the elements of the message fit: at the first point of a
trajectory all three arrays have all joints, at the others no more positions than joints, and
not fewer velocities and accelerations; a command has no more elements than joints. -/
theorem trajectory_accesses (ip : Interp) (period : ℚ) {α : Type*} (jp : JplanInst α) :
    (ip.Inside period ↔ Word.wrapInt ip.degree ≤ 5 ∧ ∀ rx, ip.point period = some rx →
      rx.Fits ip.count (rx.timeFromStart - ip.timeFromStart = 0)) ∧
    (jp.Inside ↔ ∀ rx, jp.message = some rx → rx.length ≤ jp.count) := by
  refine ⟨interp_inside, jplan_inside.trans ?_⟩
  cases jp.message with
  | none => exact iff_of_true (Nat.zero_le _) fun rx h => by cases h
  | some rx =>
      refine ⟨fun h rx' hrx => ?_, fun h => h rx rfl⟩
      obtain rfl : rx = rx' := Option.some.inj hrx
      exact h

/-- A degree of 6 for the interpolator; a command for two joints, and a planner with one. -/
theorem trajectory_accesses_outside : (¬ ∀ (ip : Interp) (period : ℚ), ip.Inside period) ∧
    ¬ ∀ jp : JplanInst ℚ, jp.Inside := by
  refine ⟨fun hinterp => ?_, fun hjplan => ?_⟩
  · have h := (interp_inside.1 (hinterp ⟨1, [], 6, 0, 0, 0, 0, 0,
      fun _ => ⟨0, 0, 0, 0, 0, 0, false, constantCoeff 0⟩⟩ 1)).1
    exact absurd h (by decide)
  · have h : JplanAccess.Inside 1 2 (.joint 1) :=
      hjplan ⟨1, true, [some [⟨none, none, none, none⟩, ⟨some 1, none, none, none⟩]], false, 0,
        fun _ => ⟨0, 0, 0, 0, 0, 0, false, false, false⟩⟩ (.joint 1) (by decide)
    exact absurd h (lt_irrefl 1)

end MachinekitHal
