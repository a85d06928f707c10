import MachinekitHal.Hal.Values

/-!
`hal_rcomp.c`, `hal_group.c`: change detection on the pins of a remote component and on the
signals of a group.

Compiling sets up tracking values, all zero; a match compares the values with them and
takes over those that differ; a report has the values of the objects the last match found
changed. Whether a float differs by more than its epsilon is a parameter.

* `Topic`: a component or a group, with its pins or members.
* `Topic.compile`: `halg_compile_comp`, `halpr_group_compile`.
* `matchEntries`: the loop of the match; `matchEntries_eq` is its result when all types are
  known; `Topic.matchChanged` is `hal_ccomp_match` or `hal_cgroup_match`.
* `Topic.report`: `hal_ccomp_report`, `hal_cgroup_report`.
-/

namespace MachinekitHal

/-- `PIN_DO_NOT_TRACK`. -/
def pinDoNotTrack : BitVec 32 := 1

/-- `MEMBER_MONITOR_CHANGE`. -/
def memberMonitorChange : BitVec 32 := 1

/-- `GROUP_REPORT_ON_CHANGE`. -/
def groupReportOnChange : BitVec 32 := 1

/-- `GROUP_MONITOR_ALL_MEMBERS`. -/
def groupMonitorAllMembers : BitVec 32 := 2

/-- `GROUP_REPORT_CHANGED_MEMBERS`. -/
def groupReportChangedMembers : BitVec 32 := 4

/-- What is reported: a remote component, or a group with its `userarg2`. -/
inductive TopicKind where
  | rcomp
  | group (userarg2 : BitVec 32)
  deriving DecidableEq

/-- A pin of a component with its `flags`, or a member of a group with its `userarg1` and
the handle and type of its signal. -/
structure TopicObj where
  handle : ℤ
  type : HalType
  arg : BitVec 32
  deriving DecidableEq

/-- A component or a group. A handle is given once, and a signal has one of the types
`halg_signal_new` makes. -/
structure Topic where
  kind : TopicKind
  objs : List TopicObj
  nodup : (objs.map TopicObj.handle).Nodup
  sigTypes : kind ≠ .rcomp → ∀ o ∈ objs, (toPb o.type 0).isSome = true

/-- An element of the arrays of a compiled component or group. -/
structure Compiled where
  handle : ℤ
  type : HalType
  monitored : Bool
  tracking : HalDataU
  changed : Bool
  deriving DecidableEq

namespace Topic

variable (t : Topic)

/-- Whether changes of an object are tracked. -/
def monitors (o : TopicObj) : Bool :=
  match t.kind with
  | .rcomp => o.arg &&& pinDoNotTrack = 0
  | .group userarg2 =>
    o.arg &&& memberMonitorChange ≠ 0 ∨ userarg2 &&& groupMonitorAllMembers ≠ 0

/-- The element of an object when compiled. -/
def element (o : TopicObj) : Compiled := ⟨o.handle, o.type, t.monitors o, 0, false⟩

end Topic

/-- `n_monitored`. -/
def nMonitored (es : List Compiled) : ℕ := es.countP Compiled.monitored

/-- `halg_compile_comp`: only tracked pins are in the arrays. `halpr_group_compile`: all
members are. -/
def Topic.compile (t : Topic) : Option (List Compiled) :=
  match t.kind with
  | .rcomp =>
    let cc := (t.objs.filter t.monitors).map t.element
    if cc.length = 0 then none else some cc
  | .group userarg2 =>
    let cg := t.objs.map t.element
    if userarg2 &&& (groupReportOnChange ||| groupReportChangedMembers) ≠ 0 ∧
      nMonitored cg = 0 then none
    else some cg

section

variable (exceeds : ℤ → HalDataU → HalDataU → Bool) (value : ℤ → HalDataU)

/-- Whether the value differs from the tracking value, `none` for an invalid type. -/
def Compiled.differs (e : Compiled) : Option Bool :=
  match e.type with
  | .halBit => some (getBitValue e.tracking ≠ getBitValue (value e.handle))
  | .halFloat => some (exceeds e.handle (value e.handle) e.tracking)
  | .halS32 | .halU32 => some (get32Value e.tracking ≠ get32Value (value e.handle))
  | _ => none

/-- The tracking value after it took over the value. -/
def Compiled.takeOver (e : Compiled) : HalDataU :=
  match e.type with
  | .halBit => setBitValue e.tracking (value e.handle)
  | .halS32 | .halU32 => set32Value e.tracking (value e.handle)
  | _ => value e.handle

/-- `RTAPI_ZERO_BITMAP` on one element. -/
def Compiled.clear (e : Compiled) : Compiled := { e with changed := false }

/-- The loop of `hal_ccomp_match` and `hal_cgroup_match`, with the number of changes, `none`
for the failure at an invalid type. -/
def matchEntries : List Compiled → Option ℕ × List Compiled
  | [] => (some 0, [])
  | e :: es =>
    if !e.monitored then
      let r := matchEntries es
      (r.1, e.clear :: r.2)
    else
    match e.differs exceeds value with
    | none => (none, (e :: es).map Compiled.clear)
    | some true =>
      let r := matchEntries es
      (r.1.map (· + 1), { e with tracking := e.takeOver value, changed := true } :: r.2)
    | some false =>
      let r := matchEntries es
      (r.1, e.clear :: r.2)

/-- `hal_ccomp_match`, `hal_cgroup_match`. A group that monitors nothing matches by
default. -/
def Topic.matchChanged (t : Topic) (es : List Compiled) : Option ℕ × List Compiled :=
  match t.kind with
  | .rcomp => matchEntries exceeds value es
  | .group userarg2 =>
    if userarg2 &&& (groupReportOnChange ||| groupReportChangedMembers) ≠ 0 ∨
      0 < nMonitored es then matchEntries exceeds value es
    else (some 1, es)

/-- Whether a report has all elements, without `force_all`. -/
def Topic.reportsAll (t : Topic) (es : List Compiled) : Bool :=
  match t.kind with
  | .rcomp => false
  | .group userarg2 => nMonitored es = 0 ∨ userarg2 &&& groupReportChangedMembers = 0

/-- The elements `hal_ccomp_report` and `hal_cgroup_report` go through. -/
def Topic.report (t : Topic) (es : List Compiled) : List Compiled :=
  es.filter fun e => t.reportsAll es || e.changed

/-- The element is monitored and its value differs. -/
def Compiled.changes (e : Compiled) : Bool := e.monitored && e.differs exceeds value = some true

/-- The element after a match. -/
def Compiled.matched (e : Compiled) : Compiled :=
  if e.changes exceeds value then { e with tracking := e.takeOver value, changed := true }
  else e.clear

end

variable {exceeds : ℤ → HalDataU → HalDataU → Bool} {value : ℤ → HalDataU}

namespace Compiled

variable (e : Compiled)

@[simp] lemma matched_handle : (e.matched exceeds value).handle = e.handle := by
  rw [matched]
  split <;> rfl

@[simp] lemma matched_type : (e.matched exceeds value).type = e.type := by
  rw [matched]
  split <;> rfl

@[simp] lemma matched_monitored : (e.matched exceeds value).monitored = e.monitored := by
  rw [matched]
  split <;> rfl

@[simp] lemma matched_changed : (e.matched exceeds value).changed = e.changes exceeds value := by
  rw [matched]
  split
  · next h => exact h.symm
  · next h => exact (Bool.eq_false_iff.2 h).symm

/-- A type a message has a field for is valid. -/
lemma differs_isSome : (e.differs exceeds value).isSome = (toPb e.type 0).isSome := by
  cases ht : e.type <;> simp [differs, toPb, ht]

/-- For types other than float, a value differs exactly if it reads differently. -/
lemma differs_iff (ht : (toPb e.type 0).isSome = true) (hf : e.type ≠ .halFloat) :
    e.differs exceeds value = some true ↔
      toPb e.type e.tracking ≠ toPb e.type (value e.handle) := by
  cases hty : e.type <;> simp_all [differs, toPb]

/-- The tracking value taken over reads as the value. -/
lemma toPb_takeOver : toPb e.type (e.takeOver value) = toPb e.type (value e.handle) := by
  cases ht : e.type <;> simp [takeOver, toPb, ht]

/-- After a match the tracking value of a monitored element reads as the value, for types
other than float. -/
lemma toPb_matched (hm : e.monitored = true) (ht : (toPb e.type 0).isSome = true)
    (hf : e.type ≠ .halFloat) :
    toPb e.type (e.matched exceeds value).tracking = toPb e.type (value e.handle) := by
  by_cases hc : e.changes exceeds value = true
  · rw [matched, if_pos hc]
    exact e.toPb_takeOver
  · rw [matched, if_neg hc]
    have hd : ¬e.differs exceeds value = some true := by simpa [changes, hm] using hc
    rw [e.differs_iff ht hf, not_not] at hd
    exact hd

end Compiled

/-- The match when all types are valid: the number of changes, each element by itself. -/
theorem matchEntries_eq {es : List Compiled}
    (hty : ∀ e ∈ es, e.monitored = true → (toPb e.type 0).isSome = true) :
    matchEntries exceeds value es =
      (some (es.countP fun e => e.changes exceeds value), es.map (·.matched exceeds value)) := by
  induction es with
  | nil => rfl
  | cons e es ih =>
    have hrest := ih fun e he => hty e (.tail _ he)
    rw [matchEntries, List.countP_cons, List.map_cons, hrest]
    cases hm : e.monitored with
    | false =>
      have hc : e.changes exceeds value = false := by simp [Compiled.changes, hm]
      simp [hc, Compiled.matched]
    | true =>
      have hsome : (e.differs exceeds value).isSome = true := by
        rw [Compiled.differs_isSome]
        exact hty e (.head _) hm
      obtain ⟨d, hd⟩ := Option.isSome_iff_exists.1 hsome
      have hc : e.changes exceeds value = d := by
        cases d <;> simp [Compiled.changes, hm, hd]
      cases d <;> simp [hm, hd, hc, Compiled.matched]

end MachinekitHal
