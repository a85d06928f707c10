import MachinekitHal.HalCommand.Options
import MachinekitHal.Hal.FunctPosition
import MachinekitHal.Hal.GroupMembers
import MachinekitHal.Hal.PinCreation
import MachinekitHal.Lib.Folds

/-!
`halcmd_commands.c`: what becomes of a command with a malformed argument.

* `CommandRun`: what a command prints, returns and leaves.
* `doAddfCmd`, `doNewpinCmd`, `doNewthreadCmd`, `doNewgCmd`, `doNewmCmd`, `doNewringCmd`: the
  commands.
* `Rejects`: a malformed argument makes the command fail, and changes nothing.
* `AddfSafe`, `NewpinSafe`, `NewthreadSafe`: no argument is malformed, or the call is refused.
* `rejected_arguments`: these are the cases in which a malformed argument has no effect; it has
  none on `newg`, `newm` and `newring`.
-/

namespace MachinekitHal

open Folds Threads

/-- A run of a command: whether an argument was reported as malformed, and what it returns with
the state it leaves; no result if it writes where it must not. -/
structure CommandRun (σ : Type) where
  printed : Bool
  result : Option (ℤ × σ)

/-- `ENOSYS`. -/
def enosys : ℤ := 38

/-- The return value of a call. -/
def returnValue : Option Errno → ℤ
  | none => 0
  | some e => -e.code

/-! ### The commands -/

/-- `do_addf_cmd`. -/
def doAddfCmd (mem : Option ℕ) (func thread : String) (opt : List CText) (h : Hal) :
    CommandRun Hal :=
  let a := (options opt).foldl addfOption ⟨-1, false, false, false⟩
  { printed := a.printed
    result := (h.halAddFunctToThreadRt mem func thread a.position a.rmb.toNat a.wmb.toNat).map
      fun r => (returnValue r.1, r.2) }

/-- `do_newpin_cmd`. An unknown type is reported, and taken for a bit. -/
def doNewpinCmd (mem : Option Alloc) (compName pinName : String) (typeName : CText)
    (args : List CText) (h : Hal) : CommandRun Hal :=
  match findByName compName h.comps with
  | none => ⟨false, some (-Errno.ENOENT.code, h)⟩
  | some comp =>
  if comp.body.type ≠ .typeRemote then ⟨false, some (-enosys, h)⟩ else
  if (findByName pinName h.pins).isSome then ⟨false, some (-Errno.ENOENT.code, h)⟩ else
  let type := (pinType typeName.bytes).getD .halBit
  match (options args).foldlM (newpinOption type) .halIn with
  | none => ⟨true, some (-Errno.EINVAL.code, h)⟩
  | some dir =>
    { printed := (pinType typeName.bytes).isNone
      result :=
        match h.halgPinNewfv mem type dir none comp.hdr.id.toInt 0 pinName with
        | (none, h) => some (0, h)
        | (some _, h) => some (-Errno.EINVAL.code, h) }

/-- What the environment answers to `newthread`: whether `rtapi_app` handles the request, and
whether its reply arrives; and there, the id of the HAL library and the memory for the pins. -/
structure NewthreadEnv where
  handled : Bool
  answered : Bool
  thread : ThreadEnv
  libModuleId : ℤ
  time : Option Alloc
  tmax : Option Alloc
  currPeriod : Option Alloc

/-- The HAL state, and what the creation of a thread reads of it. -/
structure ThreadSys where
  threads : ThreadHal
  hal : Hal

/-- The pins of a thread. The period is written to the last one without a check. -/
def timingPins (e : NewthreadEnv) (name : String) (period : ℤ) (h : Hal) : Option Hal :=
  let h := (h.halgPinNewfv e.time .halS32 .halOut none e.libModuleId 0 (name ++ ".time")).2
  let h := (h.halgPinNewfv e.tmax .halS32 .halIo none e.libModuleId 0 (name ++ ".tmax")).2
  match h.halgPinNewfv e.currPeriod .halS32 .halOut none e.libModuleId 0
      (name ++ ".curr-period"), e.currPeriod with
  | (none, h), some m => some (h.modifyPin m.off fun p =>
    { p with dummysig := set32Value p.dummysig (BitVec.ofInt 64 period) })
  | _, _ => none

/-- `hal_create_xthread` with the pins, which are created before the task is started. -/
def createXthread (e : NewthreadEnv) (args : ThreadArgs) (useFp : Bool) (s : ThreadSys) :
    Option (Option Errno × ThreadSys) :=
  let r := halCreateXthread e.thread args s.threads
  match halCreateXthread { e.thread with taskStart := true } args s.threads with
  | (some _, _) => some (r.1, { s with threads := r.2 })
  | (none, th) =>
    let period := (findByName args.name th.objs).elim 0 fun t => t.body.period
    (timingPins e args.name period s.hal).map fun h =>
      if r.1.isSome then (r.1, ⟨r.2, h⟩)
      else (r.1, ⟨r.2, (h.addThread e.thread.desc args.name useFp).2⟩)

/-- `rtapi_newthread`: the request to `rtapi_app`. -/
def rtapiNewthread (e : NewthreadEnv) (args : ThreadArgs) (useFp : Bool) (s : ThreadSys) :
    Option (ℤ × ThreadSys) :=
  if e.handled then
    (createXthread e args useFp s).map fun r =>
      (if e.answered then returnValue r.1 else -1, r.2)
  else some (-1, s)

/-- `do_newthread_cmd`. -/
def doNewthreadCmd (e : NewthreadEnv) (name : String) (args : List CText) (s : ThreadSys) :
    CommandRun ThreadSys :=
  let a := (options args).foldl newthreadOption ⟨false, 1000000, true, false⟩
  { printed := a.printed
    result := if a.fits then rtapiNewthread e ⟨name, toUlong a.per⟩ a.useFp s else none }

/-- `do_newg_cmd`. -/
def doNewgCmd (mem : Option Alloc) (group : String) (opt : List CText) (s : GroupHal) :
    CommandRun GroupHal :=
  match (options opt).foldlM newgOption (0, groupReportOnChange ||| groupReportChangedMembers) with
  | none => ⟨true, some (-Errno.EINVAL.code, s)⟩
  | some a =>
    let r := s.halgGroupNew mem group a.1 a.2
    ⟨false, some (returnValue r.1, r.2)⟩

/-- `do_newm_cmd`. -/
def doNewmCmd (mem : Option Alloc) (group member : String) (opt : List CText) (s : GroupHal) :
    CommandRun GroupHal :=
  let sig := findByName member s.sigs
  if sig = none ∧ findByName member s.groups = none then
    ⟨true, some (-Errno.EINVAL.code, s)⟩
  else
    match (options opt).foldlM (newmOption sig) (memberMonitorChange, 0) with
    | none => ⟨true, some (-Errno.EINVAL.code, s)⟩
    | some a =>
      let r := s.halgMemberNew mem group member a.1 a.2.toInt
      ⟨false, some (returnValue r.1, r.2)⟩

/-- `rmax`. -/
def maxRingsize : ℕ := 50000000

/-- `do_newring_cmd`; `err` is `_halerrno` after a creation that failed. -/
def doNewringCmd (e : RingEnv) (err : ℤ) (ring : String) (ringSize : CText) (opt : List CText)
    (s : RingHal) : CommandRun RingHal :=
  let size := strtoll ringSize.bytes
  if atEnd size.rest = false then ⟨true, some (-Errno.EINVAL.code, s)⟩ else
  -- the size is compared as a `size_t`
  if maxRingsize < toUlong size.int.toInt then ⟨true, some (-Errno.EINVAL.code, s)⟩ else
  match (options opt).foldlM newringOption (0, 0) with
  | none => ⟨true, some (-Errno.EINVAL.code, s)⟩
  | some a =>
    match halgRingNewfv e size.int.toInt a.2 a.1 (some ring) s with
    | (some _, s) => ⟨false, some (0, s)⟩
    | (none, s) => ⟨false, some (err, s)⟩

/-! ### What should be -/

/-- A command that reports an argument returns a negative value, and the state is as it was. -/
def Rejects {σ : Type} (same : σ → Prop) (r : CommandRun σ) : Prop :=
  r.printed = true → ∃ rc s', r.result = some (rc, s') ∧ rc < 0 ∧ same s'

/-- The threads and the objects are the same; timer periods are not looked at. -/
def ThreadSys.Same (s s' : ThreadSys) : Prop := SameThreads s.threads s'.threads ∧ s'.hal = s.hal

/-- The funct and the thread do not go together, or the position is not on the list. -/
def AddRefused (h : Hal) (func thread : String) (position : ℤ) : Prop :=
  match h.qualified func thread with
  | none => True
  | some (_, t) => position = 0 ∨ t.body.functList.length + 1 < position.natAbs

/-- No position is malformed, or the call is refused. -/
def AddfSafe (h : Hal) (func thread : String) (opts : List (List UInt8)) : Prop :=
  opts.any addfInvalid = false ∨ AddRefused h func thread (addfPosition opts)

/-- The type is known, or another option is malformed, or the call is refused. -/
def NewpinSafe (h : Hal) (mem : Option Alloc) (compName pinName : String)
    (typeName : List UInt8) (opts : List (List UInt8)) : Prop :=
  (pinType typeName).isSome ∨ opts.any (newpinInvalid .halBit) = true ∨
    ¬ ∃ comp, findByName compName h.comps = some comp ∧ comp.body.type = .typeRemote ∧
      findByName pinName h.pins = none ∧ PinAccepted h mem comp.hdr.id.toInt pinName

/-- The period of the timer for the first thread. -/
def timerPeriod (e : ThreadEnv) (args : ThreadArgs) (s : ThreadHal) : ℤ :=
  if s.clock = 0 then (rtapiClockSetPeriod e.resolution 0 (toLong args.periodNsec)).1
  else s.clock

/-- The base period that the first thread sets. -/
def firstBase (e : ThreadEnv) (args : ThreadArgs) (s : ThreadHal) : ℤ :=
  if s.exactBasePeriod then toLong args.periodNsec else timerPeriod e args s

/-- The timer can be started for the first thread, and goes with its period. -/
structure TimerAccepted (e : ThreadEnv) (args : ThreadArgs) (s : ThreadHal) : Prop where
  started : s.clock = 0 → 0 ≤ timerPeriod e args s
  fits : toUlong (timerPeriod e args s) ≤
    (args.periodNsec + args.periodNsec / 100) % 18446744073709551616
  base : toUlong (firstBase e args s) ≤ args.periodNsec
  rounds : 0 ≤ ThreadHal.rounded { s with basePeriod := firstBase e args s } args.periodNsec

/-- What `hal_create_xthread` tests passes, up to the task. -/
structure XthreadAccepted (e : ThreadEnv) (args : ThreadArgs) (s : ThreadHal) : Prop where
  tests : rejected s args = false
  memory : e.desc.isSome
  first : s.firstThread = none → TimerAccepted e args s
  task : e.taskNew = true

/-- No period is malformed, or the thread is refused. -/
def NewthreadSafe (e : NewthreadEnv) (name : String) (opts : List (List UInt8)) (s : ThreadSys) :
    Prop :=
  opts.any newthreadInvalid = false ∨ opts.any cgnameOverflows = false ∧
    (e.handled = false ∨
      ¬ XthreadAccepted e.thread ⟨name, toUlong (newthreadPeriod opts)⟩ s.threads)

/-! ### `addf` -/

lemma returnValue_some (e : Errno) : returnValue (some e) < 0 := Int.neg_neg_of_pos e.code_pos

section Add

variable {h : Hal} {mem : Option ℕ} {func thread : String} {position : ℤ} (rmb wmb : ℤ)

lemma addFunct_refused (hr : AddRefused h func thread position) :
    ∃ e, h.halAddFunctToThreadRt mem func thread position rmb wmb = some (some e, h) := by
  rw [AddRefused] at hr
  cases hq : h.qualified func thread with
  | none => exact addFunct_unqualified hq
  | some q =>
    obtain ⟨f, t⟩ := q
    rw [addFunct_qualified hq]
    by_cases hp : position = 0
    · exact ⟨_, if_pos hp⟩
    rw [hq] at hr
    have hnone : insertionPoint t.body.functList.length position = none := by
      rw [insertionPoint_eq, if_neg (not_le.2 (hr.resolve_left hp))]
    rw [if_neg hp, hnone]
    exact ⟨_, rfl⟩

/-- A call that is not refused succeeds, or does not return. -/
lemma addFunct_accepted (hr : ¬ AddRefused h func thread position) {rc : Option Errno} {h' : Hal}
    (heq : h.halAddFunctToThreadRt mem func thread position rmb wmb = some (rc, h')) :
    rc = none := by
  rw [AddRefused] at hr
  cases hq : h.qualified func thread with
  | none => simp [hq] at hr
  | some q =>
    obtain ⟨f, t⟩ := q
    simp only [hq, not_or, not_lt] at hr
    rw [addFunct_qualified hq, if_neg hr.1, insertionPoint_eq, if_pos hr.2] at heq
    obtain ⟨⟨off, hal⟩, -, hrc⟩ := Option.map_eq_some_iff.1 heq
    exact (Prod.mk.inj hrc).1.symm

end Add

/-- When `addf` rejects its arguments. -/
lemma addf_rejects (h : Hal) (mem : Option ℕ) (func thread : String) (opt : List CText) :
    Rejects (· = h) (doAddfCmd mem func thread opt h) ↔ AddfSafe h func thread (options opt) := by
  obtain ⟨hpos, hpr⟩ := addfOptions_eq (options opt)
  rw [Rejects, doAddfCmd, AddfSafe]
  dsimp only
  rw [hpr, hpos]
  cases hinv : (options opt).any addfInvalid with
  | false => simp
  | true =>
    simp only [forall_const, reduceCtorEq, false_or]
    constructor
    · rintro ⟨rc, h', hres, hneg, -⟩
      obtain ⟨⟨err, h''⟩, heq, hrc⟩ := Option.map_eq_some_iff.1 hres
      by_contra hr
      obtain rfl := addFunct_accepted _ _ hr heq
      cases hrc
      exact absurd hneg (lt_irrefl 0)
    · intro hr
      obtain ⟨err, herr⟩ := addFunct_refused _ _ hr
      exact ⟨_, h, by rw [herr]; rfl, returnValue_some err, rfl⟩

/-! ### `newpin` -/

/-- The options of `newpin` give a direction. -/
lemma newpinOption_valid {type : HalType} {dir dir' : HalPinDir} {s : List UInt8}
    (hd : halValidDir dir = true) (h : newpinOption type dir s = some dir') :
    halValidDir dir' = true := by
  unfold newpinOption at h
  split_ifs at h <;> cases h <;> first | rfl | exact hd

/-- When `newpin` rejects its arguments. -/
lemma newpin_rejects (h : Hal) (mem : Option Alloc) (compName pinName : String)
    (typeName : CText) (args : List CText) :
    Rejects (· = h) (doNewpinCmd mem compName pinName typeName args h) ↔
      NewpinSafe h mem compName pinName typeName.bytes (options args) := by
  rw [Rejects, NewpinSafe, doNewpinCmd]
  cases hcomp : findByName compName h.comps with
  | none => simp
  | some comp =>
  dsimp only
  by_cases htype : comp.body.type = .typeRemote
  swap
  · rw [if_pos htype]
    simp [htype]
  rw [if_neg (not_not.2 htype)]
  by_cases hpin : (findByName pinName h.pins).isSome = true
  · rw [if_pos hpin]
    simp [Option.isSome_iff_ne_none.1 hpin]
  rw [if_neg hpin]
  have htaken := foldlM_isSome (newpinOption_isSome ((pinType typeName.bytes).getD .halBit))
    .halIn (options args)
  cases hfold : (options args).foldlM (newpinOption ((pinType typeName.bytes).getD .halBit))
      .halIn with
  | none =>
    refine iff_of_true (fun _ => ⟨_, h, rfl, by decide, rfl⟩) ?_
    cases hty : pinType typeName.bytes with
    | some type => exact .inl rfl
    | none =>
      refine .inr (.inl ?_)
      rw [hfold, hty] at htaken
      simpa [List.any_eq_not_all_not] using htaken.symm
  | some dir =>
    have hdir : halValidDir dir = true :=
      foldlM_invariant (fun _ _ _ => newpinOption_valid) rfl hfold
    cases hty : pinType typeName.bytes with
    | some type => simp
    | none =>
      have hany : (options args).any (newpinInvalid .halBit) = false := by
        rw [hfold, hty] at htaken
        simpa [List.any_eq_not_all_not] using htaken.symm
      simp only [hany, Option.isNone_none, Option.isSome_none, forall_const, false_or,
        Bool.false_eq_true]
      by_cases ha : PinAccepted h mem comp.hdr.id.toInt pinName
      · obtain ⟨-, pin, -, -, hp⟩ :=
          @halgPinNewfv_accepted h mem .halBit dir comp.hdr.id.toInt 0 pinName rfl hdir ha
        refine iff_of_false ?_ (not_not.2 ⟨comp, rfl, htype, by simpa using hpin, ha⟩)
        rintro ⟨rc, s', hres, hneg, -⟩
        simp only [Option.getD_none, hp, Option.some.injEq, Prod.mk.injEq] at hres
        omega
      · obtain ⟨err, hp⟩ := @halgPinNewfv_refused h mem .halBit dir comp.hdr.id.toInt 0 pinName
          fun h => ha h.2.2
        refine iff_of_true ⟨-Errno.EINVAL.code, h, ?_, by decide, rfl⟩ ?_
        · simp only [Option.getD_none, hp]
        rintro ⟨comp', hcomp', -, -, ha'⟩
        cases hcomp'
        exact ha ha'

/-! ### `newthread` -/

section NewThread

variable {e : ThreadEnv} {args : ThreadArgs} {s : ThreadHal}

/-- The start of the timer, by its period. -/
lemma startTimer_eq (e : ThreadEnv) (args : ThreadArgs) (s : ThreadHal) : ∃ clock,
    startTimer e args s =
      if s.clock = 0 ∧ timerPeriod e args s < 0 then (some .EINVAL, { s with clock := clock })
      else if (args.periodNsec + args.periodNsec / 100) % 18446744073709551616 <
          toUlong (timerPeriod e args s) then (some .EINVAL, { s with clock := clock })
      else (none, { s with clock := clock, basePeriod := firstBase e args s }) := by
  have hcurr : (rtapiClockSetPeriod e.resolution s.clock 0).1 = s.clock := by
    simp [rtapiClockSetPeriod]
  unfold startTimer firstBase timerPeriod
  generalize (args.periodNsec + args.periodNsec / 100) % 18446744073709551616 = limit
  rw [hcurr]
  by_cases hc : s.clock = 0
  · generalize hset : rtapiClockSetPeriod e.resolution s.clock (toLong args.periodNsec) = set
    rw [hc] at hset
    rw [hset]
    refine ⟨set.2, ?_⟩
    simp only [hc, if_true, true_and]
  · refine ⟨s.clock, ?_⟩
    simp only [hc, false_and, if_false]

/-- The end of a creation, if the task can be started. -/
lemma createAfter_accepted (new : Obj XThread) (prev : XThread) (s : ThreadHal) :
    (createAfter { e with taskStart := true } args new prev s).1 = none ↔
      toUlong s.basePeriod ≤ args.periodNsec ∧ prev.period ≤ s.rounded args.periodNsec ∧
        e.taskNew = true := by
  rw [createAfter]
  by_cases hbase : args.periodNsec < toUlong s.basePeriod
  · simp [hbase]
  by_cases hper : s.rounded args.periodNsec < prev.period
  · simp [hbase, hper]
  · cases htask : e.taskNew <;> simp [hbase, hper, not_lt.1 hbase, not_lt.1 hper]

/-- The creation of the first thread, if its task can be started. -/
lemma firstThread_accepted (new : Obj XThread) :
    (match startTimer { e with taskStart := true } args s with
      | (some err, s) => (some err, s)
      | (none, s) => createAfter { e with taskStart := true } args new ⟨0, rtapiPrioHighest⟩ s).1 =
        none ↔ TimerAccepted e args s ∧ e.taskNew = true := by
  obtain ⟨clock, hstart⟩ := startTimer_eq { e with taskStart := true } args s
  have hperiod : timerPeriod { e with taskStart := true } args s = timerPeriod e args s := rfl
  have hbase : firstBase { e with taskStart := true } args s = firstBase e args s := rfl
  rw [hperiod, hbase] at hstart
  rw [hstart]
  by_cases hneg : s.clock = 0 ∧ timerPeriod e args s < 0
  · rw [if_pos hneg]
    exact iff_of_false (by simp) fun h => absurd (h.1.started hneg.1) (not_le.2 hneg.2)
  rw [if_neg hneg]
  by_cases hlong : (args.periodNsec + args.periodNsec / 100) % 18446744073709551616 <
      toUlong (timerPeriod e args s)
  · rw [if_pos hlong]
    exact iff_of_false (by simp) fun h => absurd h.1.fits (not_le.2 hlong)
  rw [if_neg hlong]
  dsimp only
  rw [createAfter_accepted]
  constructor
  · rintro ⟨hb, hr, htask⟩
    exact ⟨⟨fun hc => not_lt.1 fun hn => hneg ⟨hc, hn⟩, not_lt.1 hlong, hb, hr⟩, htask⟩
  · rintro ⟨h, htask⟩
    exact ⟨h.base, h.rounds, htask⟩

/-- **When a thread is created**, if its task can be started. -/
lemma xthread_accepted : (halCreateXthread { e with taskStart := true } args s).1 = none ↔
    XthreadAccepted e args s := by
  rw [halCreateXthread]
  by_cases hlen : halNameLen < args.name.length
  · rw [if_pos hlen]
    exact iff_of_false (by simp) fun h => by simpa [rejected, hlen] using h.tests
  rw [if_neg hlen]
  by_cases hlock : s.locked halLockConfig = true
  · rw [if_pos hlock]
    exact iff_of_false (by simp) fun h => by simpa [rejected, hlock] using h.tests
  rw [if_neg hlock]
  by_cases hzero : args.periodNsec = 0
  · rw [if_pos hzero]
    exact iff_of_false (by simp) fun h => by simpa [rejected, hzero] using h.tests
  rw [if_neg hzero]
  by_cases hdup : (findByName args.name s.objs).isSome = true
  · rw [if_pos hdup]
    exact iff_of_false (by simp) fun h => by simpa [rejected, hdup] using h.tests
  rw [if_neg hdup]
  have hmem : (halgCreateObject e.desc 0 args.name (⟨0, 0⟩ : XThread)).isSome = e.desc.isSome := by
    simp only [halgCreateObject, hhSetNamefv_short hlen]
    cases e.desc <;> rfl
  cases hnew : halgCreateObject e.desc 0 args.name (⟨0, 0⟩ : XThread) with
  | none =>
    rw [hnew] at hmem
    exact iff_of_false (by simp) fun h => by simpa [← hmem] using h.memory
  | some new =>
  rw [hnew] at hmem
  dsimp only
  cases hfirst : s.firstThread with
  | none =>
    refine (firstThread_accepted new).trans ?_
    constructor
    · rintro ⟨h, htask⟩
      exact ⟨by simp [rejected, hlen, hlock, hzero, hdup, hfirst], hmem.symm,
        fun _ => h, htask⟩
    · exact fun h => ⟨h.first hfirst, h.task⟩
  | some tptr =>
    dsimp only
    rw [createAfter_accepted]
    constructor
    · rintro ⟨hb, hr, htask⟩
      exact ⟨by simp [rejected, hlen, hlock, hzero, hdup, hfirst, hb, hr], hmem.symm,
        by simp [hfirst], htask⟩
    · intro h
      have htests := h.tests
      simp only [rejected, hfirst, Option.any_some, Bool.or_eq_false_iff, decide_eq_false_iff_not,
        not_lt] at htests
      exact ⟨htests.2.1, htests.2.2, h.task⟩

end NewThread

/-- A creation is refused with the threads as they were, or gets to its end with them. -/
lemma halCreateXthread_end (e : ThreadEnv) (args : ThreadArgs) (s : ThreadHal) :
    ((halCreateXthread e args s).1 ≠ none ∧ SameThreads s (halCreateXthread e args s).2) ∨
      ∃ new prev t, SameThreads s t ∧
        halCreateXthread e args s = createAfter e args new prev t := by
  have hsame : SameThreads s s := ⟨rfl, rfl, rfl⟩
  rw [halCreateXthread]
  split
  · exact .inl ⟨by simp, hsame⟩
  split
  · exact .inl ⟨by simp, hsame⟩
  split
  · exact .inl ⟨by simp, hsame⟩
  split
  · exact .inl ⟨by simp, hsame⟩
  split
  · exact .inl ⟨by simp, hsame⟩
  next new hnew =>
  cases s.firstThread with
  | some tptr => exact .inr ⟨new, tptr.body, s, hsame, rfl⟩
  | none =>
    have ht := startTimer_same e args s
    rcases hstart : startTimer e args s with ⟨_ | err, t⟩
    · rw [hstart] at ht
      exact .inr ⟨new, _, t, ht, rfl⟩
    · rw [hstart] at ht
      exact .inl ⟨by simp, ht⟩

/-- A creation that fails changes no thread. -/
lemma halCreateXthread_failed {e : ThreadEnv} {args : ThreadArgs} {s : ThreadHal}
    (h : (halCreateXthread e args s).1 ≠ none) : SameThreads s (halCreateXthread e args s).2 := by
  rcases halCreateXthread_end e args s with ⟨-, hsame⟩ | ⟨new, prev, t, hsame, heq⟩
  · exact hsame
  · rw [heq] at h ⊢
    rcases createAfter_cases e args new prev t with ⟨-, ht⟩ | ⟨-, -, ht⟩
    · rwa [ht]
    · exact absurd (by rw [ht]) h

/-- What fails in front of the task fails if the task cannot be started. -/
lemma halCreateXthread_unstarted {e : ThreadEnv} {args : ThreadArgs} {s : ThreadHal}
    (h : (halCreateXthread { e with taskStart := true } args s).1 ≠ none) :
    (halCreateXthread e args s).1 ≠ none := by
  cases hstart : e.taskStart with
  | true =>
    have heq : { e with taskStart := true } = e := by rw [← hstart]
    rwa [heq] at h
  | false =>
    rcases halCreateXthread_end e args s with ⟨hne, -⟩ | ⟨new, prev, t, -, heq⟩
    · exact hne
    · rw [heq, createAfter, hstart]
      dsimp only
      rw [if_pos (Or.inr rfl : e.taskNew = false ∨ false = false)]
      split_ifs <;> simp

/-- A thread that is refused in front of the task is refused, and changes no thread. -/
lemma createXthread_refused {e : NewthreadEnv} {args : ThreadArgs} {s : ThreadSys} (useFp : Bool)
    (ha : ¬ XthreadAccepted e.thread args s.threads) :
    ∃ err s', createXthread e args useFp s = some (some err, s') ∧ s.Same s' := by
  have hfail := fun h => ha (xthread_accepted.1 h)
  obtain ⟨err, herr⟩ := Option.ne_none_iff_exists'.1 (halCreateXthread_unstarted hfail)
  have hsame := halCreateXthread_failed (halCreateXthread_unstarted hfail)
  refine ⟨err, ⟨_, s.hal⟩, ?_, hsame, rfl⟩
  rw [createXthread]
  dsimp only
  rcases hr : halCreateXthread { e.thread with taskStart := true } args s.threads with
    ⟨_ | err', th⟩
  · exact absurd (by rw [hr]) hfail
  · rw [herr]

/-- The pins of a thread are added to the list. -/
lemma timingPins_length {e : NewthreadEnv} {name : String} {period : ℤ} {h h' : Hal}
    (ht : timingPins e name period h = some h') : h.pins.length < h'.pins.length := by
  rw [timingPins] at ht
  have htime := (@halgPinNewfv_length h e.time .halS32 .halOut e.libModuleId 0 (name ++ ".time")
    rfl rfl).1
  generalize (h.halgPinNewfv e.time .halS32 .halOut none e.libModuleId 0 (name ++ ".time")).2 = h₁
    at ht htime
  have htmax := (@halgPinNewfv_length h₁ e.tmax .halS32 .halIo e.libModuleId 0 (name ++ ".tmax")
    rfl rfl).1
  generalize (h₁.halgPinNewfv e.tmax .halS32 .halIo none e.libModuleId 0 (name ++ ".tmax")).2 = h₂
    at ht htmax
  have hcurr := (@halgPinNewfv_length h₂ e.currPeriod .halS32 .halOut e.libModuleId 0
    (name ++ ".curr-period") rfl rfl).2
  split at ht
  · next h₃ m hr _ =>
    rw [hr] at hcurr
    cases ht
    have hmod : (h₃.modifyPin m.off fun p => { p with
        dummysig := set32Value p.dummysig (BitVec.ofInt 64 period) }).pins.length =
          h₃.pins.length := List.length_map _
    have := hcurr rfl
    dsimp only at this
    omega
  · cases ht

lemma addThread_pins (h : Hal) (mem : Option Alloc) (name : String) (usesFp : Bool) :
    (h.addThread mem name usesFp).2.pins = h.pins := by
  unfold Hal.addThread
  split_ifs <;> try rfl
  cases halgCreateObject mem 0 name { usesFp := usesFp, functList := [] : Thread } <;> rfl

/-- A thread that is not refused gets pins. -/
lemma createXthread_accepted {e : NewthreadEnv} {args : ThreadArgs} {s : ThreadSys} {useFp : Bool}
    (ha : XthreadAccepted e.thread args s.threads) {r : Option Errno × ThreadSys}
    (h : createXthread e args useFp s = some r) : s.hal.pins.length < r.2.hal.pins.length := by
  have hok := xthread_accepted.2 ha
  rw [createXthread] at h
  dsimp only at h
  rcases hr : halCreateXthread { e.thread with taskStart := true } args s.threads with ⟨_ | err, th⟩
  · rw [hr] at h
    obtain ⟨hal, hpins, hres⟩ := Option.map_eq_some_iff.1 h
    have hlen := timingPins_length hpins
    split at hres
    · obtain rfl := hres
      exact hlen
    · obtain rfl := hres
      rw [addThread_pins]
      exact hlen
  · rw [hr] at hok
    cases hok

/-- When `newthread` rejects its arguments. -/
lemma newthread_rejects (e : NewthreadEnv) (name : String) (args : List CText) (s : ThreadSys) :
    Rejects s.Same (doNewthreadCmd e name args s) ↔ NewthreadSafe e name (options args) s := by
  obtain ⟨hper, hpr, hfits⟩ := newthreadOptions_eq (options args)
  rw [Rejects, NewthreadSafe, doNewthreadCmd]
  dsimp only
  rw [hpr, hper, hfits]
  cases hinv : (options args).any newthreadInvalid with
  | false => simp
  | true =>
  cases hover : (options args).any cgnameOverflows with
  | true => simp
  | false =>
  simp only [Bool.not_false, if_true, forall_const, reduceCtorEq, false_or, true_and,
    rtapiNewthread]
  generalize (⟨name, toUlong (newthreadPeriod (options args))⟩ : ThreadArgs) = targs
  generalize ((options args).foldl newthreadOption ⟨false, 1000000, true, false⟩).useFp = fp
  cases hhand : e.handled with
  | false => exact iff_of_true ⟨-1, s, rfl, by decide, ⟨rfl, rfl, rfl⟩, rfl⟩ (.inl rfl)
  | true =>
  by_cases ha : XthreadAccepted e.thread targs s.threads
  · refine iff_of_false ?_ (by simpa using ha)
    rintro ⟨rc, s', hres, -, -, hhal⟩
    obtain ⟨r, hr, hrs⟩ := Option.map_eq_some_iff.1 hres
    have hlen := createXthread_accepted ha hr
    cases hrs
    exact absurd hlen (by rw [hhal]; exact lt_irrefl _)
  · obtain ⟨err, s', hr, hsame⟩ := createXthread_refused fp ha
    refine iff_of_true ⟨_, s', by rw [if_pos rfl, hr]; rfl, ?_, hsame⟩ (.inr ha)
    split
    · exact returnValue_some err
    · decide

/-! ### The result -/

lemma newg_rejects (mem : Option Alloc) (group : String) (opt : List CText) (s : GroupHal) :
    Rejects (· = s) (doNewgCmd mem group opt s) := by
  intro hpr
  rw [doNewgCmd] at hpr ⊢
  split
  · exact ⟨_, s, rfl, by decide, rfl⟩
  · next hopt =>
    rw [hopt] at hpr
    cases hpr

lemma newm_rejects (mem : Option Alloc) (group member : String) (opt : List CText)
    (s : GroupHal) : Rejects (· = s) (doNewmCmd mem group member opt s) := by
  intro hpr
  rw [doNewmCmd] at hpr ⊢
  dsimp only at hpr ⊢
  split
  · exact ⟨_, s, rfl, by decide, rfl⟩
  next hfound =>
  rw [if_neg hfound] at hpr
  split
  · exact ⟨_, s, rfl, by decide, rfl⟩
  · next hopt =>
    rw [hopt] at hpr
    cases hpr

lemma newring_rejects (e : RingEnv) (err : ℤ) (ring : String) (ringSize : CText)
    (opt : List CText) (s : RingHal) :
    Rejects (· = s) (doNewringCmd e err ring ringSize opt s) := by
  intro hpr
  rw [doNewringCmd] at hpr ⊢
  dsimp only at hpr ⊢
  split
  · exact ⟨_, s, rfl, by decide, rfl⟩
  next hend =>
  rw [if_neg hend] at hpr
  split
  · exact ⟨_, s, rfl, by decide, rfl⟩
  next hsize =>
  rw [if_neg hsize] at hpr
  split
  · exact ⟨_, s, rfl, by decide, rfl⟩
  · next a hopt =>
    rw [hopt] at hpr
    dsimp only at hpr
    split at hpr <;> cases hpr

/-- **A malformed argument** makes a command fail without an effect, for `newg`, `newm` and
`newring`. For `addf`, `newpin` and `newthread` this is so exactly if the argument that does not
stop them is not malformed, or what they go on to do is refused. -/
theorem rejected_arguments (opt : List CText) :
    (∀ h mem func thread, Rejects (· = h) (doAddfCmd mem func thread opt h) ↔
      AddfSafe h func thread (options opt)) ∧
    (∀ h mem compName pinName typeName,
      Rejects (· = h) (doNewpinCmd mem compName pinName typeName opt h) ↔
        NewpinSafe h mem compName pinName typeName.bytes (options opt)) ∧
    (∀ e name s, Rejects s.Same (doNewthreadCmd e name opt s) ↔
      NewthreadSafe e name (options opt) s) ∧
    (∀ mem group s, Rejects (· = s) (doNewgCmd mem group opt s)) ∧
    (∀ mem group member s, Rejects (· = s) (doNewmCmd mem group member opt s)) ∧
    ∀ e err ring ringSize s, Rejects (· = s) (doNewringCmd e err ring ringSize opt s) :=
  ⟨fun h mem func thread => addf_rejects h mem func thread opt,
    fun h mem compName pinName typeName => newpin_rejects h mem compName pinName typeName opt,
    fun e name s => newthread_rejects e name opt s,
    fun mem group s => newg_rejects mem group opt s,
    fun mem group member s => newm_rejects mem group member opt s,
    fun e err ring ringSize s => newring_rejects e err ring ringSize opt s⟩

/-- `"1x"`. -/
def badPosition : CText := ⟨[49, 120], by decide⟩

/-- The position `1x` is reported, and the funct is added all the same. -/
theorem rejected_arguments_added : ¬ ∀ h mem func thread opt,
    Rejects (· = h) (doAddfCmd mem func thread opt h) := by
  intro hall
  have hpr : (doAddfCmd (some 512) "update" "fast" [badPosition] idleThread).printed = true := by
    decide
  have hrc : (doAddfCmd (some 512) "update" "fast" [badPosition] idleThread).result.map Prod.fst =
      some 0 := by
    decide
  obtain ⟨rc, h', hres, hneg, -⟩ := hall _ _ _ _ _ hpr
  rw [hres] at hrc
  cases hrc
  exact absurd hneg (lt_irrefl 0)

end MachinekitHal
