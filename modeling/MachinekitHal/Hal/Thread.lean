import MachinekitHal.Lib.Runs
import MachinekitHal.Lib.Dlist
import MachinekitHal.Hal.Data

/-!
`hal_thread.c`: periods and priorities of threads.

Every thread is a HAL object and an entry of the list of threads in `hal_data`, which is
linked through the descriptors; an entry is known by the offset of its descriptor.

* `halCreateXthread`: the creation of a thread, up to the insertion into the list of
  threads. The task and the timing pins of a thread are left out; what the task
  operations and the descriptor allocator return is given with the call.
* `halCreateXthread_cases`, `exitThread_cases`: what the operations do.

`long` is 64 bits wide; machine integers are `ℤ` with the conversions the code makes.
-/

namespace MachinekitHal.Threads

open Store Dlist

/-- `PRIO_HIGHEST`. -/
def rtapiPrioHighest : ℤ := 99

/-- `PRIO_LOWEST`. -/
def rtapiPrioLowest : ℤ := 0

/-- A valid priority for an argument out of range. -/
def validPrio (prio : ℤ) : ℤ :=
  if rtapiPrioHighest < prio then rtapiPrioHighest
  else if prio < rtapiPrioLowest then rtapiPrioLowest
  else prio

/-- `rtapi_prio_next_lower`. -/
def rtapiPrioNextLower (prio : ℤ) : ℤ := validPrio (prio - 1)

/-- Conversion to `unsigned long`. -/
def toUlong (n : ℤ) : ℕ := (n % 18446744073709551616).toNat

/-- Conversion to `long`. -/
def toLong (n : ℤ) : ℤ := Int.bmod n 18446744073709551616

/-- Conversion to `int`. -/
def toInt (n : ℤ) : ℤ := Int.bmod n 4294967296

/-- `hal_thread_t`, the fields that creation reads. -/
structure XThread where
  period : ℤ
  priority : ℤ
  deriving DecidableEq

/-- `hal_threadargs_t`. -/
structure ThreadArgs where
  name : String
  periodNsec : ℕ

/-- What the environment answers during `hal_create_xthread`: the descriptor allocator,
the resolution of the clock (`none` where the flavor has no monotonic clock), and whether
the task can be created and started. -/
structure ThreadEnv where
  desc : Option Alloc
  resolution : Option ℕ
  taskNew : Bool
  taskStart : Bool

/-- The part of the HAL and RTAPI state that thread creation works on: the timer periods,
the thread objects, and the list of threads with its root. -/
structure ThreadHal where
  lock : BitVec 8
  clock : ℤ
  basePeriod : ℤ
  exactBasePeriod : Bool
  objs : List (Obj XThread)
  root : ℕ
  links : Links

/-- `rtapi_clock_set_period`: the return value and the new period. -/
def rtapiClockSetPeriod (resolution : Option ℕ) (clock nsecs : ℤ) : ℤ × ℤ :=
  if nsecs = 0 then (clock, clock)
  else if clock ≠ 0 then (-22, clock)
  else
    match resolution with
    | none => (toInt nsecs, toInt nsecs)
    | some res =>
      let period := toInt (Int.tdiv nsecs res * res)
      if period < 1 then (toInt res, toInt res) else (period, period)

namespace ThreadHal

variable (s : ThreadHal)

/-- `hal_data->lock & level`. -/
def locked (level : BitVec 8) : Bool := s.lock &&& level ≠ 0

/-- The thread at an entry of the list of threads. -/
def threadAt (off : ℕ) : Option (Obj XThread) := at? Obj.off off s.objs

/-- The first thread of the list of threads. -/
def firstThread : Option (Obj XThread) :=
  if s.links.next s.root = s.root then none else s.threadAt (s.links.next s.root)

/-- The period as an integer multiple of the timer period. -/
def rounded (periodNsec : ℕ) : ℤ :=
  toLong (s.basePeriod *
    toInt ((periodNsec + toUlong (Int.tdiv s.basePeriod 2)) % 18446744073709551616
      / toUlong s.basePeriod : ℕ))

/-- The descriptor allocator returns unused memory. -/
def fresh (mem : Option Alloc) : Bool :=
  mem.all fun m => m.off ≠ s.root ∧ m.off ∉ s.objs.map Obj.off

end ThreadHal

/-- The start of the timer for the first thread, and the base period. -/
def startTimer (e : ThreadEnv) (args : ThreadArgs) (s : ThreadHal) : Option Errno × ThreadHal :=
  let curr := (rtapiClockSetPeriod e.resolution s.clock 0).1
  let set := if curr = 0 then rtapiClockSetPeriod e.resolution s.clock (toLong args.periodNsec)
    else (curr, s.clock)
  let s := { s with clock := set.2 }
  if curr = 0 ∧ set.1 < 0 then (some .EINVAL, s)
  else if (args.periodNsec + args.periodNsec / 100) % 18446744073709551616 < toUlong set.1 then
    (some .EINVAL, s)
  else
    (none, { s with basePeriod := if s.exactBasePeriod then toLong args.periodNsec else set.1 })

/-- The rest of `hal_create_xthread`, after the period and the priority of the previous
thread are known. -/
def createAfter (e : ThreadEnv) (args : ThreadArgs) (new : Obj XThread) (prev : XThread)
    (s : ThreadHal) : Option Errno × ThreadHal :=
  if args.periodNsec < toUlong s.basePeriod then (some .EINVAL, s)
  else
    let period := s.rounded args.periodNsec
    if period < prev.period then (some .EINVAL, s)
    else if e.taskNew = false ∨ e.taskStart = false then (some .EINVAL, s)
    else
      let new := { new with body := ⟨period, rtapiPrioNextLower prev.priority⟩ }
      (none, { s with
        links := s.links.addBefore new.off s.root
        objs := addObject new s.objs })

/-- `hal_create_xthread`. -/
def halCreateXthread (e : ThreadEnv) (args : ThreadArgs) (s : ThreadHal) :
    Option Errno × ThreadHal :=
  if halNameLen < args.name.length then (some .EINVAL, s)
  else if s.locked halLockConfig then (some .EPERM, s)
  else if args.periodNsec = 0 then (some .EINVAL, s)
  else if (findByName args.name s.objs).isSome then (some .EINVAL, s)
  else
    match halgCreateObject e.desc 0 args.name (⟨0, 0⟩ : XThread) with
    | none => (some .ENOMEM, s)
    | some new =>
      -- `dlist_init_entry` of the header and of the functs is not modelled
      match s.firstThread with
      | none =>
        match startTimer e args s with
        | (some err, s) => (some err, s)
        | (none, s) => createAfter e args new ⟨0, rtapiPrioHighest⟩ s
      | some tptr => createAfter e args new tptr.body s

/-- `free_thread_struct`: off the list of threads, and the object. -/
def freeThread (off : ℕ) (s : ThreadHal) : ThreadHal :=
  { s with links := s.links.removeEntry off, objs := halgFreeObject off s.objs }

/-- `halg_exit_thread`: the thread of that name, or all threads. -/
def exitThread (name : Option String) (s : ThreadHal) : ThreadHal :=
  if s.locked halLockRun then s
  else
    halgForeach ThreadHal.objs (fun o => name = none || name = some o.hdr.name) freeThread s

/-- The calls. -/
inductive ThreadAct where
  | createXthread (e : ThreadEnv) (args : ThreadArgs)
  | exitThread (name : Option String)
  | sweep

/-- One call; the allocator returns unused memory. -/
def threadStep (s : ThreadHal) : ThreadAct → Option ThreadHal
  | .createXthread e args => if s.fresh e.desc then some (halCreateXthread e args s).2 else none
  | .exitThread name => some (exitThread name s)
  | .sweep => some { s with objs := sweep s.objs }

/-! ### What the operations do -/

variable {s s' : ThreadHal}

/-- The calls `hal_create_xthread` refuses by the tests it makes on its arguments and on the
first thread. -/
def rejected (s : ThreadHal) (args : ThreadArgs) : Bool :=
  halNameLen < args.name.length || s.locked halLockConfig || args.periodNsec = 0
    || (findByName args.name s.objs).isSome
    || s.firstThread.any fun t =>
      args.periodNsec < toUlong s.basePeriod || s.rounded args.periodNsec < t.body.period

/-- A creation that succeeded, with the thread it added. -/
structure Created (s : ThreadHal) (args : ThreadArgs) (s' : ThreadHal) (new : Obj XThread) :
    Prop where
  fresh : new.off ∉ s.objs.map Obj.off ∧ new.off ≠ s.root
  valid : new.hdr.valid = true
  refcnt : new.hdr.refcnt = 0
  root : s'.root = s.root
  links : s'.links = s.links.addBefore new.off s.root
  objs : s'.objs = addObject new s.objs
  first : s.firstThread = none → new.body.priority = rtapiPrioNextLower rtapiPrioHighest
  next : ∀ t, s.firstThread = some t → new.body.priority = rtapiPrioNextLower t.body.priority ∧
    t.body.period ≤ new.body.period ∧ new.body.period = s.rounded args.periodNsec
  accepted : rejected s args = false

/-- A call that leaves the threads as they are. -/
structure SameThreads (s s' : ThreadHal) : Prop where
  root : s'.root = s.root
  links : s'.links = s.links
  objs : s'.objs = s.objs

lemma startTimer_same (e : ThreadEnv) (args : ThreadArgs) (s : ThreadHal) :
    SameThreads s (startTimer e args s).2 := by
  rw [startTimer]
  generalize (if (rtapiClockSetPeriod e.resolution s.clock 0).1 = 0 then
    rtapiClockSetPeriod e.resolution s.clock (toLong args.periodNsec)
    else ((rtapiClockSetPeriod e.resolution s.clock 0).1, s.clock)) = set
  generalize (args.periodNsec + args.periodNsec / 100) % 18446744073709551616 = limit
  simp only
  split
  · exact ⟨rfl, rfl, rfl⟩
  · split
    · exact ⟨rfl, rfl, rfl⟩
    · exact ⟨rfl, rfl, rfl⟩

lemma createAfter_cases (e : ThreadEnv) (args : ThreadArgs) (new : Obj XThread) (prev : XThread)
    (s : ThreadHal) :
    ((createAfter e args new prev s).1 ≠ none ∧ (createAfter e args new prev s).2 = s) ∨
    (¬ args.periodNsec < toUlong s.basePeriod ∧ ¬ s.rounded args.periodNsec < prev.period ∧
      createAfter e args new prev s = (none, { s with
        links := s.links.addBefore new.off s.root
        objs := addObject { new with
          body := ⟨s.rounded args.periodNsec, rtapiPrioNextLower prev.priority⟩ } s.objs })) := by
  rw [createAfter]
  split
  · exact .inl ⟨by simp, rfl⟩
  · next h1 =>
    simp only
    split
    · exact .inl ⟨by simp, rfl⟩
    · next h2 =>
      split
      · exact .inl ⟨by simp, rfl⟩
      · exact .inr ⟨h1, h2, rfl⟩

/-- A new thread object, before it is on any list. -/
lemma fresh_new {e : ThreadEnv} {name : String} {new : Obj XThread} (hf : s.fresh e.desc = true)
    (hnew : halgCreateObject e.desc 0 name (⟨0, 0⟩ : XThread) = some new) :
    (new.off ∉ s.objs.map Obj.off ∧ new.off ≠ s.root) ∧ new.hdr.valid = true ∧
      new.hdr.refcnt = 0 := by
  obtain ⟨m, hm, hoff, -, hv, -⟩ := halgCreateObject_eq hnew
  rw [hm] at hf
  simp only [ThreadHal.fresh, Option.all_some, decide_eq_true_eq] at hf
  exact ⟨by rw [hoff]; exact ⟨hf.2, hf.1⟩, hv, halgCreateObject_refcnt hnew⟩

/-- **What `hal_create_xthread` can do**: fail and leave the threads alone, or add one. -/
lemma halCreateXthread_cases {e : ThreadEnv} (args : ThreadArgs) (hf : s.fresh e.desc = true) :
    ((halCreateXthread e args s).1 ≠ none ∧ SameThreads s (halCreateXthread e args s).2) ∨
    ((halCreateXthread e args s).1 = none ∧
      ∃ new, Created s args (halCreateXthread e args s).2 new) := by
  have hsame : SameThreads s s := ⟨rfl, rfl, rfl⟩
  rw [halCreateXthread]
  split
  · exact .inl ⟨by simp, hsame⟩
  next hlen =>
  split
  · exact .inl ⟨by simp, hsame⟩
  next hlock =>
  split
  · exact .inl ⟨by simp, hsame⟩
  next hzero =>
  split
  · exact .inl ⟨by simp, hsame⟩
  next hdup =>
  split
  · exact .inl ⟨by simp, hsame⟩
  next new hnew =>
  obtain ⟨hfresh, hv, hr⟩ := fresh_new hf hnew
  cases hfirst : s.firstThread with
  | none =>
    have hrej : rejected s args = false := by
      simp [rejected, hfirst, hlen, hlock, hzero, hdup]
    have ht := startTimer_same e args s
    rcases hstart : startTimer e args s with ⟨_ | err, u⟩
    · rw [hstart] at ht
      simp only
      rcases createAfter_cases e args new ⟨0, rtapiPrioHighest⟩ u with
        ⟨hne, hu⟩ | ⟨-, -, hu⟩
      · exact .inl ⟨hne, by rw [hu]; exact ht⟩
      · refine .inr ⟨by rw [hu], { new with
          body := ⟨u.rounded args.periodNsec, rtapiPrioNextLower rtapiPrioHighest⟩ }, ?_⟩
        rw [hu]
        exact ⟨hfresh, hv, hr, ht.root, by rw [← ht.links, ← ht.root], by rw [← ht.objs],
          fun _ => rfl, by simp [hfirst], hrej⟩
    · rw [hstart] at ht
      exact .inl ⟨by simp, ht⟩
  | some tptr =>
    simp only
    rcases createAfter_cases e args new tptr.body s with ⟨hne, hu⟩ | ⟨hbase, hper, hu⟩
    · exact .inl ⟨hne, by rw [hu]; exact hsame⟩
    · have hrej : rejected s args = false := by
        simp [rejected, hfirst, hlen, hlock, hzero, hdup, hbase, hper]
      refine .inr ⟨by rw [hu], { new with
        body := ⟨s.rounded args.periodNsec, rtapiPrioNextLower tptr.body.priority⟩ }, ?_⟩
      rw [hu]
      refine ⟨hfresh, hv, hr, rfl, rfl, rfl, by simp [hfirst], ?_, hrej⟩
      intro t ht
      rw [hfirst] at ht
      cases ht
      exact ⟨rfl, not_lt.1 hper, rfl⟩

end MachinekitHal.Threads
