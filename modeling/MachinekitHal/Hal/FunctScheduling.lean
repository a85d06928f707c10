import MachinekitHal.Lib.Runs
import MachinekitHal.Hal.Scheduling

/-!
Functs and threads over whole runs.

* `SchedSys`: the HAL and, as history, the blocks of HAL memory taken for funct
  entries.
* `SchedAct`, `schedStep`: exporting and deleting functs, adding them to threads and
  taking them off, deleting threads, instances and components. The teardown of
  components with destructors is there in pieces, since other operations run between
  them.
* `FunctScheduling`: what is true of the entries and of `users`; `funct_scheduling`: it
  is true in every state reached.
-/

namespace MachinekitHal

open Store Runs

/-- The HAL and the blocks taken for funct entries. -/
structure SchedSys where
  hal : Hal
  entries : List ℕ

/-- The operations on functs and threads. -/
inductive SchedAct where
  | exportFunct (mem : Option Alloc) (xf : HalExportXfunctArgs) (name : String)
  | addThread (mem : Option Alloc) (name : String) (usesFp : Bool)
  | addFunct (mem : ℕ) (functName threadName : String) (position rmb wmb : ℤ)
  | delFunct (functName threadName : String)
  | functDelete (off : ℕ)
  | exitThread (name : Option String)
  | instDelete (name : String)
  | exit (compId : ℤ)
  /-- the functs of a component or an instance that is being torn down -/
  | freeFuncts (ownerId : ℤ)
  /-- an instance, after its destructor ran -/
  | freeInst (off : ℕ)
  /-- a component, after the destructors of its instances ran -/
  | freeComp (off : ℕ)
  | sweep

/-- One operation, whether it succeeds or fails. -/
def schedStep (s : SchedSys) : SchedAct → Option SchedSys
  | .exportFunct mem xf name => some { s with hal := (s.hal.halgExportXfunctfv mem xf name).2 }
  | .addThread mem name usesFp => some { s with hal := (s.hal.addThread mem name usesFp).2 }
  | .addFunct mem functName threadName position rmb wmb =>
    let r := s.hal.halAddFunctToThread mem functName threadName position rmb wmb
    some { hal := r.2, entries := if r.1 = none then takenEntries s.hal mem s.entries
                                  else s.entries }
  | .delFunct functName threadName =>
    some { s with hal := (s.hal.halDelFunctFromThread functName threadName).2 }
  | .functDelete off =>
    match at? Obj.off off s.hal.functs with
    | some f => if f.hdr.valid then some { s with hal := s.hal.freeFunctStruct off } else none
    | none => none
  | .exitThread name => some { s with hal := (s.hal.halgExitThread name).2 }
  | .instDelete name => some { s with hal := (s.hal.halgInstDelete name).2 }
  | .exit compId => some { s with hal := (s.hal.halgExit compId).2 }
  | .freeFuncts ownerId => some { s with hal := s.hal.freeFunctsOf ownerId }
  | .freeInst off =>
    (at? Obj.off off s.hal.insts).map fun inst => { s with hal := s.hal.freeInstRest inst }
  | .freeComp off =>
    (at? Obj.off off s.hal.comps).map fun comp => { s with hal := s.hal.freeCompRest comp }
  | .sweep =>
    some { s with
      hal := { s.hal with functs := sweep s.hal.functs, threads := sweep s.hal.threads } }

/-- New descriptors are in free memory, and HAL memory is handed out once. -/
def schedAlloc (s : SchedSys) : SchedAct → Bool
  | .exportFunct mem .. => s.hal.fresh mem
  | .addThread mem .. => s.hal.fresh mem
  | .addFunct mem .. => mem ∉ s.entries
  | _ => true

/-- Every operation keeps the bookkeeping. -/
lemma Scheduling.step {s s' : SchedSys} {a : SchedAct} (hS : Scheduling s.hal s.entries)
    (hok : schedAlloc s a = true) (hs : schedStep s a = some s') :
    Scheduling s'.hal s'.entries := by
  cases a with
  | exportFunct mem xf name =>
    cases hs
    exact hS.halgExportXfunctfv hok xf name
  | addThread mem name usesFp =>
    cases hs
    exact hS.addThread hok name usesFp
  | addFunct mem functName threadName position rmb wmb =>
    cases hs
    have hm : mem ∉ s.entries := by simpa [schedAlloc] using hok
    obtain ⟨hfail, hsucc⟩ := hS.halAddFunctToThread hm functName threadName position rmb wmb
    dsimp only
    split_ifs with hrc
    · exact hsucc hrc
    · exact (hfail hrc).symm ▸ hS
  | delFunct functName threadName =>
    cases hs
    exact hS.halDelFunctFromThread functName threadName
  | functDelete off =>
    simp only [schedStep] at hs
    cases hat : at? Obj.off off s.hal.functs with
    | none => simp [hat] at hs
    | some f =>
      obtain ⟨hf, rfl⟩ := (at?_eq_some hS.functKeys).1 hat
      simp only [hat] at hs
      split_ifs at hs with hv
      cases hs
      exact hS.freeFunctStruct hf hv
  | exitThread name =>
    cases hs
    exact hS.halgExitThread name
  | instDelete name =>
    cases hs
    exact hS.halgInstDelete name
  | exit compId =>
    cases hs
    exact hS.halgExit compId
  | freeFuncts ownerId =>
    cases hs
    exact hS.freeFunctsOf ownerId
  | freeInst off =>
    obtain ⟨inst, -, rfl⟩ := Option.map_eq_some_iff.1 hs
    exact hS.freeInstRest inst
  | freeComp off =>
    obtain ⟨comp, -, rfl⟩ := Option.map_eq_some_iff.1 hs
    exact hS.freeCompRest comp
  | sweep =>
    cases hs
    exact hS.sweep

/-- The entries on the lists of the threads that exist. -/
def Hal.liveEntries (h : Hal) : List FunctEntry :=
  (h.threads.filter fun t => t.hdr.valid).flatMap fun t => t.body.functList

/-- The state of the bookkeeping. -/
structure FunctScheduling (s : SchedSys) : Prop where
  /-- every funct entry is on one of the thread lists or the free list, once -/
  oneList : ∀ off ∈ s.entries,
    ((s.hal.liveEntries ++ s.hal.functEntryFree).map FunctEntry.off).count off = 1
  /-- and nothing else is -/
  listed : ∀ e ∈ s.hal.liveEntries ++ s.hal.functEntryFree, e.off ∈ s.entries
  /-- `users` is the number of entries that refer to the funct -/
  users : ∀ f ∈ s.hal.functs, f.hdr.valid = true → f.body.users = uses f.off s.hal.liveEntries
  /-- a non-reentrant funct has one entry at most -/
  nonreentrant : ∀ f ∈ s.hal.functs, f.hdr.valid = true → f.body.reentrant = false →
    uses f.off s.hal.liveEntries ≤ 1
  /-- no entry refers to a funct that was freed -/
  live : ∀ e ∈ s.hal.liveEntries, ∃ f ∈ s.hal.functs, f.hdr.valid = true ∧ f.off = e.functPtr

/-- The invariant says all of it. -/
lemma Scheduling.functScheduling {s : SchedSys} (hS : Scheduling s.hal s.entries) :
    FunctScheduling s := by
  have hte : s.hal.liveEntries = s.hal.threadEntries := flatMap_sweep hS.freed
  have hmem : ∀ off, off ∈ (s.hal.threadEntries ++ s.hal.functEntryFree).map FunctEntry.off ↔
      off ∈ s.entries := fun off => hS.lists.mem_iff
  refine ⟨?_, ?_, ?_, ?_, ?_⟩
  · intro off hoff
    rw [hte]
    refine List.count_eq_one_of_mem ?_ ((hmem off).2 hoff)
    exact hS.lists.nodup_iff.2 hS.nodup
  · intro e he
    rw [hte] at he
    exact (hmem e.off).1 (List.mem_map_of_mem he)
  · rw [hte]
    exact hS.users
  · intro f hf hv hr
    have h1 := hS.nonreentrant f hf hv hr
    have hu := hS.users f hf hv
    rw [hte]
    omega
  · rw [hte]
    exact hS.live

/-- A HAL in which no funct was exported: threads, if any, run nothing. -/
structure Hal.Unscheduled (h : Hal) : Prop where
  functs : h.functs = []
  free : h.functEntryFree = []
  threads : ∀ t ∈ h.threads, t.body.functList = []
  keys : (h.threads.map Obj.off).Nodup

lemma Scheduling.of_unscheduled {h : Hal} (h0 : h.Unscheduled) : Scheduling h [] := by
  have hte : h.threadEntries = [] := List.flatMap_eq_nil_iff.2 h0.threads
  refine ⟨?_, h0.keys, ?_, ?_, List.nodup_nil, ?_, ?_, ?_, fun t ht _ => h0.threads t ht⟩
  · simp [h0.functs]
  · simp [h0.functs]
  · simp [hte, h0.free]
  · simp [h0.functs]
  · simp [h0.functs]
  · simp [hte]

/-- **Funct and thread bookkeeping.** In every run from a HAL without functs the entries,
the use counts and the lists are right in every state. -/
theorem funct_scheduling {h₀ : Hal} {s : SchedSys} (h0 : h₀.Unscheduled)
    (hr : Reach schedStep (fun s a => schedAlloc s a = true) ⟨h₀, []⟩ s) : FunctScheduling s := by
  have hS : Scheduling s.hal s.entries :=
    hr.invariant (P := fun s => Scheduling s.hal s.entries) (Scheduling.of_unscheduled h0)
      fun hS hok hs => hS.step hok hs
  exact hS.functScheduling

/-- A HAL with one component that is still loading. -/
def loadingComp : Hal :=
  { lock := 0, halSize := 4096
    comps := [⟨64, ⟨1, 0, "comp", 0, false, true, false, false⟩,
      ⟨.typeRt, .compInitializing, 8192⟩⟩]
    insts := [], pins := [], sigs := [], functs := [], threads := [], functEntryFree := []
    cells := fun _ => none }

/-- A reentrant funct on two threads and a second funct on one; the first thread and
then the second funct are deleted, and an entry is used again. -/
def threadAndBack : List SchedAct :=
  [.exportFunct (some ⟨128, 2⟩) ⟨.fsXthreadfunc, 1, 0, false, true, 1⟩ "update",
    .exportFunct (some ⟨256, 3⟩) ⟨.fsXthreadfunc, 2, 0, false, false, 1⟩ "write",
    .addThread (some ⟨384, 4⟩) "fast" true, .addThread (some ⟨512, 5⟩) "slow" true,
    .addFunct 1024 "update" "fast" 1 0 0, .addFunct 1088 "update" "slow" (-1) 0 0,
    .addFunct 1152 "write" "slow" (-1) 0 0, .exitThread (some "fast"), .functDelete 256,
    .addFunct 1216 "update" "slow" 1 0 0]

/-- One funct is left, with two users. -/
theorem funct_scheduling_threadAndBack : ∃ s,
    run schedStep schedAlloc ⟨loadingComp, []⟩ threadAndBack = some s ∧
    (s.hal.functs.map fun f => f.body.users) = [2, 0] ∧ FunctScheduling s := by
  have hs : (run schedStep schedAlloc ⟨loadingComp, []⟩ threadAndBack).map
      (fun s => s.hal.functs.map fun f => f.body.users) = some [2, 0] := by decide
  obtain ⟨s, hs, hv, hr⟩ := run_map hs
  have h0 : loadingComp.Unscheduled := ⟨rfl, rfl, by simp [loadingComp], by simp [loadingComp]⟩
  exact ⟨s, hs, hv, funct_scheduling h0 hr⟩

end MachinekitHal
