import MachinekitHal.Hal.Teardown
import MachinekitHal.Hal.GroupMembers
import MachinekitHal.Hal.PlugAccounts
import MachinekitHal.Hal.SignalLinkage

/-!
What `halg_exit` answers.

* `ExitState`: the HAL of a process and the modules it has taken leave of; `ExitState.halgExit`
  is `halg_exit` with what follows the teardown.
* `OwnedHal.Held`: a component or one of its objects is referenced.
* `ExitTruthful`: the answer is 0 if the component was removed only, a component that is held is
  not removed, and a call that fails changes nothing.
* `ExitState.halgExit_toHal`: the HAL changes as by `Hal.halgExit`.
* `component_exit`: the answer is true exactly if the component, if any, is not held.
* `component_exit_fails`: a referenced component is not removed, and the answer is 0.
-/

namespace MachinekitHal

open Store

/-- The HAL, unless the process has given up its segment, and the modules `rtapi_exit` was called
for, which has no other effect. -/
structure ExitState where
  hal : Option OwnedHal
  exited : List ℤ

/-- `halg_exit`. -/
def ExitState.halgExit (rtapi : Bool) (d : Destructor) (compId : ℤ) (s : ExitState) :
    Option Errno × ExitState :=
  match s.hal with
  | none => (some .EINVAL, s)
  | some h =>
    match findById compId h.comps with
    | none => (some .EINVAL, s)
    | some comp =>
      let comptype := comp.body.type
      let h := (h.freeCompStruct rtapi d comp).2
      -- with `hal_lib` the HAL segment goes, and what its deletion returns is only logged
      if comptype = .typeHallib then (none, { hal := none, exited := compId :: s.exited })
      else (none, { hal := some h, exited := compId :: s.exited })

namespace OwnedHal

variable (h : OwnedHal)

/-- The headers of the valid objects that have an owner. -/
def ownedHdrs : List Halhdr :=
  (h.functs.map Obj.hdr ++ h.insts.map Obj.hdr ++ h.pins.map Obj.hdr ++ h.params.map Obj.hdr
    ++ h.plugs.map Obj.hdr ++ h.vtables.map Obj.hdr).filter Halhdr.valid

/-- An object is owned by a component, directly or through an instance. -/
def OwnedBy (comp : Obj Comp) (hh : Halhdr) : Prop :=
  hh.ownerId = comp.hdr.id ∨ ∃ inst ∈ h.insts, inst.hdr.valid = true ∧
    inst.hdr.ownerId = comp.hdr.id ∧ hh.ownerId = inst.hdr.id

/-- A component or one of its objects is referenced. -/
def Held (comp : Obj Comp) : Prop :=
  comp.hdr.refcnt ≠ 0 ∨ ∃ hh ∈ h.ownedHdrs, h.OwnedBy comp hh ∧ hh.refcnt ≠ 0

end OwnedHal

/-- `halg_exit` says what it did. -/
structure ExitTruthful (rtapi : Bool) (d : Destructor) (compId : ℤ) (s : ExitState) : Prop where
  removed : (s.halgExit rtapi d compId).1 = none → ∃ h comp, s.hal = some h ∧
    findById compId h.comps = some comp ∧ ∀ h', (s.halgExit rtapi d compId).2.hal = some h' →
      ∀ o ∈ h'.comps, o.off = comp.off → o.hdr.valid = false
  held : ∀ h comp, s.hal = some h → findById compId h.comps = some comp → h.Held comp →
    (s.halgExit rtapi d compId).1 ≠ none
  failed : (s.halgExit rtapi d compId).1 ≠ none → (s.halgExit rtapi d compId).2 = s

/-! ### The components during a teardown -/

section Comps

variable {h : Hal} {s : OwnedHal}

lemma removeEntry_comps (off : ℕ) (e : FunctEntry) : (h.removeEntry off e).comps = h.comps := by
  rw [Hal.removeEntry, Hal.freeFunctEntryStruct]
  split_ifs <;> rfl

lemma removeEntries_comps (sel : FunctEntry → Bool) (off : ℕ) :
    (h.removeEntries sel off).comps = h.comps := by
  rw [Hal.removeEntries]
  split
  · rfl
  · next thread hat =>
      clear hat
      generalize thread.body.functList = es
      induction es generalizing h with
      | nil => rfl
      | cons e es ih =>
        rw [List.foldl_cons, ih]
        split_ifs
        · exact removeEntry_comps off e
        · rfl

lemma freeFunctStruct_comps (off : ℕ) : (h.freeFunctStruct off).comps = h.comps := by
  rw [Hal.freeFunctStruct]
  split
  · rfl
  · dsimp only
    split_ifs
    · exact halgForeach_rule (P := fun g : Hal => g.comps = h.comps)
        (fun g _ hg _ _ _ => (removeEntries_comps _ _).trans hg) rfl
    · rfl

lemma freePinStruct_comps (off : ℕ) : (h.freePinStruct off).comps = h.comps :=
  (SameObjs.unlinkPin (h := h) ⟨rfl, rfl, rfl, rfl, rfl, rfl, rfl⟩ off).comps

lemma freeFunctsOf_comps (id : ℤ) : (s.freeFunctsOf id).comps = s.comps :=
  halgForeach_rule (P := fun g : Hal => g.comps = s.comps)
    (fun _ o hg _ _ _ => (freeFunctStruct_comps o.off).trans hg) rfl

lemma halgPlugDelete_toHal (plug : ℕ) (t : PlugHal) :
    (halgPlugDelete plug t).2.toHal = t.toHal := by
  have hdetach : ∀ (rb : ℕ) (r : RingHal), (halgRingDetach rb r).2.toHal = r.toHal := by
    intro rb r
    rw [halgRingDetach]
    split_ifs
    · rfl
    · rfl
    · exact setHeader_toHal r _ _
  rw [halgPlugDelete]
  split_ifs
  · rfl
  · split
    · rfl
    · split_ifs
      · rfl
      · exact (hdetach _ _).trans (setHeader_toHal t.toRingHal _ _)

/-- Params and plugs are beside the HAL proper. -/
lemma freeRest_toHal (id : ℤ) : (s.freeRest id).toHal = s.toHal.freePinsOf id := by
  have hparams (s : OwnedHal) : (s.freeParamsOf id).toHal = s.toHal :=
    halgForeach_rule (P := fun t : OwnedHal => t.toHal = s.toHal) (fun _ _ hg _ _ _ => hg) rfl
  have hplugs (s : OwnedHal) : (s.freePlugsOf id).toHal = s.toHal :=
    halgForeach_rule (P := fun t : OwnedHal => t.toHal = s.toHal)
      (fun t o hg _ _ _ => (halgPlugDelete_toHal o.off t.toPlugHal).trans hg) rfl
  rw [OwnedHal.freeRest, hplugs, hparams]
  rfl

lemma freeRest_comps (id : ℤ) : (s.freeRest id).comps = s.comps := by
  rw [freeRest_toHal]
  exact halgForeach_rule (P := fun g : Hal => g.comps = s.comps)
    (fun _ o hg _ _ _ => (freePinStruct_comps o.off).trans hg) rfl

variable {rtapi : Bool} {d : Destructor}

lemma freeInstStruct_comps (inst : Obj Inst) : (s.freeInstStruct rtapi d inst).comps = s.comps := by
  rw [OwnedHal.freeInstStruct]
  dsimp only
  rw [freeRest_comps]
  cases rtapi with
  | false => rfl
  | true =>
    rw [if_pos rfl, (d.objects inst (s.freeFunctsOf inst.hdr.id.toInt)).hal]
    exact freeFunctsOf_comps _

lemma freeInstsOf_comps (id : ℤ) : (s.freeInstsOf rtapi d id).comps = s.comps := by
  refine halgForeach_rule (P := fun t : OwnedHal => t.comps = s.comps) (fun t o hg _ _ _ => ?_) rfl
  rw [OwnedHal.freeInstAt]
  split
  · exact (freeInstStruct_comps _).trans hg
  · exact hg

/-- **`free_comp_struct`** removes a component that is not referenced, and no other. -/
lemma freeCompStruct_comps {comp : Obj Comp} (hr : comp.hdr.refcnt = 0) :
    (s.freeCompStruct rtapi d comp).2.comps = halgFreeObject comp.off s.comps := by
  rw [OwnedHal.freeCompStruct, if_neg (not_not.2 hr)]
  dsimp only
  rw [freeRest_comps]
  cases rtapi with
  | false => rfl
  | true => rw [if_pos rfl, freeInstsOf_comps, freeFunctsOf_comps]

lemma freeInstStruct_toHal (inst : Obj Inst) :
    (s.freeInstStruct true d inst).toHal = s.toHal.freeInstStruct inst := by
  rw [OwnedHal.freeInstStruct, if_pos rfl, Hal.freeInstStruct, Hal.freeInstRest]
  dsimp only
  rw [freeRest_toHal, (d.objects inst _).hal]
  rfl

/-- With realtime the objects that `Hal` has go as in `Hal.freeCompStruct`. -/
lemma freeCompStruct_toHal (comp : Obj Comp) :
    (s.freeCompStruct true d comp).2.toHal = (s.toHal.freeCompStruct comp).2 := by
  have hinsts (s : OwnedHal) (id : ℤ) : (s.freeInstsOf true d id).toHal =
      halgForeach Hal.insts (ownedBy id) (fun off h => h.freeInstAt off) s.toHal := by
    refine halgForeach_map (e := fun s : OwnedHal => s.toHal) (T := fun o => o) (fun s => by simp)
      (fun _ => rfl) (fun _ => rfl) (fun off s => ?_) s
    rw [OwnedHal.freeInstAt, Hal.freeInstAt]
    cases at? Obj.off off s.insts with
    | none => rfl
    | some inst => exact freeInstStruct_toHal inst
  rw [OwnedHal.freeCompStruct, Hal.freeCompStruct]
  split_ifs
  · rfl
  · dsimp only
    rw [freeRest_toHal, hinsts]
    rfl
  · contradiction

end Comps

/-! ### The result -/

variable {s : ExitState}

/-- As long as there is a HAL, it changes as by `Hal.halgExit`. -/
theorem ExitState.halgExit_toHal {h : OwnedHal} (hs : s.hal = some h) (d : Destructor)
    (compId : ℤ) : (s.halgExit true d compId).1 = (h.toHal.halgExit compId).1 ∧
      ∀ h', (s.halgExit true d compId).2.hal = some h' →
        h'.toHal = (h.toHal.halgExit compId).2 := by
  rw [ExitState.halgExit, Hal.halgExit, hs]
  dsimp only
  cases findById compId h.comps with
  | none => exact ⟨rfl, fun h' hh' => by rw [← Option.some.inj (hs.symm.trans hh')]⟩
  | some comp =>
    dsimp only
    split_ifs
    · exact ⟨rfl, by simp⟩
    · refine ⟨rfl, fun h' hh' => ?_⟩
      rw [← Option.some.inj hh']
      exact freeCompStruct_toHal comp

/-- **`halg_exit`** tells the truth exactly if the component it finds, if any, is not held: it
does not look at what the teardown could not free. -/
theorem component_exit (hnd : ∀ h, s.hal = some h → (h.comps.map Obj.off).Nodup) (rtapi : Bool)
    (d : Destructor) (compId : ℤ) : ExitTruthful rtapi d compId s ↔
      ∀ h comp, s.hal = some h → findById compId h.comps = some comp → ¬ h.Held comp := by
  cases hs : s.hal with
  | none =>
      have hexit : s.halgExit rtapi d compId = (some .EINVAL, s) := by simp [ExitState.halgExit, hs]
      refine iff_of_true ⟨?_, ?_, fun _ => by rw [hexit]⟩ (by simp)
      · simp [hexit]
      · simp [hs]
  | some h =>
  cases hfind : findById compId h.comps with
  | none =>
      have hexit : s.halgExit rtapi d compId = (some .EINVAL, s) := by
        simp [ExitState.halgExit, hs, hfind]
      have hnone : ∀ h' comp, some h = some h' → findById compId h'.comps ≠ some comp := by
        intro h' comp hh'
        rw [← Option.some.inj hh', hfind]
        simp
      refine iff_of_true ⟨?_, ?_, fun _ => by rw [hexit]⟩
        fun h' comp hh' hcomp => absurd hcomp (hnone h' comp hh')
      · simp [hexit]
      · exact fun h' comp hh' hcomp => absurd hcomp (hnone h' comp (hs.symm.trans hh'))
  | some comp =>
  have hzero : (s.halgExit rtapi d compId).1 = none := by
    simp only [ExitState.halgExit, hs, hfind]
    split_ifs <;> rfl
  constructor
  · rintro htrue h' comp' hh' hcomp' hheld
    exact htrue.held h' comp' (hs.trans hh') hcomp' hheld hzero
  · intro hfree
    have hno := hfree h comp rfl hfind
    refine ⟨fun _ => ⟨h, comp, hs, hfind, ?_⟩, ?_, fun hne => absurd hzero hne⟩
    · -- nothing was referenced, so the descriptor of the component is released
      have hr : comp.hdr.refcnt = 0 := by
        by_contra hr
        exact hno (.inl hr)
      intro h' hh' o ho hoff
      simp only [ExitState.halgExit, hs, hfind] at hh'
      split_ifs at hh' with htype
      rw [← Option.some.inj hh', freeCompStruct_comps hr] at ho
      obtain ⟨a, ha, rfl⟩ := mem_modify.1 ho
      have hao : a.off = comp.off := by
        by_cases hk : a.off = comp.off
        · exact hk
        · rwa [if_neg hk] at hoff
      rw [if_pos hao]
      obtain rfl := eq_of_key (hnd h hs) ha (findById_mem hfind).1 hao
      exact Obj.release_valid hr
    · intro h' comp' hh' hcomp' hheld
      cases hs.symm.trans hh'
      cases hfind.symm.trans hcomp'
      exact absurd hheld hno

/-- Instances without a destructor. -/
def noDestructor : Destructor := ⟨fun _ s => s, fun _ _ => ⟨rfl, rfl, rfl, rfl, fun _ _ => rfl⟩⟩

/-- A remote component that is referenced `refcnt` times. -/
def acquiredComp (refcnt : BitVec 7) : Obj Comp :=
  ⟨64, ⟨1, 0, "comp", refcnt, false, true, false, false⟩, ⟨.typeRemote, .compBound, 8192⟩⟩

/-- A pin of it. -/
def acquiredPin (off : ℕ) (id : Int16) (name : String) : Obj Pin :=
  ⟨off, ⟨id, 1, name, 0, false, true, false, false⟩, ⟨none, .dummysig off, 0, 0, .halBit, .halOut⟩⟩

/-- A HAL with this component and two pins. -/
def heldComp (refcnt : BitVec 7) : ExitState :=
  { hal := some { noPlugs with
      comps := [acquiredComp refcnt]
      pins := [acquiredPin 128 2 "comp.a", acquiredPin 256 3 "comp.b"]
      params := []
      vtables := [] }
    exited := [] }

lemma heldComp_nodup (refcnt : BitVec 7) :
    ∀ h, (heldComp refcnt).hal = some h → (h.comps.map Obj.off).Nodup := by
  intro h hh
  rw [← Option.some.inj hh]
  exact List.nodup_singleton _

/-- A component that is not referenced goes with its pins. -/
theorem component_exit_free :
    (ExitTruthful false noDestructor 1 (heldComp 0) ↔
      ∀ h comp, (heldComp 0).hal = some h → findById 1 h.comps = some comp → ¬ h.Held comp) ∧
    ((heldComp 0).halgExit false noDestructor 1).2.hal.map (fun h =>
      (h.comps.map (·.hdr.valid), h.pins.map (·.hdr.valid))) = some ([false], [false, false]) :=
  ⟨component_exit (heldComp_nodup 0) false noDestructor 1, by decide⟩

/-- The component is referenced, as by `halg_acquire`: the answer is 0, and it is still there, but
its module is not. -/
theorem component_exit_fails : ¬ ∀ (s : ExitState) (compId : ℤ),
    (∀ h, s.hal = some h → (h.comps.map Obj.off).Nodup) →
    ExitTruthful false noDestructor compId s := by
  intro hall
  have htrue := hall (heldComp 1) 1 (heldComp_nodup 1)
  have hzero : ((heldComp 1).halgExit false noDestructor 1).1 = none := by decide
  obtain ⟨h, comp, hh, hfind, hgone⟩ := htrue.removed hzero
  refine htrue.held h comp hh hfind (.inl ?_) hzero
  cases hh
  have hcomp : comp = acquiredComp 1 := List.mem_singleton.1 (findById_mem hfind).1
  rw [hcomp]
  decide

end MachinekitHal
