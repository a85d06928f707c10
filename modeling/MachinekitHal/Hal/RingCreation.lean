import MachinekitHal.Lib.Runs
import MachinekitHal.Hal.Ring

/-!
Rings and ring ids.

* `RingChange`: what one call can do to the rings and the id bitmap; `ringStep_change`
  says that it can do nothing else.
* `RingIds`: every valid ring carries an id of its own whose bit is set.
* `ring_creation_atomic`: a failing `halg_ring_newfv` leaves the valid rings and the
  bitmap alone exactly if it did not find a ring of the name it was given, and while no
  call does, the set bits are exactly the ids of the valid rings.
* `ring_creation_duplicate`: a second `halg_ring_newfv` with the same name frees the first
  ring, whose id stays taken.
-/

namespace MachinekitHal

open Store Runs

/-- The ring whose name the call gives to `halg_ring_newfv`. -/
def RingAct.existing (s : RingHal) : RingAct → Option (Obj HalRing)
  | .ringNewfv _ _ _ mode fmt => s.existing mode fmt
  | _ => none

/-- What a call can do to the rings and the bitmap. -/
inductive RingChange (s : RingHal) (a : RingAct) (s' : RingHal) : Prop where
  | same (hrings : s'.rings = s.rings) (hobjs : s'.ringObjs = s.ringObjs)
  | zap (o : Obj HalRing) (ho : o ∈ s.ringObjs) (hex : a.existing s = some o)
      (hrings : s'.rings = s.rings)
      (hobjs : s'.ringObjs = halgFreeObject o.off s.ringObjs)
  | create (id : ℕ) (new : Obj HalRing) (hid : s.nextRingId = some id)
      (hoff : new.off ∉ s.ringObjs.map Obj.off) (hv : new.hdr.valid = true)
      (hring : new.body.ringId = id) (hkey : new.body.shmkey = ringKey s.rtapiInstance id)
      (hmode : ∃ e size spSize fmt, a = .ringNewfv e size spSize new.body.flags fmt)
      (hrings : s'.rings = Function.update s.rings id true)
      (hobjs : s'.ringObjs = addObject new s.ringObjs)
  | delete (o : Obj HalRing) (ho : o ∈ s.ringObjs) (hv : o.hdr.valid = true)
      (hrings : s'.rings = Function.update s.rings o.body.ringId false)
      (hobjs : s'.ringObjs = halgFreeObject o.off s.ringObjs) (hnew : o ∉ s'.ringObjs)
  | sweep (hrings : s'.rings = s.rings) (hobjs : s'.ringObjs = sweep s.ringObjs)

/-- What any call does: the instance number stays, the rings change in one of these ways. -/
structure RingEffect (s : RingHal) (a : RingAct) (s' : RingHal) : Prop where
  inst : s'.rtapiInstance = s.rtapiInstance
  change : RingChange s a s'

/-- Every valid ring carries an id of its own, whose bit is set, and the key made from it. -/
structure RingIds (s : RingHal) : Prop where
  nodup : (s.ringObjs.map Obj.off).Nodup
  reserved : s.rings 0 = true
  used : ∀ o ∈ s.ringObjs, o.hdr.valid = true →
    s.rings o.body.ringId = true ∧ o.body.ringId ≠ 0 ∧ o.body.ringId < halMaxRings ∧
      o.body.shmkey = ringKey s.rtapiInstance o.body.ringId
  inj : ∀ o ∈ s.ringObjs, ∀ o' ∈ s.ringObjs, o.hdr.valid = true → o'.hdr.valid = true →
    o.body.ringId = o'.body.ringId → o = o'

/-- The set bits of the bitmap, the reserved one apart, are the ids of the valid rings. -/
def BitmapExact (s : RingHal) : Prop :=
  ∀ id, id ≠ 0 → (s.rings id = true ↔ ∃ o ∈ s.ringObjs, o.hdr.valid = true ∧ o.body.ringId = id)

/-- The state before any ring exists; segments of other users may be mapped. -/
structure RingHal.NoRings (s : RingHal) : Prop where
  objs : s.ringObjs = []
  rings : ∀ id, s.rings id = decide (id = 0)
  slots : ∀ i, (s.shmems i).magic = true → ∀ id < halMaxRings,
    (s.shmems i).key ≠ ringKey s.rtapiInstance id

/-! ### Frames -/

section Frames

variable (s : RingHal) (e : RingEnv) (r : HalRing) (loc : RingLoc) (rh : RingHeader)

@[simp] lemma setHeader_rings : (s.setHeader loc rh).rings = s.rings := by cases loc <;> rfl

@[simp] lemma setHeader_ringObjs : (s.setHeader loc rh).ringObjs = s.ringObjs := by
  cases loc <;> rfl

@[simp] lemma setHeader_toHal : (s.setHeader loc rh).toHal = s.toHal := by cases loc <;> rfl

@[simp] lemma setHeader_rtapiInstance : (s.setHeader loc rh).rtapiInstance = s.rtapiInstance := by
  cases loc <;> rfl

variable {s e r loc}

/-- Mapping a ring writes to the table of segments only. -/
lemma ringMap_frame {x : Except Errno RingLoc} {t : RingHal} (h : ringMap e r s = (x, t)) :
    ∃ a, t = { s with shmems := a } := by
  rw [ringMap] at h
  split_ifs at h
  · exact ⟨s.shmems, (Prod.mk.inj h).2.symm⟩
  · split at h
    · exact ⟨_, (Prod.mk.inj h).2.symm⟩
    · split at h <;> exact ⟨_, (Prod.mk.inj h).2.symm⟩

lemma ringUnmap_frame {x : Option Errno} {t : RingHal} (h : ringUnmap loc s = (x, t)) :
    ∃ a, t = { s with shmems := a } := by
  cases loc with
  | halmem off => exact ⟨s.shmems, (Prod.mk.inj h).2.symm⟩
  | shm i => exact ⟨_, (Prod.mk.inj h).2.symm⟩

end Frames

/-! ### What a call does -/

variable {s s' s₀ : RingHal}

/-- `halg_ring_newfv` on the rings. -/
lemma halgRingNewfv_effect (e : RingEnv) (size spSize : ℤ) (mode : ℕ) (fmt : Option String)
    (hf : s.fresh e.desc = true) :
    RingEffect s (.ringNewfv e size spSize mode fmt)
      (halgRingNewfv e size spSize mode fmt s).2 := by
  rcases halgRingNewfv_cases e size spSize mode fmt s with
    ⟨-, h⟩ | ⟨o, ho, h⟩ | ⟨id, m, new, loc, t, -, hid, hm, hoff, hv, -, hbody, halloc, h⟩
  · rw [h]
    exact ⟨rfl, .same rfl rfl⟩
  · rw [h]
    exact ⟨rfl, .zap o (RingHal.existing_mem ho).1 ho rfl rfl⟩
  · rw [h]
    have ht : t.rings = Function.update s.rings id true ∧ t.ringObjs = s.ringObjs ∧
        t.rtapiInstance = s.rtapiInstance := by
      rcases ringAlloc_cases e new.body { s with rings := Function.update s.rings id true } with
        h' | ⟨_, -, h'⟩ | ⟨_, _, -, -, h'⟩
      all_goals
        rw [h', Prod.mk.injEq] at halloc
        rw [← halloc.2]
        exact ⟨rfl, rfl, rfl⟩
    have hfresh : new.off ∉ s.ringObjs.map Obj.off := by
      rw [hm] at hf
      simp only [RingHal.fresh, Bool.and_eq_true, Option.all_some, decide_eq_true_iff] at hf
      exact hoff ▸ hf.2
    exact ⟨by simp [ht], .create id new hid hfresh hv (by rw [hbody]) (by rw [hbody])
      ⟨e, size, spSize, fmt, by rw [hbody]⟩ (by simp [ht]) (by simp [ht])⟩

/-- `free_ring_struct` on the rings. -/
lemma freeRingStruct_effect (hI : RingIds s) (e : RingEnv) {o : Obj HalRing}
    (ho : o ∈ s.ringObjs) (hv : o.hdr.valid = true) (a : RingAct) :
    RingEffect s a (freeRingStruct e o s) := by
  rcases hmap : ringMap e o.body s with ⟨_ | loc, t⟩
  all_goals obtain ⟨a, rfl⟩ := ringMap_frame hmap
  · simp only [freeRingStruct, hmap]
    exact ⟨rfl, .same rfl rfl⟩
  simp only [freeRingStruct, hmap]
  split
  · exact ⟨rfl, .same rfl rfl⟩
  rcases hun : ringUnmap loc { s with shmems := a } with ⟨_ | err, u⟩
  all_goals obtain ⟨b, rfl⟩ := ringUnmap_frame hun
  · by_cases hr : o.hdr.refcnt = 0
    · obtain ⟨hset, -, hlt, -⟩ := hI.used o ho hv
      simp only [freeRc, hr, ne_eq, not_true_eq_false, if_false, if_true, RingHal.freeRingId,
        RingHal.freeRingObject, not_lt.2 hlt.le, hset, Bool.true_eq_false]
      exact ⟨rfl, .delete o ho hv rfl rfl (not_mem_free hv hr)⟩
    · simp only [freeRc, ne_eq, hr, not_false_eq_true, if_true, reduceCtorEq, if_false]
      exact ⟨rfl, .same rfl (halgFreeObject_of_ref hI.nodup ho hr)⟩
  · exact ⟨rfl, .same rfl rfl⟩

/-- **What a step can do** to the rings and the bitmap. -/
lemma ringStep_effect (hI : RingIds s) {a : RingAct} (hs : ringStep s a = some s') :
    RingEffect s a s' := by
  cases a with
  | ringNewfv e size spSize mode fmt =>
    simp only [ringStep] at hs
    split_ifs at hs with hf
    cases hs
    exact halgRingNewfv_effect e size spSize mode fmt hf
  | ringDeletefv e fmt =>
    cases hs
    rw [halgRingDeletefv]
    split
    · exact ⟨rfl, .same rfl rfl⟩
    · split
      · exact ⟨rfl, .same rfl rfl⟩
      · next o ho => exact freeRingStruct_effect hI e (findByName_mem ho).1 (findByName_mem ho).2 _
  | ringAttachfv e rb fmt =>
    cases hs
    rw [halgRingAttachfv]
    split
    · exact ⟨rfl, .same rfl rfl⟩
    · split
      · exact ⟨rfl, .same rfl rfl⟩
      · next o ho =>
          split
          · exact ⟨rfl, .same rfl rfl⟩
          · rcases hmap : ringMap e o.body s with ⟨_ | loc, t⟩
            all_goals obtain ⟨b, rfl⟩ := ringMap_frame hmap
            · exact ⟨rfl, .same rfl rfl⟩
            · exact ⟨by simp, .same (by simp) (by simp)⟩
  | ringDetach rb =>
    cases hs
    rw [halgRingDetach]
    split_ifs
    · exact ⟨rfl, .same rfl rfl⟩
    · exact ⟨rfl, .same rfl rfl⟩
    · exact ⟨by simp, .same (by simp) (by simp)⟩
  | sweep =>
    cases hs
    exact ⟨rfl, .sweep rfl rfl⟩

/-! ### Ids and rings -/

lemma RingIds.of_noRings (h : s.NoRings) : RingIds s := by
  refine ⟨?_, ?_, ?_, ?_⟩
  · simp [h.objs]
  · simp [h.rings]
  · simp [h.objs]
  · simp [h.objs]

/-- Freeing descriptors and keeping the set bits keeps the ids in order. -/
lemma RingIds.of_sub (hI : RingIds s) (hinst : s'.rtapiInstance = s.rtapiInstance)
    (hnd : (s'.ringObjs.map Obj.off).Nodup)
    (hsub : ∀ o ∈ s'.ringObjs, o.hdr.valid = true → o ∈ s.ringObjs)
    (hbits : ∀ o ∈ s'.ringObjs, o.hdr.valid = true →
      s'.rings o.body.ringId = s.rings o.body.ringId)
    (h0 : s'.rings 0 = true) : RingIds s' := by
  refine ⟨hnd, h0, ?_, ?_⟩
  · intro o ho hv
    rw [hbits o ho hv, hinst]
    exact hI.used o (hsub o ho hv) hv
  · intro o ho o' ho' hv hv'
    exact hI.inj o (hsub o ho hv) o' (hsub o' ho' hv') hv hv'

/-- No call breaks the link between rings and ids. -/
theorem RingIds.effect {a : RingAct} (hI : RingIds s) (he : RingEffect s a s') : RingIds s' := by
  rcases he with ⟨hinst, he⟩
  cases he with
  | same hrings hobjs =>
    refine hI.of_sub hinst (hobjs ▸ hI.nodup) (fun o ho _ => hobjs ▸ ho) ?_ ?_
    · intro o _ _
      rw [hrings]
    · rw [hrings, hI.reserved]
  | zap o ho _ hrings hobjs =>
    refine hI.of_sub hinst ?_ (fun o ho hv => mem_of_mem_free (hobjs ▸ ho) hv) ?_ ?_
    · rw [hobjs, keys_free]
      exact hI.nodup
    · intro o _ _
      rw [hrings]
    · rw [hrings, hI.reserved]
  | sweep hrings hobjs =>
    refine hI.of_sub hinst (hobjs ▸ nodup_sweep hI.nodup)
      (fun o ho _ => (mem_sweep.1 (hobjs ▸ ho)).1) ?_ ?_
    · intro o _ _
      rw [hrings]
    · rw [hrings, hI.reserved]
  | delete o ho hv hrings hobjs hnew =>
    have hsub : ∀ o' ∈ s'.ringObjs, o'.hdr.valid = true → o' ∈ s.ringObjs :=
      fun o' ho' hv' => mem_of_mem_free (hobjs ▸ ho') hv'
    refine hI.of_sub hinst ?_ hsub ?_ ?_
    · rw [hobjs, keys_free]
      exact hI.nodup
    · intro o' ho' hv'
      have hne : o'.body.ringId ≠ o.body.ringId := by
        intro heq
        obtain rfl := hI.inj o' (hsub o' ho' hv') o ho hv' hv heq
        exact hnew ho'
      rw [hrings, Function.update_of_ne hne]
    · rw [hrings, Function.update_of_ne (hI.used o ho hv).2.1.symm, hI.reserved]
  | create id new hid hoff hv hring hkey _ hrings hobjs =>
    obtain ⟨hlt, hclear⟩ := RingHal.nextRingId_some hid
    have hne : ∀ o ∈ s.ringObjs, o.hdr.valid = true → o.body.ringId ≠ id := by
      intro o ho hv heq
      have hset := (hI.used o ho hv).1
      rw [heq, hclear] at hset
      exact Bool.false_ne_true hset
    have hid0 : id ≠ 0 := by
      rintro rfl
      rw [hI.reserved] at hclear
      exact Bool.false_ne_true hclear.symm
    refine ⟨hobjs ▸ nodup_addObject hI.nodup hoff, ?_, ?_, ?_⟩
    · rw [hrings, Function.update_of_ne hid0.symm, hI.reserved]
    · intro o ho hvo
      rw [hobjs, mem_addObject] at ho
      rcases ho with rfl | ho
      · rw [hrings, hinst, hring, Function.update_self]
        exact ⟨rfl, hid0, hlt, hkey⟩
      · rw [hrings, hinst, Function.update_of_ne (hne o ho hvo)]
        exact hI.used o ho hvo
    · intro o ho o' ho' hvo hvo' heq
      rw [hobjs, mem_addObject] at ho ho'
      rcases ho with rfl | ho <;> rcases ho' with rfl | ho'
      · rfl
      · exact absurd (heq.symm.trans hring) (hne o' ho' hvo')
      · exact absurd (heq.trans hring) (hne o ho hvo)
      · exact hI.inj o ho o' ho' hvo hvo' heq

/-- The condition on a call: it does not give `halg_ring_newfv` the name of an existing
ring that is not referenced. -/
def ringCreationOk (s : RingHal) (a : RingAct) : Bool :=
  match a.existing s with
  | some o => o.hdr.refcnt ≠ 0
  | none => true

/-- Under the condition the set bits stay the ids of the valid rings. -/
lemma BitmapExact.effect {a : RingAct} (hI : RingIds s) (hB : BitmapExact s)
    (hok : ringCreationOk s a = true) (he : RingEffect s a s') : BitmapExact s' := by
  rcases he with ⟨hinst, he⟩
  cases he with
  | same hrings hobjs =>
    intro id hid
    rw [hrings, hobjs]
    exact hB id hid
  | zap o ho hex hrings hobjs =>
    have hr : o.hdr.refcnt ≠ 0 := by simpa [ringCreationOk, hex] using hok
    intro id hid
    rw [hrings, hobjs, halgFreeObject_of_ref hI.nodup ho hr]
    exact hB id hid
  | sweep hrings hobjs =>
    intro id hid
    rw [hrings, hB id hid]
    constructor
    · rintro ⟨o, ho, hv, hoid⟩
      exact ⟨o, hobjs ▸ mem_sweep.2 ⟨ho, hv⟩, hv, hoid⟩
    · rintro ⟨o, ho, hv, hoid⟩
      exact ⟨o, (mem_sweep.1 (hobjs ▸ ho)).1, hv, hoid⟩
  | delete o ho hv hrings hobjs hnew =>
    intro id hid
    by_cases heq : id = o.body.ringId
    · rw [hrings, heq, Function.update_self]
      constructor
      · intro h
        exact absurd h Bool.false_ne_true
      · rintro ⟨o', ho', hv', hoid⟩
        have hmem : o' ∈ s.ringObjs := mem_of_mem_free (hobjs ▸ ho') hv'
        obtain rfl := hI.inj o' hmem o ho hv' hv hoid
        exact absurd ho' hnew
    · rw [hrings, Function.update_of_ne heq, hB id hid]
      constructor
      · rintro ⟨o', ho', hv', hoid⟩
        have hne : o'.off ≠ o.off := by
          intro hoff
          obtain rfl := eq_of_key hI.nodup ho' ho hoff
          exact heq hoid.symm
        exact ⟨o', hobjs ▸ mem_modify_of_ne ho' hne, hv', hoid⟩
      · rintro ⟨o', ho', hv', hoid⟩
        exact ⟨o', mem_of_mem_free (hobjs ▸ ho') hv', hv', hoid⟩
  | create id new hnext hoff hv hring hkey _ hrings hobjs =>
    intro id' hid'
    rw [hrings, hobjs]
    by_cases heq : id' = id
    · rw [heq, Function.update_self]
      exact ⟨fun _ => ⟨new, mem_addObject.2 (.inl rfl), hv, hring⟩, fun _ => rfl⟩
    · rw [Function.update_of_ne heq, hB id' hid']
      constructor
      · rintro ⟨o, ho, hvo, hoid⟩
        exact ⟨o, mem_addObject.2 (.inr ho), hvo, hoid⟩
      · rintro ⟨o, ho, hvo, hoid⟩
        rcases mem_addObject.1 ho with rfl | ho
        · exact absurd (hoid.symm.trans hring) heq
        · exact ⟨o, ho, hvo, hoid⟩

/-! ### The result -/

/-- The objects and the id bitmap of `s'` are those of `s`. -/
def RingHal.Unchanged (s s' : RingHal) : Prop :=
  s'.toHal = s.toHal ∧ s'.validRings = s.validRings ∧ s'.rings = s.rings

/-- **A failing creation.** A `halg_ring_newfv` that returns NULL leaves the objects and
the bitmap as they were exactly if it did not find an unreferenced ring of its name; and
in every run of calls that do not, the set bits are the ids of the valid rings. -/
theorem ring_creation_atomic {s : RingHal} (hnd : (s.ringObjs.map Obj.off).Nodup) :
    (∀ (e : RingEnv) (size spSize : ℤ) (mode : ℕ) (fmt : Option String),
      ((halgRingNewfv e size spSize mode fmt s).1 = none →
        s.Unchanged (halgRingNewfv e size spSize mode fmt s).2) ↔
      ringCreationOk s (.ringNewfv e size spSize mode fmt) = true) ∧
    ∀ s₀ : RingHal, s₀.NoRings →
      Reach ringStep (fun s a => ringCreationOk s a = true) s₀ s → BitmapExact s := by
  constructor
  · intro e size spSize mode fmt
    rcases halgRingNewfv_cases e size spSize mode fmt s with
      ⟨hex, h⟩ | ⟨o, hex, h⟩ | ⟨id, m, new, loc, t, hex, -, -, -, -, -, -, h⟩
    · simp [h, ringCreationOk, RingAct.existing, hex, RingHal.Unchanged]
    · have ho := RingHal.existing_mem hex
      simp only [h, ringCreationOk, RingAct.existing, hex, forall_const, decide_eq_true_eq]
      constructor
      · rintro ⟨-, hvalid, -⟩ hr
        have hin : o ∈ s.validRings := List.mem_filter.2 ⟨ho.1, ho.2⟩
        rw [← hvalid] at hin
        exact not_mem_free ho.2 hr (List.mem_filter.1 hin).1
      · intro hr
        rw [RingHal.freeRingObject, halgFreeObject_of_ref hnd ho.1 hr]
        exact ⟨rfl, rfl, rfl⟩
    · simp [h, ringCreationOk, RingAct.existing, hex]
  · intro s₀ h0 hr
    have hinv : RingIds s ∧ BitmapExact s := by
      refine hr.invariant (P := fun s => RingIds s ∧ BitmapExact s) ⟨.of_noRings h0, ?_⟩ ?_
      · intro id hid
        simp [h0.objs, h0.rings, hid]
      · rintro s a t ⟨hI, hB⟩ hok hs
        have he := ringStep_effect hI hs
        exact ⟨hI.effect he, hB.effect hI hok he⟩
    exact hinv.2

/-- A HAL without objects, in a process that has mapped no segments. -/
def noRings : RingHal :=
  { lock := 0, halSize := 4096, comps := [], insts := [], pins := [], sigs := [], functs := []
    threads := [], functEntryFree := [], cells := fun _ => none
    rtapiInstance := 0, rings := fun id => decide (id = 0), ringObjs := []
    shmems := fun _ => ⟨false, 0, 0, 0, ⟨0, 0, 0, 0, 0⟩⟩, halmem := fun _ => ⟨0, 0, 0, 0, 0⟩
    bufs := fun _ => ⟨false, .shm 0⟩ }

lemma noRings_noRings : noRings.NoRings := by
  refine ⟨rfl, fun _ => rfl, ?_⟩
  intro i hm
  simp [noRings] at hm

/-- Two rings, one of them attached; a descriptor that cannot be allocated; and the other
ring deleted. -/
def twoRings : List RingAct :=
  [.ringNewfv ⟨some ⟨64, 1⟩, none, true⟩ 128 0 0 (some "fifo"),
    .ringNewfv ⟨some ⟨128, 2⟩, none, true⟩ 256 32 2 none,
    .ringAttachfv ⟨none, none, true⟩ (some 0) "fifo",
    .ringNewfv ⟨none, none, true⟩ 64 0 0 (some "third"),
    .ringDeletefv ⟨none, none, true⟩ "stream-2"]

/-- A third ring fails without a trace. -/
theorem ring_creation_atomic_twoRings : ∃ s,
    run ringStep ringCreationOk noRings twoRings = some s ∧
    s.validRings.map (fun o => (o.hdr.name, o.body.ringId)) = [("fifo", 1)] ∧ BitmapExact s ∧
    s.Unchanged (halgRingNewfv ⟨none, none, true⟩ 64 0 0 (some "third") s).2 := by
  have hs : (run ringStep ringCreationOk noRings twoRings).map (fun s =>
      (s.validRings.map (fun o => (o.hdr.name, o.body.ringId)), s.ringObjs.map Obj.off,
        (halgRingNewfv ⟨none, none, true⟩ 64 0 0 (some "third") s).1,
        ringCreationOk s (.ringNewfv ⟨none, none, true⟩ 64 0 0 (some "third"))))
      = some ([("fifo", 1)], [64, 128], none, true) := by decide
  obtain ⟨s, hs, hv, hr⟩ := run_map hs
  simp only [Prod.mk.injEq] at hv
  obtain ⟨hvalid, hoffs, hnull, hok⟩ := hv
  have hnd : (s.ringObjs.map Obj.off).Nodup := by
    rw [hoffs]
    decide
  obtain ⟨hcreate, hbitmap⟩ := ring_creation_atomic hnd
  exact ⟨s, hs, hvalid, hbitmap _ noRings_noRings hr,
    (hcreate _ _ _ _ _).2 hok hnull⟩

/-- One ring, created and created again. -/
def sameName : List RingAct :=
  [.ringNewfv ⟨some ⟨64, 1⟩, none, true⟩ 128 0 0 (some "fifo"),
    .ringNewfv ⟨some ⟨128, 2⟩, none, true⟩ 128 0 0 (some "fifo")]

/-- The second creation fails and frees the first ring, whose id stays taken. -/
theorem ring_creation_duplicate :
    (¬ ∀ (s : RingHal) (e : RingEnv) (size spSize : ℤ) (mode : ℕ) (fmt : Option String),
      (s.ringObjs.map Obj.off).Nodup → (halgRingNewfv e size spSize mode fmt s).1 = none →
        s.Unchanged (halgRingNewfv e size spSize mode fmt s).2) ∧
    ¬ ∀ s₀ s : RingHal, s₀.NoRings → Reach ringStep (fun _ _ => true = true) s₀ s →
      BitmapExact s := by
  constructor
  · intro h
    have hex : ∀ s, run ringStep (fun _ _ => true) noRings (sameName.take 1) = some s →
        s.ringObjs.map Obj.off = [64] ∧
        (halgRingNewfv ⟨some ⟨128, 2⟩, none, true⟩ 128 0 0 (some "fifo") s).1 = none ∧
        s.validRings.map Obj.off = [64] ∧
        (halgRingNewfv ⟨some ⟨128, 2⟩, none, true⟩ 128 0 0 (some "fifo") s).2.validRings.map
          Obj.off = [] := by
      intro s hs
      cases hs
      decide
    obtain ⟨s, hs⟩ : ∃ s, run ringStep (fun _ _ => true) noRings (sameName.take 1) = some s :=
      ⟨_, rfl⟩
    obtain ⟨hoffs, hnull, hbefore, hafter⟩ := hex s hs
    have hun := h s _ _ _ _ _ (by rw [hoffs]; decide) hnull
    rw [hun.2.1, hbefore] at hafter
    exact absurd hafter (by decide)
  · intro h
    have hs : (run ringStep (fun _ _ => true) noRings sameName).map (fun s =>
        (s.validRings.map Obj.off, s.rings 1)) = some ([], true) := by decide
    obtain ⟨s, -, hv, hr⟩ := run_map hs
    simp only [Prod.mk.injEq] at hv
    obtain ⟨o, ho, hval, -⟩ := (h _ s noRings_noRings hr 1 one_ne_zero).1 hv.2
    have hin : o.off ∈ s.validRings.map Obj.off :=
      List.mem_map_of_mem (List.mem_filter.2 ⟨ho, hval⟩)
    rw [hv.1] at hin
    exact absurd hin List.not_mem_nil

end MachinekitHal
