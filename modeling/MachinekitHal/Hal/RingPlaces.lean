import MachinekitHal.Hal.Plug
import MachinekitHal.Hal.RingBacking

/-!
Where the headers of the rings are, and what the calls on rings do to them.

* `RingHal.ringLoc`, `RingHal.liveLocs`: the place of the header of a ring, and the places
  of the headers of all valid rings.
* `RingPlaces`: every valid ring has a place of its own.
* `RingHal.use`, `RingHal.attachTo`, `RingHal.detachFrom`, `RingHal.remove`: what mapping,
  attaching, detaching and deleting come to when every ring has its place;
  `halgRingAttachfv_cases`, `halgRingDetach_of_attached`, `halgRingDeletefv_cases` say so of
  the calls.
* `RingCreated`: what creating a ring comes to (`halgRingNewfv_places`).
-/

namespace MachinekitHal

open Store Runs
open Function (update)

namespace RingHal

variable (s : RingHal)

/-- The place of the header of a ring. -/
def ringLoc (r : HalRing) : Option RingLoc :=
  if r.flags &&& allocHalmem ≠ 0 then some (.halmem r.ringOffset) else (s.segment r).map .shm

/-- The places of the headers of the valid rings. -/
def liveLocs : Set RingLoc :=
  {l | ∃ o ∈ s.ringObjs, o.hdr.valid = true ∧ s.ringLoc o.body = some l}

/-- A use of the memory at a place. -/
def use (l : RingLoc) : RingHal :=
  match l with
  | .shm i => { s with shmems := incrCount s.shmems i }
  | .halmem _ => s

/-- A ringbuffer is attached to a header. -/
def attachTo (rb : ℕ) (l : RingLoc) : RingHal :=
  { (s.use l).setHeader l { s.headerAt l with refcount := (s.headerAt l).refcount + 1 } with
    bufs := update s.bufs rb ⟨true, l⟩ }

/-- A ringbuffer is detached. -/
def detachFrom (rb : ℕ) (l : RingLoc) : RingHal :=
  { s.setHeader l { s.headerAt l with refcount := (s.headerAt l).refcount - 1 } with
    bufs := update s.bufs rb ⟨false, l⟩ }

/-- A ring and its id are given back. -/
def remove (o : Obj HalRing) : RingHal :=
  { s with ringObjs := halgFreeObject o.off s.ringObjs
           rings := update s.rings o.body.ringId false }

end RingHal

/-- Every valid ring has a place of its own, is not referenced as an object, and segments
are in use. -/
structure RingPlaces (s : RingHal) : Prop where
  ids : RingIds s
  unref : ∀ o ∈ s.ringObjs, o.hdr.valid = true → o.hdr.refcnt = 0
  placed : ∀ o ∈ s.ringObjs, o.hdr.valid = true → ∃ l, s.ringLoc o.body = some l
  apart : ∀ o ∈ s.ringObjs, ∀ o' ∈ s.ringObjs, o.hdr.valid = true → o'.hdr.valid = true →
    ∀ l, s.ringLoc o.body = some l → s.ringLoc o'.body = some l → o = o'
  used : ∀ i, (s.shmems i).magic = true → 1 ≤ (s.shmems i).count

variable {s s' : RingHal} {l l' : RingLoc} {rb : ℕ}

/-! ### Frames -/

/-- A place in a segment is in a slot that is in use. -/
lemma slot_of_ringLoc {r : HalRing} {i : ℕ} (h : s.ringLoc r = some (.shm i)) :
    r.flags &&& allocHalmem = 0 ∧ s.segment r = some i := by
  rw [RingHal.ringLoc] at h
  split_ifs at h with hf
  · exact absurd h (by simp)
  · obtain ⟨j, hj, he⟩ := Option.map_eq_some_iff.1 h
    exact ⟨not_not.1 hf, RingLoc.shm.inj he ▸ hj⟩

/-- Places depend on the keys of the slots only. -/
lemma ringLoc_congr (hinst : s'.rtapiInstance = s.rtapiInstance)
    (h : ∀ i, (s'.shmems i).magic = (s.shmems i).magic ∧ (s'.shmems i).key = (s.shmems i).key)
    (r : HalRing) : s'.ringLoc r = s.ringLoc r := by
  have hseg : s'.segment r = s.segment r := by
    rw [RingHal.segment, RingHal.segment, hinst, shmScan_congr h]
  rw [RingHal.ringLoc, RingHal.ringLoc, hseg]

/-- Places stay where they are while the search finds what it found. -/
lemma ringLoc_of_scan (hinst : s'.rtapiInstance = s.rtapiInstance)
    (h : ∀ key i, shmScan s.shmems key = .found i → shmScan s'.shmems key = .found i)
    {r : HalRing} (hl : s.ringLoc r = some l) : s'.ringLoc r = some l := by
  cases l with
  | halmem off =>
    rw [RingHal.ringLoc] at hl ⊢
    split_ifs at hl ⊢ with hf
    · exact hl
    · simp at hl
  | shm i =>
    obtain ⟨hf, hseg⟩ := slot_of_ringLoc hl
    have hscan := h _ _ (scan_of_segment hseg)
    rw [RingHal.ringLoc, if_neg (not_not.2 hf), RingHal.segment, hinst, hscan]
    rfl

section Frames

variable (s l l' rb)

@[simp] lemma use_ringObjs : (s.use l).ringObjs = s.ringObjs := by cases l <;> rfl

@[simp] lemma use_rings : (s.use l).rings = s.rings := by cases l <;> rfl

@[simp] lemma use_bufs : (s.use l).bufs = s.bufs := by cases l <;> rfl

@[simp] lemma use_toHal : (s.use l).toHal = s.toHal := by cases l <;> rfl

@[simp] lemma use_rtapiInstance : (s.use l).rtapiInstance = s.rtapiInstance := by
  cases l <;> rfl

@[simp] lemma use_headerAt : (s.use l).headerAt l' = s.headerAt l' := by
  cases l with
  | halmem off => rfl
  | shm i =>
    cases l' with
    | halmem off => rfl
    | shm j =>
      by_cases hj : j = i
      · simp [RingHal.use, RingHal.headerAt, incrCount, hj]
      · simp [RingHal.use, RingHal.headerAt, incrCount, hj]

/-- The slots after a use: one more user of one of them. -/
lemma use_slot (i : ℕ) : ((s.use l).shmems i).magic = (s.shmems i).magic ∧
    ((s.use l).shmems i).key = (s.shmems i).key ∧
    (s.shmems i).count ≤ ((s.use l).shmems i).count := by
  cases l with
  | halmem off => exact ⟨rfl, rfl, le_refl _⟩
  | shm j =>
    by_cases hj : i = j
    · simp [RingHal.use, incrCount, hj]
    · simp [RingHal.use, incrCount, hj]

@[simp] lemma use_ringLoc (r : HalRing) : (s.use l).ringLoc r = s.ringLoc r :=
  ringLoc_congr (use_rtapiInstance s l) (fun i => ⟨(use_slot s l i).1, (use_slot s l i).2.1⟩) r

variable (rh : RingHeader)

@[simp] lemma setHeader_bufs : (s.setHeader l rh).bufs = s.bufs := by cases l <;> rfl

/-- Writing a header leaves the slots alone. -/
lemma setHeader_slot (i : ℕ) : ((s.setHeader l rh).shmems i).magic = (s.shmems i).magic ∧
    ((s.setHeader l rh).shmems i).key = (s.shmems i).key ∧
    ((s.setHeader l rh).shmems i).count = (s.shmems i).count := by
  cases l with
  | halmem off => exact ⟨rfl, rfl, rfl⟩
  | shm j =>
    by_cases hj : i = j
    · simp [RingHal.setHeader, hj]
    · simp [RingHal.setHeader, hj]

@[simp] lemma setHeader_ringLoc (r : HalRing) : (s.setHeader l rh).ringLoc r = s.ringLoc r :=
  ringLoc_congr (by simp)
    (fun i => ⟨(setHeader_slot s l rh i).1, (setHeader_slot s l rh i).2.1⟩) r

@[simp] lemma headerAt_setHeader_self : (s.setHeader l rh).headerAt l = rh := by
  cases l <;> simp [RingHal.setHeader, RingHal.headerAt]

end Frames

/-- The other headers are as before. -/
lemma headerAt_setHeader_of_ne {rh : RingHeader} (h : l' ≠ l) :
    (s.setHeader l rh).headerAt l' = s.headerAt l' := by
  cases l <;> cases l' <;> simp_all [RingHal.setHeader, RingHal.headerAt]

/-! ### The calls -/

/-- A ring with a place is mapped there. -/
lemma ringMap_of_ringLoc {e : RingEnv} {r : HalRing} (h : s.ringLoc r = some l) :
    ringMap e r s = (.ok l, s.use l) := by
  cases l with
  | shm i =>
    obtain ⟨hf, hseg⟩ := slot_of_ringLoc h
    exact ringMap_of_segment hf hseg
  | halmem off =>
    rw [RingHal.ringLoc] at h
    split_ifs at h with hf
    · rw [ringMap, if_pos hf, Option.some.inj h]
      rfl
    · simp at h

/-- A ring without a place is not mapped. -/
lemma ringMap_of_noLoc {e : RingEnv} {r : HalRing} (h : s.ringLoc r = none) :
    ∃ err, ringMap e r s = (.error err, s) := by
  rw [RingHal.ringLoc] at h
  split_ifs at h with hf
  have hseg : s.segment r = none := Option.map_eq_none_iff.1 h
  have hfree : ∀ i,
      shmScan s.shmems (osKey r.shmkey (instanceByte s.rtapiInstance)) ≠ .found i := by
    intro i hi
    simp [RingHal.segment, hi] at hseg
  rw [ringMap, if_neg hf]
  rcases rtapiShmemNewInst_cases s.shmems e.avail (⟨0, 0, 0, 0, 0⟩ : RingHeader) r.shmkey
    (instanceByte s.rtapiInstance) 0 with ⟨err, he⟩ | ⟨i, hi, -⟩ | ⟨_, -, hlt, -⟩
  · exact ⟨err, by rw [he]⟩
  · exact absurd hi (hfree i)
  · exact absurd hlt (lt_irrefl _)

/-- Unmapping gives back the use that mapping took. -/
lemma ringUnmap_use (hP : RingPlaces s) {r : HalRing} (h : s.ringLoc r = some l) :
    ringUnmap l (s.use l) = (none, s) := by
  cases l with
  | halmem off => rfl
  | shm i =>
    obtain ⟨h1, h2, hm, -⟩ := shmScan_found (scan_of_segment (slot_of_ringLoc h).2)
    have hcount := hP.used i hm
    simp only [ringUnmap, RingHal.use, rtapiShmemDeleteInst, incrCount, h1, h2, and_self,
      not_true_eq_false, if_false, Function.update_self, Bool.true_eq_false, hm,
      add_sub_cancel_right]
    rw [if_pos (by omega), ← hm]
    simp

lemma halgRingAttachfv_cases (hP : RingPlaces s) (e : RingEnv) (b : Option ℕ) (fmt : String) :
    (∃ err, halgRingAttachfv e b fmt s = (some err, s)) ∨
    (b = none ∧ halgRingAttachfv e b fmt s = (none, s)) ∨
    ∃ o rb l, b = some rb ∧ s.named fmt = some o ∧ s.ringLoc o.body = some l ∧
      halgRingAttachfv e b fmt s = (none, s.attachTo rb l) := by
  cases hname : fmtAp 128 fmt with
  | none => exact .inl ⟨.E2BIG, by simp [halgRingAttachfv, hname]⟩
  | some name =>
    cases hfind : findByName name s.ringObjs with
    | none => exact .inl ⟨.ENOENT, by simp [halgRingAttachfv, hname, hfind]⟩
    | some o =>
      cases b with
      | none => exact .inr (.inl ⟨rfl, by simp [halgRingAttachfv, hname, hfind]⟩)
      | some rb =>
        obtain ⟨hmem, hv⟩ := findByName_mem hfind
        obtain ⟨l, hl⟩ := hP.placed o hmem hv
        refine .inr (.inr ⟨o, rb, l, rfl, by simp [RingHal.named, hname, hfind], hl, ?_⟩)
        simp [halgRingAttachfv, hname, hfind, ringMap_of_ringLoc hl, RingHal.attachTo]

/-- `halg_ring_detach` of an attached ringbuffer. -/
lemma halgRingDetach_of_attached (hl : s.locked halLockConfig = false)
    (hm : (s.bufs rb).magic = true) :
    halgRingDetach rb s = (none, s.detachFrom rb (s.bufs rb).header) := by
  simp [halgRingDetach, hl, hm, RingHal.detachFrom]

/-- `halg_ring_detach` that does not get that far. -/
lemma halgRingDetach_refused (h : (s.locked halLockConfig || !(s.bufs rb).magic) = true) :
    (halgRingDetach rb s).2 = s := by
  rw [halgRingDetach]
  split_ifs with hl hm
  · rfl
  · rfl
  · simp [hl, hm] at h

lemma halgRingDeletefv_cases (hP : RingPlaces s) (e : RingEnv) (fmt : String) :
    (halgRingDeletefv e fmt s).2 = s ∨
    ∃ o l, o ∈ s.ringObjs ∧ o.hdr.valid = true ∧ s.ringLoc o.body = some l ∧
      ((s.headerAt l).refcount ≠ 0 ∧ (halgRingDeletefv e fmt s).2 = s.use l ∨
        (s.headerAt l).refcount = 0 ∧ (halgRingDeletefv e fmt s).2 = s.remove o) := by
  cases hname : fmtAp 128 fmt with
  | none => exact .inl (by simp [halgRingDeletefv, hname])
  | some name =>
    cases hfind : findByName name s.ringObjs with
    | none => exact .inl (by simp [halgRingDeletefv, hname, hfind])
    | some o =>
      obtain ⟨hmem, hv⟩ := findByName_mem hfind
      obtain ⟨l, hl⟩ := hP.placed o hmem hv
      refine .inr ⟨o, l, hmem, hv, hl, ?_⟩
      by_cases hzero : (s.headerAt l).refcount = 0
      · obtain ⟨hset, -, hlt, -⟩ := hP.ids.used o hmem hv
        refine .inr ⟨hzero, ?_⟩
        simp [halgRingDeletefv, hname, hfind, freeRingStruct, ringMap_of_ringLoc hl, hzero,
          ringUnmap_use hP hl, freeRc, hP.unref o hmem hv, RingHal.freeRingId,
          RingHal.freeRingObject, not_lt.2 hlt.le, hset, RingHal.remove]
      · refine .inl ⟨hzero, ?_⟩
        simp [halgRingDeletefv, hname, hfind, freeRingStruct, ringMap_of_ringLoc hl, hzero]

/-! ### One call -/

/-- Places are kept when rings disappear and slots are used more. -/
lemma RingPlaces.of_sub (hP : RingPlaces s) (hI : RingIds s')
    (hsub : ∀ o ∈ s'.ringObjs, o.hdr.valid = true → o ∈ s.ringObjs)
    (hinst : s'.rtapiInstance = s.rtapiInstance)
    (hslot : ∀ i, (s'.shmems i).magic = (s.shmems i).magic ∧
      (s'.shmems i).key = (s.shmems i).key ∧ (s.shmems i).count ≤ (s'.shmems i).count) :
    RingPlaces s' := by
  have hloc : ∀ r, s'.ringLoc r = s.ringLoc r :=
    ringLoc_congr hinst fun i => ⟨(hslot i).1, (hslot i).2.1⟩
  refine ⟨hI, fun o ho hv => hP.unref o (hsub o ho hv) hv, ?_, ?_, ?_⟩
  · intro o ho hv
    rw [hloc]
    exact hP.placed o (hsub o ho hv) hv
  · intro o ho o' ho' hv hv' l hl hl'
    rw [hloc] at hl hl'
    exact hP.apart o (hsub o ho hv) o' (hsub o' ho' hv') hv hv' l hl hl'
  · intro i hm
    obtain ⟨hmagic, -, hcount⟩ := hslot i
    exact (hP.used i (hmagic ▸ hm)).trans hcount

/-- A ring was created, with its header at a place of its own. -/
structure RingCreated (s s' : RingHal) (new : Obj HalRing) (l : RingLoc) : Prop where
  objs : s'.ringObjs = addObject new s.ringObjs
  valid : new.hdr.valid = true
  unref : new.hdr.refcnt = 0
  bufs : s'.bufs = s.bufs
  place : s'.ringLoc new.body = some l
  fresh : l ∉ s.liveLocs
  kept : ∀ r l', s.ringLoc r = some l' → s'.ringLoc r = some l'
  header : (s'.headerAt l).refcount = 0 ∧ (s'.headerAt l).reader = 0 ∧ (s'.headerAt l).writer = 0
  others : ∀ l', l' ≠ l → s'.headerAt l' = s.headerAt l'
  used : ∀ i, (s'.shmems i).magic = true → 1 ≤ (s'.shmems i).count

/-- Another slot in use, where the search for its key ended. -/
lemma used_insert (hP : RingPlaces s) {i : ℕ} {d : ShmemData RingHeader} (hd : 1 ≤ d.count)
    (j : ℕ) (hm : (update s.shmems i d j).magic = true) :
    1 ≤ (update s.shmems i d j).count := by
  by_cases hj : j = i
  · rw [hj, Function.update_self]
    exact hd
  · rw [Function.update_of_ne hj] at hm ⊢
    exact hP.used j hm

/-- The slot of a live place has the key of its ring. -/
lemma key_of_live (hP : RingPlaces s) {i : ℕ} (h : .shm i ∈ s.liveLocs) :
    (s.shmems i).magic = true ∧ ∃ id, s.rings id = true ∧ id < halMaxRings ∧
      (s.shmems i).key = ringKey s.rtapiInstance id := by
  obtain ⟨o, ho, hv, hl⟩ := h
  obtain ⟨hset, -, hlt, hkey⟩ := hP.ids.used o ho hv
  obtain ⟨-, -, hm, hk⟩ := shmScan_found (scan_of_segment (slot_of_ringLoc hl).2)
  refine ⟨hm, o.body.ringId, hset, hlt, ?_⟩
  rw [hk, hkey, ringKey, osKey_osKey]

/-- The memory of a new ring is at the place of its header. -/
lemma ringAlloc_ringLoc {e : RingEnv} {r : HalRing} {id : ℕ} {t : RingHal}
    (hkey : r.shmkey = ringKey s.rtapiInstance id) (hoff : r.ringOffset = e.ringmem.getD 0)
    (h : ringAlloc e r s = (some l, t)) : t.ringLoc r = some l := by
  have hosk : osKey r.shmkey (instanceByte s.rtapiInstance) = ringKey s.rtapiInstance id := by
    rw [hkey, ringKey, osKey_osKey]
  rcases ringAlloc_cases e r s with h' | ⟨off, hf, h'⟩ | ⟨i, a, hf, hnew, h'⟩
  · simp [h'] at h
  · have he : e.ringmem = some off := by
      simpa [ringAlloc, hf] using congrArg Prod.fst h'
    cases h'.symm.trans h
    simp [RingHal.ringLoc, hf, hoff, he]
  · cases h'.symm.trans h
    have hscan : shmScan a (ringKey s.rtapiInstance id) = .found i := by
      rcases rtapiShmemNewInst_cases s.shmems e.avail (⟨0, 0, 0, 0, 0⟩ : RingHeader) r.shmkey
        (instanceByte s.rtapiInstance) r.totalSize with
        ⟨err, he⟩ | ⟨j, hscan, he⟩ | ⟨j, hscan, hpos, he⟩
      · simp [he] at hnew
      · rw [he, Prod.mk.injEq, Except.ok.injEq] at hnew
        obtain ⟨rfl, rfl⟩ := hnew
        have hslot := use_slot s (.shm j)
        rw [← hosk, ← hscan]
        exact shmScan_congr (fun k => ⟨(hslot k).1, (hslot k).2.1⟩) _
      · cases he.symm.trans hnew
        rw [hosk] at hscan ⊢
        exact (shmScan_insert
          (s := ⟨true, ringKey s.rtapiInstance id, r.totalSize, 1, ⟨0, 0, 0, 0, 0⟩⟩) rfl rfl
          hscan).1
    have hseg : ({ s with shmems := a } : RingHal).segment r = some i := segment_of_scan hkey hscan
    rw [RingHal.ringLoc, if_neg (not_not.2 hf), hseg]
    rfl

/-- The memory of a new ring is at a place of its own, and the places there are stay. -/
lemma ringAlloc_places (hP : RingPlaces s) {e : RingEnv} {r : HalRing} {id : ℕ} {t : RingHal}
    (hid : s.nextRingId = some id) (hkey : r.shmkey = ringKey s.rtapiInstance id)
    (hoff : r.ringOffset = e.ringmem.getD 0) (hmem : s.ringmemFresh e.ringmem = true)
    (h : ringAlloc e r { s with rings := update s.rings id true } = (some l, t)) :
    t.ringObjs = s.ringObjs ∧ t.bufs = s.bufs ∧ t.ringLoc r = some l ∧ l ∉ s.liveLocs ∧
      (∀ r l', s.ringLoc r = some l' → t.ringLoc r = some l') ∧
      (∀ l', l' ≠ l → t.headerAt l' = s.headerAt l') ∧
      ∀ i, (t.shmems i).magic = true → 1 ≤ (t.shmems i).count := by
  obtain ⟨hlt, hclear⟩ := RingHal.nextRingId_some hid
  have hosk : osKey r.shmkey (instanceByte s.rtapiInstance) = ringKey s.rtapiInstance id := by
    rw [hkey, ringKey, osKey_osKey]
  have hplace : t.ringLoc r = some l := ringAlloc_ringLoc
    (s := { s with rings := update s.rings id true }) hkey hoff h
  rcases ringAlloc_cases e r { s with rings := update s.rings id true } with
    h' | ⟨off, hf, h'⟩ | ⟨i, a, hf, hnew, h'⟩
  · simp [h'] at h
  · -- HAL memory: the allocator found a place where no ring is
    have he : e.ringmem = some off := by
      simpa [ringAlloc, hf] using congrArg Prod.fst h'
    cases h'.symm.trans h
    refine ⟨rfl, rfl, hplace, ?_, fun r l' hl' => hl', fun _ _ => rfl, hP.used⟩
    rintro ⟨o, ho, hv, hl⟩
    rw [he] at hmem
    have hno := List.all_eq_true.1 hmem o ho
    rw [RingHal.ringLoc] at hl
    split_ifs at hl with hfo
    · have hoo : o.body.ringOffset = off := by simpa using hl
      simp [hv, hfo, hoo] at hno
    · simp at hl
  · cases h'.symm.trans h
    rcases rtapiShmemNewInst_cases s.shmems e.avail (⟨0, 0, 0, 0, 0⟩ : RingHeader) r.shmkey
      (instanceByte s.rtapiInstance) r.totalSize with
      ⟨err, he⟩ | ⟨j, hscan, he⟩ | ⟨j, hscan, hpos, he⟩
    · simp [he] at hnew
    · -- the segment of a deleted ring that had the id
      rw [he, Prod.mk.injEq, Except.ok.injEq] at hnew
      obtain ⟨rfl, rfl⟩ := hnew
      rw [hosk] at hscan
      have hslot := use_slot { s with rings := update s.rings id true } (.shm j)
      refine ⟨rfl, rfl, hplace, ?_, ?_, ?_, fun k hm => ?_⟩
      · intro hlive
        obtain ⟨-, id', hset, hlt', hk⟩ := key_of_live hP hlive
        have heq := ringKey_inj hlt' hlt (hk.symm.trans (shmScan_found hscan).2.2.2)
        rw [heq, hclear] at hset
        exact Bool.false_ne_true hset
      · intro r' l' hl'
        exact (use_ringLoc { s with rings := update s.rings id true } (.shm j) r').trans
          hl'
      · intro l' _
        exact use_headerAt { s with rings := update s.rings id true } (.shm j) l'
      · exact (hP.used k ((hslot k).1 ▸ hm)).trans (hslot k).2.2
    · -- a segment of its own
      rw [he, Prod.mk.injEq, Except.ok.injEq] at hnew
      obtain ⟨rfl, rfl⟩ := hnew
      rw [hosk] at hscan
      have hrest := (shmScan_insert
        (s := ⟨true, ringKey s.rtapiInstance id, r.totalSize, 1, ⟨0, 0, 0, 0, 0⟩⟩) rfl rfl hscan).2
      rw [hosk] at hplace ⊢
      refine ⟨rfl, rfl, hplace, ?_, ?_, ?_, fun k hm => ?_⟩
      · intro hlive
        have hused := (key_of_live hP hlive).1
        rw [(shmScan_free hscan).2.2] at hused
        exact Bool.false_ne_true hused
      · intro r' l' hl'
        refine ringLoc_of_scan (s := s) ?_ hrest hl'
        rfl
      · intro l' hne
        cases l' with
        | halmem off => rfl
        | shm k =>
          have hk : k ≠ j := fun hk => hne (by rw [hk])
          simp [RingHal.headerAt, hk]
      · exact used_insert hP (le_refl _) k hm

/-- **`halg_ring_newfv`** changes nothing, frees the ring whose name it was given, or
creates a ring. -/
lemma halgRingNewfv_places (hP : RingPlaces s) (e : RingEnv) (size spSize : ℤ) (mode : ℕ)
    (fmt : Option String) (hmem : s.ringmemFresh e.ringmem = true) :
    (halgRingNewfv e size spSize mode fmt s).2 = s ∨
    (∃ o, s.existing mode fmt = some o ∧
      (halgRingNewfv e size spSize mode fmt s).2 = s.freeRingObject o.off) ∨
    ∃ new l, RingCreated s (halgRingNewfv e size spSize mode fmt s).2 new l := by
  rcases halgRingNewfv_cases e size spSize mode fmt s with
    ⟨-, h⟩ | ⟨o, ho, h⟩ | ⟨id, m, new, l, t, -, hid, -, -, hv, href, hbody, halloc, h⟩
  · exact .inl (by rw [h])
  · exact .inr (.inl ⟨o, ho, by rw [h]⟩)
  · refine .inr (.inr ⟨new, l, ?_⟩)
    rw [h]
    obtain ⟨hobjs, hbufs, hplace, hfresh, hkept, hothers, hused⟩ :=
      ringAlloc_places hP hid (by rw [hbody]) (by rw [hbody]) hmem halloc
    set rh := ringheaderInit mode (toRingsize size) (toRingsize spSize) with hrh
    have hloc : ∀ r, RingHal.ringLoc { t.setHeader l rh with
        ringObjs := addObject new (t.setHeader l rh).ringObjs } r = t.ringLoc r :=
      fun r => setHeader_ringLoc t l rh r
    have hself : (t.setHeader l rh).headerAt l = rh := headerAt_setHeader_self t l rh
    refine ⟨by simp [hobjs], hv, href,
      by simp [hbufs], (hloc _).trans hplace, hfresh, ?_, ?_, ?_, ?_⟩
    · exact fun r l' hl' => (hloc r).trans (hkept r l' hl')
    · change ((t.setHeader l rh).headerAt l).refcount = 0 ∧
        ((t.setHeader l rh).headerAt l).reader = 0 ∧ ((t.setHeader l rh).headerAt l).writer = 0
      rw [hself]
      exact ⟨rfl, rfl, rfl⟩
    · exact fun l' hne => (headerAt_setHeader_of_ne hne).trans (hothers l' hne)
    · intro i hm
      obtain ⟨hmagic, -, hcount⟩ := setHeader_slot t l rh i
      exact (hused i (hmagic ▸ hm)).trans hcount.ge

/-- A new ring gets a place, and the others keep theirs. -/
lemma RingPlaces.created (hP : RingPlaces s) (hI : RingIds s') {new : Obj HalRing}
    (h : RingCreated s s' new l) : RingPlaces s' := by
  have hkept : ∀ o ∈ s.ringObjs, o.hdr.valid = true → ∃ l', s.ringLoc o.body = some l' ∧
      s'.ringLoc o.body = some l' ∧ l' ≠ l := by
    intro o ho hv
    obtain ⟨l', hl'⟩ := hP.placed o ho hv
    exact ⟨l', hl', h.kept _ _ hl', fun he => h.fresh ⟨o, ho, hv, he ▸ hl'⟩⟩
  refine ⟨hI, ?_, ?_, ?_, h.used⟩
  · intro o ho hv
    rw [h.objs, mem_addObject] at ho
    rcases ho with rfl | ho
    · exact h.unref
    · exact hP.unref o ho hv
  · intro o ho hv
    rw [h.objs, mem_addObject] at ho
    rcases ho with rfl | ho
    · exact ⟨l, h.place⟩
    · obtain ⟨l', -, hl', -⟩ := hkept o ho hv
      exact ⟨l', hl'⟩
  · intro o ho o' ho' hv hv' m hm hm'
    rw [h.objs, mem_addObject] at ho ho'
    rcases ho with rfl | ho <;> rcases ho' with rfl | ho'
    · rfl
    · obtain ⟨l', -, hl', hne⟩ := hkept o' ho' hv'
      rw [hl', ← hm, h.place, Option.some.injEq] at hm'
      exact absurd hm' hne
    · obtain ⟨l', -, hl', hne⟩ := hkept o ho hv
      rw [hl', ← hm', h.place, Option.some.injEq] at hm
      exact absurd hm hne
    · obtain ⟨l₁, h₁, h₁', -⟩ := hkept o ho hv
      obtain ⟨l₂, h₂, h₂', -⟩ := hkept o' ho' hv'
      have heq : l₁ = l₂ := Option.some.inj (h₁'.symm.trans (hm.trans (hm'.symm.trans h₂')))
      exact hP.apart o ho o' ho' hv hv' l₁ h₁ (heq ▸ h₂)

/-- The live places after a ring was created. -/
lemma RingCreated.liveLocs {new : Obj HalRing} (hP : RingPlaces s)
    (h : RingCreated s s' new l) : s'.liveLocs = insert l s.liveLocs := by
  ext l'
  constructor
  · rintro ⟨o, ho, hvo, hl'⟩
    rw [h.objs, mem_addObject] at ho
    rcases ho with rfl | ho
    · exact .inl (Option.some.inj (hl'.symm.trans h.place))
    · obtain ⟨m, hm⟩ := hP.placed o ho hvo
      rw [h.kept _ _ hm, Option.some.injEq] at hl'
      exact .inr ⟨o, ho, hvo, hl' ▸ hm⟩
  · rintro (rfl | ⟨o, ho, hvo, hl'⟩)
    · exact ⟨new, h.objs ▸ mem_addObject.2 (.inl rfl), h.valid, h.place⟩
    · exact ⟨o, h.objs ▸ mem_addObject.2 (.inr ho), hvo, h.kept _ _ hl'⟩

/-- Uses and headers do not move rings. -/
lemma RingPlaces.of_same (hP : RingPlaces s) (hobjs : s'.ringObjs = s.ringObjs)
    (hrings : s'.rings = s.rings) (hinst : s'.rtapiInstance = s.rtapiInstance)
    (hslot : ∀ i, (s'.shmems i).magic = (s.shmems i).magic ∧
      (s'.shmems i).key = (s.shmems i).key ∧ (s.shmems i).count ≤ (s'.shmems i).count) :
    RingPlaces s' := by
  have hI : RingIds s' := by
    refine hP.ids.of_sub hinst (hobjs ▸ hP.ids.nodup) (fun o ho _ => hobjs ▸ ho) ?_ ?_
    · exact fun o _ _ => by rw [hrings]
    · rw [hrings, hP.ids.reserved]
  exact hP.of_sub hI (fun o ho _ => hobjs ▸ ho) hinst hslot

lemma RingPlaces.use (hP : RingPlaces s) (l : RingLoc) : RingPlaces (s.use l) :=
  hP.of_same (by simp) (by simp) (by simp) (use_slot s l)

lemma RingPlaces.setHeader (hP : RingPlaces s) (l : RingLoc) (rh : RingHeader) :
    RingPlaces (s.setHeader l rh) :=
  hP.of_same (by simp) (by simp) (by simp) fun i =>
    ⟨(setHeader_slot s l rh i).1, (setHeader_slot s l rh i).2.1, (setHeader_slot s l rh i).2.2.ge⟩

lemma RingPlaces.setBufs (hP : RingPlaces s) (bufs : ℕ → Ringbuffer) :
    RingPlaces { s with bufs := bufs } :=
  hP.of_same rfl rfl rfl fun _ => ⟨rfl, rfl, le_refl _⟩

lemma RingPlaces.attachTo (hP : RingPlaces s) (rb : ℕ) (l : RingLoc) :
    RingPlaces (s.attachTo rb l) :=
  ((hP.use l).setHeader l _).setBufs _

lemma RingPlaces.detachFrom (hP : RingPlaces s) (rb : ℕ) (l : RingLoc) :
    RingPlaces (s.detachFrom rb l) :=
  (hP.setHeader l _).setBufs _

lemma RingPlaces.remove (hP : RingPlaces s) {o : Obj HalRing} (ho : o ∈ s.ringObjs)
    (hv : o.hdr.valid = true) : RingPlaces (s.remove o) := by
  have hgone : o ∉ (s.remove o).ringObjs := not_mem_free hv (hP.unref o ho hv)
  have hI : RingIds (s.remove o) :=
    hP.ids.effect (a := .sweep) ⟨rfl, .delete o ho hv rfl rfl hgone⟩
  exact hP.of_sub hI (fun o' ho' hv' => mem_of_mem_free ho' hv') rfl fun _ => ⟨rfl, rfl, le_refl _⟩

lemma RingPlaces.sweep (hP : RingPlaces s) :
    RingPlaces { s with ringObjs := MachinekitHal.sweep s.ringObjs } := by
  have hI : RingIds { s with ringObjs := MachinekitHal.sweep s.ringObjs } :=
    hP.ids.effect (a := .sweep) ⟨rfl, .sweep rfl rfl⟩
  exact hP.of_sub hI (fun o ho _ => (mem_sweep.1 ho).1) rfl fun _ => ⟨rfl, rfl, le_refl _⟩

/-- The rings of `halg_ring_newfv` that failed on a name that exists. -/
lemma RingPlaces.freeRingObject (hP : RingPlaces s) (off : ℕ) :
    RingPlaces (s.freeRingObject off) := by
  have hsub : ∀ o ∈ (s.freeRingObject off).ringObjs, o.hdr.valid = true → o ∈ s.ringObjs :=
    fun o ho hv => mem_of_mem_free ho hv
  have hI : RingIds (s.freeRingObject off) := by
    refine hP.ids.of_sub rfl ?_ hsub (fun _ _ _ => rfl) hP.ids.reserved
    rw [RingHal.freeRingObject, keys_free]
    exact hP.ids.nodup
  exact hP.of_sub hI hsub rfl fun _ => ⟨rfl, rfl, le_refl _⟩

/-- The live places after a ring was freed. -/
lemma RingPlaces.liveLocs_free (hP : RingPlaces s) {o : Obj HalRing} (ho : o ∈ s.ringObjs)
    (hv : o.hdr.valid = true) (hl : s.ringLoc o.body = some l)
    (hobjs : s'.ringObjs = halgFreeObject o.off s.ringObjs)
    (hloc : ∀ r, s'.ringLoc r = s.ringLoc r) : s'.liveLocs = s.liveLocs \ {l} := by
  have hgone : o ∉ halgFreeObject o.off s.ringObjs := not_mem_free hv (hP.unref o ho hv)
  ext l'
  constructor
  · rintro ⟨o', ho', hv', hl'⟩
    rw [hobjs] at ho'
    rw [hloc] at hl'
    have hmem := mem_of_mem_free ho' hv'
    refine ⟨⟨o', hmem, hv', hl'⟩, ?_⟩
    rintro rfl
    obtain rfl := hP.apart o ho o' hmem hv hv' _ hl hl'
    exact hgone ho'
  · rintro ⟨⟨o', ho', hv', hl'⟩, hne⟩
    refine ⟨o', hobjs ▸ mem_free_of ho' fun hoff => ?_, hv', (hloc _).trans hl'⟩
    obtain rfl := eq_of_key hP.ids.nodup ho' ho hoff
    exact absurd (Option.some.inj (hl'.symm.trans hl)) hne

end MachinekitHal
