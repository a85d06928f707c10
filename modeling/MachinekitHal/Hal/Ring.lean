import MachinekitHal.Ring.Layout
import MachinekitHal.Runtime.Shmem
import MachinekitHal.Hal.Data

/-!
`hal_ring.c`: HAL rings.

A ring is a HAL object and its memory, which is a shared memory segment of its own or
a piece of HAL memory. The keys of the segments are made from ring ids, which are
handed out by a bitmap in `hal_data`.

* `halgRingNewfv`, `freeRingStruct`, `halgRingDeletefv`, `halgRingAttachfv`,
  `halgRingDetach`: the operations, on the HAL state with rings `RingHal`.
* `RingAct`, `ringStep`: the calls a process makes, and `hal_sweep`.

Of the memory of a ring only the header fields that these functions and those on plugs read
are modelled: `refcount`, `reader`, `writer`, `size` and `trailer_size`. What the allocators return
is given with the call (`RingEnv`).
-/

namespace MachinekitHal

open Store Word
open Function (update)

/-- `ringheader_t`, the part the HAL layer reads. `refcount` is an `int`; there are fewer than
`2 ^ 31` users. -/
structure RingHeader where
  refcount : ℤ
  reader : ℤ
  writer : ℤ
  size : ℕ
  trailerSize : ℕ
  deriving DecidableEq

/-- Where the header of a ring is: in a slot of the shared memory table, or at an offset
of the HAL segment. -/
inductive RingLoc where
  | shm (shmid : ℕ) | halmem (off : ℕ)
  deriving DecidableEq

/-- `hal_ring_t`, less the header. -/
structure HalRing where
  ringId : ℕ
  shmkey : ℕ
  totalSize : ℤ
  ringOffset : ℕ
  flags : ℕ
  deriving DecidableEq

/-- `ringbuffer_t` of a caller: attached or not, and to which header. -/
structure Ringbuffer where
  magic : Bool
  header : RingLoc
  deriving DecidableEq

/-- The HAL state with its rings, in one process: the id bitmap `rings`, the objects, the
segments this process has mapped, the ring headers in HAL memory and the callers'
ringbuffers. -/
structure RingHal extends Hal where
  rtapiInstance : ℤ
  rings : ℕ → Bool
  ringObjs : List (Obj HalRing)
  shmems : ShmemArray RingHeader
  halmem : ℕ → RingHeader
  bufs : ℕ → Ringbuffer

/-- `HAL_MAX_RINGS`. -/
def halMaxRings : ℕ := 255

/-- `RTAPI_RING_SHM_KEY`. -/
def rtapiRingShmKey : ℕ := 0x00415000

/-- `ALLOC_HALMEM`, bit 4 of the mode. -/
def allocHalmem : ℕ := 16

/-- What the environment answers during `halg_ring_newfv`: the descriptor allocator, the
HAL memory allocator, and whether the system has the memory for a segment. -/
structure RingEnv where
  desc : Option Alloc
  ringmem : Option ℕ
  avail : Bool

/-- An `int` passed as `ringsize_t`. -/
def toRingsize (n : ℤ) : ℕ := (n % 4294967296).toNat

/-- A `ringsize_t` stored in an `int`. -/
def ofRingsize (n : ℕ) : ℤ := if n < 2147483648 then n else (n : ℤ) - 4294967296

/-- The instance number as `OS_KEY` uses it. -/
def instanceByte (i : ℤ) : ℕ := (i % 256).toNat

/-- The key of the segment of a ring. -/
def ringKey (inst : ℤ) (id : ℕ) : ℕ := osKey (rtapiRingShmKey + id) (instanceByte inst)

/-- The name `halg_ring_newfv` works with: the one given, or one made up from the id and
the type. -/
def ringName (mode id : ℕ) : Option String → Option String
  | some fmt => fmtAp 128 fmt
  | none =>
    match mode % 4 with
    | 0 => fmtAp 128 ("record-" ++ toString id)
    | 1 => fmtAp 128 ("multi-" ++ toString id)
    | 2 => fmtAp 128 ("stream-" ++ toString id)
    | _ => none

namespace RingHal

variable (s : RingHal)

/-- `next_ring_id`: the first unused id. -/
def nextRingId : Option ℕ := (List.range halMaxRings).find? fun i => !s.rings i

/-- `free_ring_id`. -/
def freeRingId (id : ℕ) : Option Errno × RingHal :=
  if halMaxRings < id then (some .EINVAL, s)
  else if s.rings id = false then (some .EINVAL, s)
  else (none, { s with rings := update s.rings id false })

/-- Read the header of a ring. -/
def headerAt : RingLoc → RingHeader
  | .shm i => (s.shmems i).mem
  | .halmem off => s.halmem off

/-- Write the header of a ring. -/
def setHeader (loc : RingLoc) (rh : RingHeader) : RingHal :=
  match loc with
  | .shm i => { s with shmems := update s.shmems i { s.shmems i with mem := rh } }
  | .halmem off => { s with halmem := update s.halmem off rh }

/-- `halg_free_object` of a ring. -/
def freeRingObject (off : ℕ) : RingHal := { s with ringObjs := halgFreeObject off s.ringObjs }

/-- What the descriptor allocator promises for a ring. -/
def fresh (mem : Option Alloc) : Bool :=
  s.toHal.fresh mem && mem.all fun m => m.off ∉ s.ringObjs.map Obj.off

end RingHal

/-- The `FAIL` exit of `halg_ring_newfv`; `rptr` is the descriptor the variable of that
name points to, if it is on the object list. -/
def ringFail (id : ℕ) (rptr : Option ℕ) (s : RingHal) : Option ℕ × RingHal :=
  let s := (s.freeRingId id).2
  match rptr with
  | some off => (none, s.freeRingObject off)
  | none => (none, s)

/-- The header `ringheader_init` writes, with the `refcount` of `halg_ring_newfv`. -/
def ringheaderInit (flags size spSize : ℕ) : RingHeader :=
  { refcount := 0, reader := 0, writer := 0, size := ringStorageAlloc flags size
    trailerSize := ringTrailerAlloc spSize }

/-- The memory for a new ring: where its header is, or none. -/
def ringAlloc (e : RingEnv) (r : HalRing) (s : RingHal) : Option RingLoc × RingHal :=
  if r.flags &&& allocHalmem ≠ 0 then (e.ringmem.map .halmem, s)
  else
    match rtapiShmemNewInst s.shmems e.avail ⟨0, 0, 0, 0, 0⟩ r.shmkey (instanceByte s.rtapiInstance)
      r.totalSize with
    | (.error _, a) => (none, { s with shmems := a })
    | (.ok shmid, a) =>
      match rtapiShmemGetptr a shmid with
      | none => (none, { s with shmems := a })
      | some _ => (some (.shm shmid), { s with shmems := a })

/-- `halg_ring_newfv`: the offset of the new descriptor, or NULL. -/
def halgRingNewfv (e : RingEnv) (size spSize : ℤ) (mode : ℕ) (fmt : Option String)
    (s : RingHal) : Option ℕ × RingHal :=
  if s.locked halLockLoad then (none, s) else
  match s.nextRingId with
  | none => (none, s)
  | some id =>
    let s := { s with rings := update s.rings id true }
    match ringName mode id fmt with
    | none => ringFail id none s
    | some name =>
      match findByName name s.ringObjs with
      | some rptr => ringFail id (some rptr.off) s
      | none =>
        let body : HalRing :=
          { ringId := id, shmkey := ringKey s.rtapiInstance id
            totalSize := ofRingsize (ringMemsize mode (toRingsize size) (toRingsize spSize))
            ringOffset := e.ringmem.getD 0, flags := mode }
        match halgCreateObject e.desc 0 name body with
        | none => ringFail id none s
        | some rptr =>
          match ringAlloc e rptr.body s with
          -- the descriptor that is freed here is not on the list yet
          | (none, s) => ringFail id none s
          | (some loc, s) =>
            let s := s.setHeader loc (ringheaderInit mode (toRingsize size) (toRingsize spSize))
            (some rptr.off, { s with ringObjs := addObject rptr s.ringObjs })

/-- The header of an existing ring, mapped with `rtapi_shmem_new_inst` when it is in a
segment; this counts a use of the segment. -/
def ringMap (e : RingEnv) (r : HalRing) (s : RingHal) : Except Errno RingLoc × RingHal :=
  if r.flags &&& allocHalmem ≠ 0 then (.ok (.halmem r.ringOffset), s)
  else
    match rtapiShmemNewInst s.shmems e.avail ⟨0, 0, 0, 0, 0⟩ r.shmkey
        (instanceByte s.rtapiInstance) 0 with
    | (.error err, a) => (.error err, { s with shmems := a })
    | (.ok shmid, a) =>
      match rtapiShmemGetptr a shmid with
      | none => (.error .ENOMEM, { s with shmems := a })
      | some _ => (.ok (.shm shmid), { s with shmems := a })

/-- Give back the memory of a ring. -/
def ringUnmap (loc : RingLoc) (s : RingHal) : Option Errno × RingHal :=
  match loc with
  | .halmem _ => (none, s)
  | .shm shmid =>
    match rtapiShmemDeleteInst s.shmems shmid with
    | (rc, a) => (rc, { s with shmems := a })

/-- `free_ring_struct`. -/
def freeRingStruct (e : RingEnv) (o : Obj HalRing) (s : RingHal) : RingHal :=
  match ringMap e o.body s with
  | (.error _, s) => s
  | (.ok loc, s) =>
    if (s.headerAt loc).refcount ≠ 0 then s
    else
      match ringUnmap loc s with
      | (some _, s) => s
      | (none, s) =>
        let s := s.freeRingObject o.off
        if freeRc o = none then (s.freeRingId o.body.ringId).2 else s

/-- `halg_ring_deletefv`; the return value of `free_ring_struct` is ignored. -/
def halgRingDeletefv (e : RingEnv) (fmt : String) (s : RingHal) : Option Errno × RingHal :=
  match fmtAp 128 fmt with
  | none => (some .E2BIG, s)
  | some name =>
    match findByName name s.ringObjs with
    | none => (some .ENOENT, s)
    | some rptr => (none, freeRingStruct e rptr s)

/-- `halg_ring_attachfv`; without a ringbuffer only the existence is tested. The code of a failing
`rtapi_shmem_new_inst` is returned positive. -/
def halgRingAttachfv (e : RingEnv) (rb : Option ℕ) (fmt : String) (s : RingHal) :
    Option Errno × RingHal :=
  match fmtAp 128 fmt with
  | none => (some .E2BIG, s)
  | some name =>
    match findByName name s.ringObjs with
    | none => (some .ENOENT, s)
    | some rptr =>
      match rb with
      | none => (none, s)
      | some rb =>
        match ringMap e rptr.body s with
        | (.error err, s) => (some err, s)
        | (.ok loc, s) =>
          let rh := s.headerAt loc
          let s := s.setHeader loc { rh with refcount := rh.refcount + 1 }
          (none, { s with bufs := update s.bufs rb ⟨true, loc⟩ })

/-- `halg_ring_detach`. -/
def halgRingDetach (rb : ℕ) (s : RingHal) : Option Errno × RingHal :=
  if s.locked halLockConfig then (some .EPERM, s)
  else if (s.bufs rb).magic = false then (some .EINVAL, s)
  else
    let loc := (s.bufs rb).header
    let rh := s.headerAt loc
    let s := s.setHeader loc { rh with refcount := rh.refcount - 1 }
    (none, { s with bufs := update s.bufs rb ⟨false, loc⟩ })

/-- The calls of a process, and the collection of freed objects. -/
inductive RingAct where
  | ringNewfv (e : RingEnv) (size spSize : ℤ) (mode : ℕ) (fmt : Option String)
  | ringDeletefv (e : RingEnv) (fmt : String)
  | ringAttachfv (e : RingEnv) (rb : Option ℕ) (fmt : String)
  | ringDetach (rb : ℕ)
  | sweep

/-- One call; the allocators return unused memory. -/
def ringStep (s : RingHal) : RingAct → Option RingHal
  | .ringNewfv e size spSize mode fmt =>
    if s.fresh e.desc then some (halgRingNewfv e size spSize mode fmt s).2 else none
  | .ringDeletefv e fmt => some (halgRingDeletefv e fmt s).2
  | .ringAttachfv e rb fmt => some (halgRingAttachfv e rb fmt s).2
  | .ringDetach rb => some (halgRingDetach rb s).2
  | .sweep => some { s with ringObjs := sweep s.ringObjs }

/-! ### What the operations do -/

namespace RingHal

variable (s : RingHal)

/-- The valid rings. -/
def validRings : List (Obj HalRing) := s.ringObjs.filter fun o => o.hdr.valid

/-- The ring whose name a `halg_ring_newfv` call is given, if it gets as far as looking it
up. -/
def existing (mode : ℕ) (fmt : Option String) : Option (Obj HalRing) :=
  if s.locked halLockLoad then none
  else s.nextRingId.bind fun id => (ringName mode id fmt).bind fun name =>
    findByName name s.ringObjs

/-- The ring a `halg_ring_deletefv` or `halg_ring_attachfv` call finds. -/
def named (fmt : String) : Option (Obj HalRing) :=
  (fmtAp 128 fmt).bind fun name => findByName name s.ringObjs

variable {s}

/-- The id handed out is in range and was unused. -/
lemma nextRingId_some {id : ℕ} (h : s.nextRingId = some id) :
    id < halMaxRings ∧ s.rings id = false := by
  have hp := List.find?_some h
  have hm := List.mem_of_find?_eq_some h
  exact ⟨List.mem_range.1 hm, by simpa using hp⟩

/-- Taking an id and giving it back changes nothing. -/
lemma freeRingId_take {id : ℕ} (hlt : id < halMaxRings) (h : s.rings id = false) :
    (freeRingId { s with rings := update s.rings id true } id).2 = s := by
  have hid : update s.rings id false = s.rings := by
    rw [← h, Function.update_eq_self]
  simp [freeRingId, not_lt.2 hlt.le, hid]

lemma existing_mem {mode : ℕ} {fmt : Option String} {o : Obj HalRing}
    (h : s.existing mode fmt = some o) : o ∈ s.ringObjs ∧ o.hdr.valid = true := by
  rw [existing] at h
  split_ifs at h
  simp only [Option.bind_eq_some_iff] at h
  obtain ⟨_, -, name, -, hfind⟩ := h
  exact findByName_mem hfind

lemma named_some {fmt : String} {o : Obj HalRing} (h : s.named fmt = some o) :
    o ∈ s.ringObjs ∧ o.hdr.valid = true := by
  rw [named, Option.bind_eq_some_iff] at h
  obtain ⟨name, -, h⟩ := h
  exact findByName_mem h

end RingHal

/-- What getting the memory of a new ring can do: fail and leave everything as it is, find
HAL memory, or take a segment. -/
lemma ringAlloc_cases (e : RingEnv) (r : HalRing) (s : RingHal) :
    ringAlloc e r s = (none, s) ∨
    (∃ off, r.flags &&& allocHalmem ≠ 0 ∧ ringAlloc e r s = (some (.halmem off), s)) ∨
    ∃ i a, r.flags &&& allocHalmem = 0 ∧
      rtapiShmemNewInst s.shmems e.avail ⟨0, 0, 0, 0, 0⟩ r.shmkey (instanceByte s.rtapiInstance)
        r.totalSize = (.ok i, a) ∧
      ringAlloc e r s = (some (.shm i), { s with shmems := a }) := by
  by_cases hf : r.flags &&& allocHalmem = 0
  · rcases hn : rtapiShmemNewInst s.shmems e.avail ⟨0, 0, 0, 0, 0⟩ r.shmkey
      (instanceByte s.rtapiInstance) r.totalSize with ⟨err | i, a⟩
    · have ha : a = s.shmems := by
        rcases rtapiShmemNewInst_cases s.shmems e.avail ⟨0, 0, 0, 0, 0⟩ r.shmkey
          (instanceByte s.rtapiInstance) r.totalSize with ⟨e', he⟩ | ⟨j, -, he⟩ | ⟨j, -, -, he⟩
        · rw [he] at hn
          exact (Prod.mk.inj hn).2.symm
        all_goals simp [he] at hn
      exact .inl (by simp [ringAlloc, hf, hn, ha])
    · exact .inr (.inr ⟨i, a, hf, rfl, by
        simp [ringAlloc, hf, hn, rtapiShmemGetptr_of_new hn]⟩)
  · cases hm : e.ringmem with
    | none => exact .inl (by simp [ringAlloc, hf, hm])
    | some off => exact .inr (.inl ⟨off, hf, by simp [ringAlloc, hf, hm]⟩)

/-- **What `halg_ring_newfv` can do**: fail and change nothing, fail on a name that exists
and free that ring's descriptor, or create a ring. -/
lemma halgRingNewfv_cases (e : RingEnv) (size spSize : ℤ) (mode : ℕ) (fmt : Option String)
    (s : RingHal) :
    (s.existing mode fmt = none ∧ halgRingNewfv e size spSize mode fmt s = (none, s)) ∨
    (∃ o, s.existing mode fmt = some o ∧
      halgRingNewfv e size spSize mode fmt s = (none, s.freeRingObject o.off)) ∨
    ∃ id m new loc s', s.existing mode fmt = none ∧ s.nextRingId = some id ∧
      e.desc = some m ∧ new.off = m.off ∧ new.hdr.valid = true ∧ new.hdr.refcnt = 0 ∧
      new.body =
        { ringId := id, shmkey := ringKey s.rtapiInstance id
          totalSize := ofRingsize (ringMemsize mode (toRingsize size) (toRingsize spSize))
          ringOffset := e.ringmem.getD 0, flags := mode } ∧
      ringAlloc e new.body { s with rings := update s.rings id true } = (some loc, s') ∧
      halgRingNewfv e size spSize mode fmt s
        = (some new.off,
            { s'.setHeader loc (ringheaderInit mode (toRingsize size) (toRingsize spSize)) with
              ringObjs := addObject new (s'.setHeader loc
                (ringheaderInit mode (toRingsize size) (toRingsize spSize))).ringObjs }) := by
  by_cases hl : s.locked halLockLoad = true
  · exact .inl ⟨by simp [RingHal.existing, hl], by simp [halgRingNewfv, hl]⟩
  cases hid : s.nextRingId with
  | none => exact .inl ⟨by simp [RingHal.existing, hl, hid], by simp [halgRingNewfv, hl, hid]⟩
  | some id =>
    obtain ⟨hlt, hclear⟩ := RingHal.nextRingId_some hid
    have hback := RingHal.freeRingId_take hlt hclear
    cases hname : ringName mode id fmt with
    | none =>
      refine .inl ⟨by simp [RingHal.existing, hl, hid, hname], ?_⟩
      simp only [halgRingNewfv, hl, hid, hname, ringFail, hback]
      rfl
    | some name =>
      cases hfind : findByName name s.ringObjs with
      | some o =>
        refine .inr (.inl ⟨o, by simp [RingHal.existing, hl, hid, hname, hfind], ?_⟩)
        simp only [halgRingNewfv, hl, hid, hname, hfind, ringFail, hback]
        rfl
      | none =>
        have hex : s.existing mode fmt = none := by
          simp [RingHal.existing, hl, hid, hname, hfind]
        cases hnew : halgCreateObject e.desc 0 name
            { ringId := id, shmkey := ringKey s.rtapiInstance id
              totalSize := ofRingsize (ringMemsize mode (toRingsize size) (toRingsize spSize))
              ringOffset := e.ringmem.getD 0, flags := mode : HalRing } with
        | none =>
          refine .inl ⟨hex, ?_⟩
          simp only [halgRingNewfv, hl, hid, hname, hfind, hnew, ringFail, hback]
          rfl
        | some new =>
          obtain ⟨m, hm, hoff, -, hv, hbody⟩ := halgCreateObject_eq hnew
          rcases halloc : ringAlloc e new.body
            { s with rings := update s.rings id true } with ⟨_ | loc, s'⟩
          · have hs' : s' = { s with rings := update s.rings id true } := by
              rcases ringAlloc_cases e new.body
                { s with rings := update s.rings id true } with
                h | ⟨_, -, h⟩ | ⟨_, _, -, -, h⟩
              · rw [h] at halloc
                exact (Prod.mk.inj halloc).2.symm
              all_goals simp [h] at halloc
            refine .inl ⟨hex, ?_⟩
            simp only [halgRingNewfv, hl, hid, hname, hfind, hnew, halloc, ringFail, hs', hback]
            rfl
          · refine .inr (.inr ⟨id, m, new, loc, s', hex, rfl, hm, hoff, hv,
              halgCreateObject_refcnt hnew, hbody, halloc, ?_⟩)
            simp only [halgRingNewfv, hl, hid, hname, hfind, hnew, halloc]
            rfl

end MachinekitHal
