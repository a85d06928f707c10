import MachinekitHal.Runtime.HeapBytes

/-!
The calls of the shared memory allocator.

The functions of `rtapi_heap.c` with the statistics of the heap and all their arguments: sizes
are `size_t`, pointers are numbers of bytes from the descriptor on, and `none` is a null
pointer. Tracing is left out.

* `CountedHeap`: a heap with its statistics.
* `HeapFault`: how a call does not return: a loop through the free list does not end, or a
  store goes to memory outside the region that was allocated for it.
* `rtapigMalloc`, `rtapiUnlockedFree`, `rtapiMallocAligned`, `rtapiCalloc`, `rtapiRealloc`,
  `rtapiHeapAddmem`, `rtapiHeapInit`, `rtapiHeapStatus`: the functions.
-/

namespace MachinekitHal

/-- `rtapi_allocsize`. -/
def RtapiHeap.allocsize (h : RtapiHeap) (ap : ℕ) : BitVec 64 :=
  (BitVec.ofNat 64 (h.size (h.headerAt ap)) - 1) * 8

/-- `struct rtapi_heap`. -/
structure CountedHeap extends RtapiHeap where
  arenaSize : BitVec 64
  requested : BitVec 64
  allocated : BitVec 64
  /-- an `int` -/
  freed : BitVec 32

/-- A call that does not return. -/
inductive HeapFault where
  | noEnd
  | wild

/-- `struct rtapi_heap_stat`. -/
structure HeapStat where
  arenaSize : BitVec 64
  totalAvail : BitVec 64
  fragments : BitVec 64
  largest : BitVec 64
  requested : BitVec 64
  allocated : BitVec 64
  freed : BitVec 64

namespace CountedHeap

variable (h : CountedHeap)

/-- The heap with other contents. -/
def withHeap (r : RtapiHeap) : CountedHeap := { h with toRtapiHeap := r }

/-- The statistics after a chunk was allocated. -/
def granted (r : RtapiHeap) (ap : ℕ) (nbytes : BitVec 64) : CountedHeap :=
  { h with
    toRtapiHeap := r, requested := h.requested + nbytes
    allocated := h.allocated + r.allocsize ap }

/-- `_rtapig_malloc`. -/
def rtapigMalloc (nbytes : BitVec 64) : Except HeapFault (Option ℕ × CountedHeap) :=
  match h.malloc nbytes.toNat with
  | none => .error .noEnd
  | some (none, _) => .ok (none, h)
  | some (some p, r) => .ok (some (8 * p), h.granted r (8 * p) nbytes)

/-- `rtapi_malloc`. -/
def rtapiMalloc (nbytes : BitVec 64) : Except HeapFault (Option ℕ × CountedHeap) :=
  h.rtapigMalloc nbytes

/-- `_rtapi_unlocked_free`. -/
def rtapiUnlockedFree (ap : ℕ) : Except HeapFault CountedHeap :=
  let bp := h.headerAt ap
  match h.freeChunk bp with
  | none => .error .noEnd
  | some r =>
    .ok { h with
      toRtapiHeap := r, freed := h.freed + 8 * (BitVec.ofNat 32 (h.size bp) - 1) }

/-- `rtapi_free`. -/
def rtapiFree (ap : ℕ) : Except HeapFault CountedHeap := h.rtapiUnlockedFree ap

/-- `rtapi_allocsize`. -/
def rtapiAllocsize (ap : ℕ) : BitVec 64 := h.allocsize ap

/-- The address of a pointer. -/
def address (ap : Option ℕ) : BitVec 64 :=
  match ap with
  | none => 0
  | some b => BitVec.ofNat 64 (8 * h.addr + b)

/-- Split the last `trim` units off the chunk of the region at `base`, and free them. -/
def trimRegion (base trim : ℕ) : Except HeapFault CountedHeap :=
  let this := base / 8 - 1
  -- the new header would be in front of the region
  if h.size this < trim then .error .wild
  else (h.withHeap (h.split this trim)).rtapiUnlockedFree (8 * (this + (h.size this - trim) + 1))

/-- The second half of `rtapi_malloc_aligned`: the block in the region at `base`. -/
def alignRegion (base : Option ℕ) (align : BitVec 64) :
    Except HeapFault (Option ℕ × CountedHeap) :=
  let result := (h.address base + align) &&& -align
  let slack := result - h.address base
  if slack < 4 then .ok (none, h)
  else
    match base with
    | none => .error .wild
    | some b =>
      let r := b + slack.toNat
      let this := b / 8 - 1
      -- the tag would be behind the region
      if 8 * (this + h.size this) < r then .error .wild
      else
        let h := h.withHeap (h.setTag (r - 4) ⟨BitVec.ofNat 24 b, attrAligned⟩)
        let trim := ((align - slack) / 8).toNat
        if h.trim ∧ 0 < trim then (h.trimRegion b trim).map fun h => (some r, h)
        else .ok (some r, h)

/-- `rtapi_malloc_aligned`. -/
def rtapiMallocAligned (nbytes align : BitVec 64) : Except HeapFault (Option ℕ × CountedHeap) :=
  -- m must be power of 2
  if align &&& (align - 1) ≠ 0 then .ok (none, h)
  else
    match h.rtapigMalloc (nbytes + align) with
    | .error e => .error e
    | .ok (base, h) => h.alignRegion base align

/-- `rtapi_calloc`. -/
def rtapiCalloc (nelem elsize : BitVec 64) : Except HeapFault (Option ℕ × CountedHeap) :=
  match h.rtapiMalloc (nelem * elsize) with
  | .error e => .error e
  | .ok (none, h) => .ok (none, h)
  | .ok (some p, h) => .ok (some p, h.withHeap (h.zeroMem (p / 8) (nelem * elsize).toNat))

/-- `rtapi_realloc`. -/
def rtapiRealloc (ptr : ℕ) (size : BitVec 64) : Except HeapFault (Option ℕ × CountedHeap) :=
  let sz := h.rtapiAllocsize ptr
  -- requested size fits current allocation?
  if size ≤ sz then .ok (some ptr, h)
  else
    match h.rtapiMalloc size with
    | .error e => .error e
    | .ok (none, h) => .ok (none, h)
    | .ok (some p, h) =>
      let n := if size < sz then size else sz
      ((h.withHeap (h.memcpy p ptr n.toNat)).rtapiFree ptr).map fun h => (some p, h)

/-- `rtapi_heap_addmem` of a space that is not below the descriptor. -/
def rtapiHeapAddmem (space : ℕ) (size : BitVec 64) : Except HeapFault CountedHeap :=
  let clicks := size.toNat / 8
  ((h.withHeap ((h.zeroMem space size.toNat).setSize space clicks)).rtapiUnlockedFree
    (8 * (space + 1))).map fun h => { h with
      freed := h.freed - (BitVec.ofNat 32 clicks - 1) * 8, arenaSize := h.arenaSize + size }

/-- `rtapi_heap_setflags`, of which `RTAPIHEAP_TRIM` matters. -/
def rtapiHeapSetflags (trim : Bool) : CountedHeap := { h with trim := trim }

/-- `rtapi_heap_init` of a descriptor at `addr`. -/
def rtapiHeapInit (addr : ℕ) (mem : ℕ → MallocHdr) : CountedHeap :=
  { toRtapiHeap := RtapiHeap.init addr mem, arenaSize := 0, requested := 0, allocated := 0
    freed := 0 }

/-- What `rtapi_heap_status` adds up at the chunk `p`. -/
def statChunk (hs : HeapStat) (p : ℕ) : HeapStat :=
  let size := BitVec.ofNat 64 (h.size p)
  if h.size p = 0 then hs
  else { hs with
    fragments := hs.fragments + 1, totalAvail := hs.totalAvail + size
    largest := if hs.largest < size then size else hs.largest }

/-- The loop of `rtapi_heap_status`, at the chunk `p`, with at most `fuel` steps. -/
def statLoop : ℕ → ℕ → HeapStat → Option HeapStat
  | 0, _, _ => none
  | fuel + 1, p, hs =>
    let hs := h.statChunk hs p
    if p = h.freeP then
      some { hs with totalAvail := hs.totalAvail * 8, largest := hs.largest * 8 }
    else statLoop fuel (h.next p) hs

/-- `rtapi_heap_status`. -/
def rtapiHeapStatus : Option HeapStat :=
  h.statLoop heapFuel (h.next h.freeP)
    { arenaSize := h.arenaSize, totalAvail := 0, fragments := 0, largest := 0
      requested := h.requested, allocated := h.allocated, freed := h.freed.signExtend 64 }

/-! ### Without the statistics -/

/-- Freeing a unit. -/
lemma rtapiUnlockedFree_heap (q : ℕ) :
    (h.rtapiUnlockedFree (8 * (q + 1))).toOption.map (·.toRtapiHeap) = h.unlockedFree (q + 1) := by
  rw [rtapiUnlockedFree, RtapiHeap.headerAt_unit]
  show _ = h.freeChunk (h.hdrOf (q + 1))
  cases h.freeChunk (h.hdrOf (q + 1)) <;> rfl

lemma rtapiHeapAddmem_heap (space : ℕ) (size : BitVec 64) :
    (h.rtapiHeapAddmem space size).toOption.map (·.toRtapiHeap) = h.addmem space size.toNat := by
  refine Eq.trans ?_ ((h.withHeap ((h.zeroMem space size.toNat).setSize space
    (size.toNat / 8))).rtapiUnlockedFree_heap space)
  rw [rtapiHeapAddmem]
  cases (h.withHeap ((h.zeroMem space size.toNat).setSize space
    (size.toNat / 8))).rtapiUnlockedFree (8 * (space + 1)) <;> rfl

lemma malloc_none {n : ℕ} {r : RtapiHeap} (hm : h.malloc n = some (none, r)) :
    r = h.toRtapiHeap := by
  rw [RtapiHeap.malloc] at hm
  dsimp only at hm
  split at hm
  · cases hm
  · split_ifs at hm <;> cases hm
    rfl

lemma rtapiCalloc_heap (nelem elsize : BitVec 64) :
    (h.rtapiCalloc nelem elsize).toOption.map (fun r => (r.1, r.2.toRtapiHeap)) =
      (h.calloc nelem.toNat elsize.toNat).map fun r => (r.1.map (8 * ·), r.2) := by
  rw [RtapiHeap.calloc, rtapiCalloc, rtapiMalloc, rtapigMalloc, ← BitVec.toNat_mul]
  rcases hm : h.malloc (nelem * elsize).toNat with _ | ⟨_ | p, r⟩
  · rfl
  · exact congrArg (fun r => some (none, r)) (h.malloc_none hm).symm
  · simp [granted, withHeap, Except.toOption]

end CountedHeap

end MachinekitHal
