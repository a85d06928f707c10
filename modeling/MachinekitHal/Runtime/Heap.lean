import MachinekitHal.Lib.Chain

/-!
`rtapi_heap.c`: the shared memory allocator.

Memory is taken in units of eight bytes, the size of a chunk header, and a pointer is given
as the number of its unit from the heap descriptor on; the offsets stored in the heap are in
bytes. The descriptor is the first of the units. The statistics of the heap are left out.

* `MallocHdr`, `RtapiHeap`: a unit read as a chunk header, and the heap.
* `malloc`, `unlockedFree`, `mallocAligned`, `calloc`, `addmem`, `init`: the operations. `none`
  is a loop that does not end, or an aligned request the heap has no memory for, which is
  answered by a write near address 0.
* `hdrOf`: the chunk that `rtapi_free` releases for a pointer; `units` are those of a chunk.
-/

namespace MachinekitHal

open Linking

/-- `rtapi_malloc_hdr_t`, eight bytes. -/
structure MallocHdr where
  next : BitVec 32
  size : BitVec 24
  attr : BitVec 8
  deriving DecidableEq

/-- Eight bytes of zeros. -/
def MallocHdr.zero : MallocHdr := ⟨0, 0, 0⟩

/-- The unit with its first `n < 8` bytes zero. -/
def MallocHdr.zeroBytes (u : MallocHdr) (n : ℕ) : MallocHdr :=
  { u with next := (u.next >>> (8 * n)) <<< (8 * n)
           size := (u.size >>> (8 * (n - 4))) <<< (8 * (n - 4)) }

/-- `ATTR_ALIGNED`. -/
def attrAligned : BitVec 8 := 1

/-- `struct rtapi_heap`: the address of the descriptor, in units, the memory above it,
`free_p`, and whether `flags` has `RTAPIHEAP_TRIM`. The first unit is `base`. -/
structure RtapiHeap where
  addr : ℕ
  mem : ℕ → MallocHdr
  freeP : ℕ
  trim : Bool

/-- `sizeof(struct rtapi_heap)`, in units. -/
def sizeofRtapiHeap : ℕ := 10

/-- More steps than any loop through the free list takes: a heap has less than 2 ^ 30 units,
as its offsets have 32 bits. -/
def heapFuel : ℕ := 2 ^ 30

/-- `nunits` of a request. -/
def nunits (nbytes : ℕ) : ℕ := (nbytes + 7) % 2 ^ 64 / 8 + 1

namespace RtapiHeap

variable (h : RtapiHeap)

/-- `heap_ptr(h, p->s.next)`. -/
def next (p : ℕ) : ℕ := (h.mem p).next.toNat / 8

/-- `p->s.tag.size`. -/
def size (p : ℕ) : ℕ := (h.mem p).size.toNat

/-- Write to the unit at `p`. -/
def write (p : ℕ) (u : MallocHdr) : RtapiHeap := { h with mem := Function.update h.mem p u }

/-- `p->s.next = heap_off(h, q)`. -/
def setNext (p q : ℕ) : RtapiHeap := h.write p { h.mem p with next := BitVec.ofNat 32 (8 * q) }

/-- `p->s.next = q->s.next`. -/
def copyNext (p q : ℕ) : RtapiHeap := h.write p { h.mem p with next := (h.mem q).next }

/-- `p->s.tag.size = n`. -/
def setSize (p n : ℕ) : RtapiHeap := h.write p { h.mem p with size := BitVec.ofNat 24 n }

/-- `p->s.tag.attr = a`. -/
def setAttr (p : ℕ) (a : BitVec 8) : RtapiHeap := h.write p { h.mem p with attr := a }

/-- The chunk before the one that `malloc` takes from: the search starts behind `free_p` and
ends there. -/
def findFit (n : ℕ) : Option ℕ :=
  seek h.next (fun prevp => n ≤ h.size (h.next prevp) ∨ h.next prevp = h.freeP) heapFuel h.freeP

/-- Take `n` units from the chunk `p` behind `prevp`, all of it or its tail end. -/
def take (n prevp p : ℕ) : ℕ × RtapiHeap :=
  let r :=
    if h.size p = n then (p, h.copyNext prevp p)
    else
      let h := h.setSize p (h.size p - n)
      let q := p + h.size p
      (q, h.setSize q n)
  (r.1, { r.2.setAttr r.1 0 with freeP := prevp })

/-- `_rtapig_malloc`: the payload, if there is memory. -/
def malloc (nbytes : ℕ) : Option (Option ℕ × RtapiHeap) :=
  let n := nunits nbytes
  match h.findFit n with
  | none => none
  | some prevp =>
    let p := h.next prevp
    if n ≤ h.size p then
      let r := h.take n prevp p
      some (some (r.1 + 1), r.2)
    else some (none, h)

/-- The region that was allocated for a pointer: the tag in front of it tells where, if its
alignment is not standard. -/
def region (ap : ℕ) : ℕ :=
  let rt := h.mem (ap - 1)
  if rt.attr &&& attrAligned ≠ 0 then rt.size.toNat / 8 else ap

/-- The header of the chunk behind a pointer. -/
def hdrOf (ap : ℕ) : ℕ := h.region ap - 1

/-- The chunk on the free list behind which `bp` belongs. -/
def findPlace (bp : ℕ) : Option ℕ :=
  seek h.next (fun p => (p < bp ∧ bp < h.next p) ∨
    -- freed block at start or end of arena
    (h.next p ≤ p ∧ (p < bp ∨ bp < h.next p))) heapFuel h.freeP

/-- Join the chunk `bp` to its upper neighbour, or link it to what follows `p`. -/
def joinUpper (bp p : ℕ) : RtapiHeap :=
  let up := h.next p
  if bp + h.size bp = up then (h.setSize bp (h.size bp + h.size up)).copyNext bp up
  else h.copyNext bp p

/-- Join the chunk `bp` to its lower neighbour `p`, or link it behind `p`. -/
def joinLower (bp p : ℕ) : RtapiHeap :=
  if p + h.size p = bp then (h.setSize p (h.size p + h.size bp)).copyNext p bp
  else h.setNext p bp

/-- `_rtapi_unlocked_free` behind the search for the header: the chunk `bp` is freed. -/
def freeChunk (bp : ℕ) : Option RtapiHeap :=
  (h.findPlace bp).map fun p => { (h.joinUpper bp p).joinLower bp p with freeP := p }

/-- `_rtapi_unlocked_free`. -/
def unlockedFree (ap : ℕ) : Option RtapiHeap :=
  let bp := h.hdrOf ap
  (h.findPlace bp).map fun p => { (h.joinUpper bp p).joinLower bp p with freeP := p }

/-- The tag in front of the aligned payload `r`, which refers to the region at `base`. -/
def forgeTag (r base : ℕ) : RtapiHeap :=
  h.write (r - 1) { h.mem (r - 1) with size := BitVec.ofNat 24 (8 * base), attr := attrAligned }

/-- Split off the last `n` units of the chunk `this` as a chunk of their own. -/
def split (this n : ℕ) : RtapiHeap :=
  let new := this + (h.size this - n)
  let h := ((h.copyNext new this).setSize new n).setAttr new 0
  (h.setNext this new).setSize this (h.size this - n)

/-- `rtapi_malloc_aligned`, for alignments of at least a unit. -/
def mallocAligned (nbytes align : ℕ) : Option (Option ℕ × RtapiHeap) :=
  -- m must be power of 2
  if align &&& (align - 1) ≠ 0 then some (none, h) else
  match h.malloc (nbytes + align) with
  | some (some base, h) =>
    let address := 8 * (h.addr + base)
    -- & -align
    let result := (address + align) / align * align
    let slack := result - address
    if slack < 4 then some (none, h) else
    let r := result / 8 - h.addr
    let h := h.forgeTag r base
    let trim := (align - slack) / 8
    if h.trim ∧ 0 < trim then
      let this := base - 1
      let new := this + (h.size this - trim)
      ((h.split this trim).unlockedFree (new + 1)).map fun h => (some r, h)
    else some (some r, h)
  | _ => none

/-- `memset` of `nbytes` zero bytes from the unit at `p` on. -/
def zeroMem (p nbytes : ℕ) : RtapiHeap :=
  { h with mem := fun u =>
      if p ≤ u ∧ u < p + nbytes / 8 then MallocHdr.zero
      else if u = p + nbytes / 8 then (h.mem u).zeroBytes (nbytes % 8)
      else h.mem u }

/-- `rtapi_calloc`. -/
def calloc (nelem elsize : ℕ) : Option (Option ℕ × RtapiHeap) :=
  let nbytes := nelem * elsize % 2 ^ 64
  match h.malloc nbytes with
  | some (some p, h) => some (some p, h.zeroMem p nbytes)
  | r => r

/-- `rtapi_heap_addmem` of a space above the descriptor. -/
def addmem (space size : ℕ) : Option RtapiHeap :=
  ((h.zeroMem space size).setSize space (size / 8)).unlockedFree (space + 1)

/-- `rtapi_heap_init` of a descriptor at `addr`. -/
def init (addr : ℕ) (mem : ℕ → MallocHdr) : RtapiHeap :=
  { addr, freeP := 0, trim := false
    mem := Function.update mem 0 { mem 0 with next := 0, size := 0 } }

/-- The units of the chunk at `p`. -/
def units (p : ℕ) : List ℕ := List.range' p (h.size p)

end RtapiHeap

end MachinekitHal
