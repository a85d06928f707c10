import Mathlib
import MachinekitHal.Lib.Runs
import MachinekitHal.Lib.Word
import MachinekitHal.Runtime.Heap

/-!
`hal_memory.c`: the HAL memory segment.

Memory for realtime data is taken from the top of the segment downwards, and the heap of the
descriptors grows upwards from the bottom. Offsets in the segment are in bytes; an `int`, a
`long` and a `size_t` wrap.

* `HalMem`: the segment, with the blocks for realtime data and the memory of the heap.
* `shmallocRt`, `halHeapAddmem`, `shmallocDesc`, `shmallocDescAligned`, `shmfreeDesc`: the
  operations; `none` is a program that a write out of the segment or a loop has ended.
* `hal_memory`: bottom, top and the blocks are in order (`HalMemOk`) in every run in which
  sizes meet `memFits`; `hal_memory_three` is a block of three bytes.
-/

namespace MachinekitHal

open Runs Word

/-- `size` bytes of the segment from `start` on. -/
structure MemRange where
  start : ℤ
  size : ℕ
  deriving DecidableEq

/-- The bytes of a range. -/
def MemRange.bytes (r : MemRange) : Set ℤ := Set.Ico r.start (r.start + r.size)

/-- The fields of `hal_data` for memory: `shmem_bot`, `shmem_top` and the heap, whose
descriptor is at `heapOff`. `rtBlocks` and `arena` are history: the blocks that
`shmalloc_rt` returned and the memory added to the heap. -/
structure HalMem where
  halSize : ℤ
  shmemBot : ℤ
  shmemTop : ℤ
  heapOff : ℕ
  heap : RtapiHeap
  rtBlocks : List MemRange
  arena : List MemRange

/-- `HAL_HEAP_MINFREE`. -/
def halHeapMinfree : ℕ := 1024

/-- `RTAPI_ALIGN(x, RTAPI_CACHELINE)` of a `size_t`. -/
def alignSize (x : ℕ) : ℕ := (x + wrapSize (-x) % 64) % 2 ^ 64

namespace HalMem

variable (s : HalMem)

/-- `hal_freemem`. -/
def freemem : ℕ := wrapSize (s.shmemTop - s.shmemBot)

/-- `HAL_HEAP_INCREMENT`. -/
def halHeapIncrement : ℕ := s.freemem / 2

/-- A `memset` of `size` bytes from unit `p` of the heap on stays in the segment. -/
def fits (p size : ℕ) : Prop := s.heapOff + 8 * p + size ≤ s.halSize
  deriving Decidable

/-- `hal_heap_addmem`. -/
def halHeapAddmem (click : ℕ) : Option HalMem :=
  let actual := alignSize click
  -- can't extend arena - below minfree
  if s.freemem < halHeapMinfree then some s
  else if s.shmemBot < s.heapOff then some s
  else
    let space := ((s.shmemBot - s.heapOff) / 8).toNat
    if ¬ s.fits space actual then none
    else (s.heap.addmem space actual).map fun heap =>
      { s with heap, shmemBot := wrapInt (s.shmemBot + actual)
               arena := ⟨s.shmemBot, actual⟩ :: s.arena }

/-- `rtapi_calloc` of one element. -/
def heapCalloc (size : ℕ) : Option (Option ℕ × HalMem) :=
  match s.heap.calloc 1 size with
  | none => none
  | some (none, heap) => some (none, { s with heap })
  | some (some p, heap) => if s.fits p size then some (some p, { s with heap }) else none

/-- `shmalloc_desc`. -/
def shmallocDesc (size : ℕ) : Option (Option ℕ × HalMem) :=
  match s.heapCalloc size with
  -- extend shm arena on failure
  | some (none, s) =>
    match s.halHeapAddmem s.halHeapIncrement with
    | none => none
    | some s => s.heapCalloc size
  | r => r

/-- `shmfree_desc`. -/
def shmfreeDesc (p : ℕ) : Option HalMem := (s.heap.unlockedFree p).map fun heap => { s with heap }

/-- `shmalloc_desc_aligned`. -/
def shmallocDescAligned (size alignment : ℕ) : Option (Option ℕ × HalMem) :=
  -- force arena expansion by alloc/free just in case
  match s.shmallocDesc ((size + alignment) % 2 ^ 64) with
  | none => none
  | some (none, s) => some (none, s)
  | some (some dummy, s) =>
    match s.shmfreeDesc dummy with
    | none => none
    | some s =>
      match s.heap.mallocAligned size alignment with
      | none => none
      | some (none, heap) => some (none, { s with heap })
      | some (some p, heap) =>
        if s.fits p size then some (some p, { s with heap := heap.zeroMem p size }) else none

/-- The alignment of `shmalloc_rt`. -/
def alignRt (size : ℕ) (tmpTop : ℤ) : ℤ :=
  if 8 ≤ size then tmpTop / 8 * 8
  else if 4 ≤ size then tmpTop / 4 * 4
  else if size = 2 then tmpTop / 2 * 2
  else tmpTop

/-- `shmalloc_rt`. -/
def shmallocRt (size : ℕ) : Option ℤ × HalMem :=
  let tmpTop := alignRt size (wrapLong (s.shmemTop - size))
  -- is there enough memory available?
  if tmpTop < s.shmemBot then (none, s)
  else (some tmpTop, { s with shmemTop := wrapInt tmpTop
                              rtBlocks := ⟨tmpTop, size⟩ :: s.rtBlocks })

end HalMem

/-- The calls. -/
inductive MemAct where
  | shmallocRt (size : ℕ)
  | shmallocDesc (size : ℕ)
  | shmallocDescAligned (size alignment : ℕ)
  | shmfreeDesc (p : ℕ)
  | halHeapAddmem (click : ℕ)

/-- One call. -/
def memStep (s : HalMem) : MemAct → Option HalMem
  | .shmallocRt size => some (s.shmallocRt size).2
  | .shmallocDesc size => (s.shmallocDesc size).map Prod.snd
  | .shmallocDescAligned size alignment => (s.shmallocDescAligned size alignment).map Prod.snd
  | .shmfreeDesc p => s.shmfreeDesc p
  | .halHeapAddmem click => s.halHeapAddmem click

/-- The sizes for which the arithmetic is right: no block of three bytes unless it comes out
aligned, no `shmalloc_rt` beyond half of the address space, and no extension of the heap
beyond the free memory. -/
def memFits (s : HalMem) : MemAct → Prop
  | .shmallocRt size => (size = 3 → s.shmemTop % 4 = 3 ∨ s.shmemTop - 3 < s.shmemBot) ∧
      size ≤ 2 ^ 63 + s.shmemTop
  | .halHeapAddmem click => s.freemem < halHeapMinfree ∨ alignSize click ≤ s.freemem
  | _ => True

/-- The alignment that `hal_internal.h` promises for a block. -/
def RtAligned (r : MemRange) : Prop := (3 ≤ r.size → 4 ∣ r.start) ∧ (r.size = 2 → 2 ∣ r.start)

/-- The segment is in order. -/
structure HalMemOk (s : HalMem) : Prop where
  bounds : s.shmemBot ≤ s.shmemTop ∧ s.shmemTop ≤ s.halSize
  /-- a block has all its bytes in the segment -/
  inside : ∀ b ∈ s.rtBlocks, b.bytes ⊆ Set.Ico 0 s.halSize
  /-- and no other block has one of them -/
  blocks : s.rtBlocks.Pairwise fun b b' => Disjoint b.bytes b'.bytes
  /-- nor has the heap -/
  arena : ∀ b ∈ s.rtBlocks, ∀ r ∈ s.arena, Disjoint b.bytes r.bytes
  aligned : ∀ b ∈ s.rtBlocks, RtAligned b

/-! ### Arithmetic -/

/-- Alignment takes less than a cache line. -/
lemma alignSize_le (x : ℕ) : alignSize x ≤ x + 63 := by
  have h1 := Nat.mod_lt (wrapSize (-x)) (show 0 < 64 by norm_num)
  have h2 := Nat.mod_le (x + wrapSize (-x) % 64) (2 ^ 64)
  rw [alignSize]
  omega

namespace HalMem

variable {s s' : HalMem} {size : ℕ} {v : ℤ}

/-- Alignment goes downwards, to what is promised if the size is not 3. -/
lemma alignRt_le : alignRt size v ≤ v := by
  rw [alignRt]
  split_ifs <;> omega

lemma alignRt_aligned (h3 : size = 3 → 4 ∣ v) : RtAligned ⟨alignRt size v, size⟩ := by
  show (3 ≤ size → 4 ∣ alignRt size v) ∧ (size = 2 → 2 ∣ alignRt size v)
  rw [alignRt]
  split_ifs with h8 h4 h2
  · exact ⟨fun _ => by omega, fun h => by omega⟩
  · exact ⟨fun _ => by omega, fun h => by omega⟩
  · exact ⟨fun h => by omega, fun _ => by omega⟩
  · exact ⟨fun h => h3 (by omega), fun h => absurd h h2⟩

/-! ### The invariant -/

/-- What is kept: the blocks lie above the top and the heap below the bottom. -/
structure Inv (s : HalMem) : Prop where
  bot : 0 ≤ s.shmemBot
  le : s.shmemBot ≤ s.shmemTop
  top : s.shmemTop ≤ s.halSize
  small : s.halSize < 2 ^ 31
  above : ∀ b ∈ s.rtBlocks, s.shmemTop ≤ b.start ∧ b.start + b.size ≤ s.halSize
  /-- each block lies below the ones before it -/
  blocks : s.rtBlocks.Pairwise fun b b' : MemRange => b.start + b.size ≤ b'.start
  below : ∀ r ∈ s.arena, r.start + r.size ≤ s.shmemBot
  aligned : ∀ b ∈ s.rtBlocks, RtAligned b

/-- Ranges one below the other. -/
lemma disjoint_of_le {r r' : MemRange} (h : r.start + r.size ≤ r'.start) :
    Disjoint r.bytes r'.bytes := by
  refine Set.disjoint_left.2 fun x hx hx' => ?_
  have h1 := hx.2
  have h2 := hx'.1
  omega

lemma Inv.ok (hI : s.Inv) : HalMemOk s := by
  refine ⟨⟨hI.le, hI.top⟩, fun b hb x hx => ?_, ?_, fun b hb r hr => ?_, hI.aligned⟩
  · obtain ⟨h1, h2⟩ := hI.above b hb
    have h3 := hI.bot
    have h4 := hI.le
    exact ⟨by have := hx.1; omega, by have := hx.2; omega⟩
  · exact hI.blocks.imp disjoint_of_le
  · have h1 := (hI.above b hb).1
    have h2 := hI.below r hr
    have h3 := hI.le
    exact (disjoint_of_le (by omega)).symm

lemma Inv.freemem_eq (hI : s.Inv) : (s.freemem : ℤ) = s.shmemTop - s.shmemBot := by
  have h1 := hI.bot
  have h2 := hI.le
  have h3 := hI.top
  have h4 := hI.small
  exact wrapSize_eq (by omega) (by omega)

lemma Inv.withHeap (hI : s.Inv) (heap : RtapiHeap) : Inv { s with heap } :=
  ⟨hI.bot, hI.le, hI.top, hI.small, hI.above, hI.blocks, hI.below, hI.aligned⟩

/-- A block from the free memory, put in front of the others. -/
lemma Inv.cons (hI : s.Inv) {top : ℤ} (hbot : s.shmemBot ≤ top) (htop : top + size ≤ s.shmemTop)
    (hal : RtAligned ⟨top, size⟩) :
    Inv { s with shmemTop := top, rtBlocks := ⟨top, size⟩ :: s.rtBlocks } := by
  have hhal := hI.top
  refine ⟨hI.bot, hbot, ?_, hI.small, fun b hb => ?_, ?_, hI.below, fun b hb => ?_⟩
  · show top ≤ s.halSize
    omega
  · show top ≤ b.start ∧ _
    rcases List.mem_cons.1 hb with rfl | hb
    · exact ⟨le_refl _, htop.trans hhal⟩
    · obtain ⟨h1, h2⟩ := hI.above b hb
      exact ⟨by omega, h2⟩
  · exact List.pairwise_cons.2 ⟨fun b hb => htop.trans (hI.above b hb).1, hI.blocks⟩
  · rcases List.mem_cons.1 hb with rfl | hb
    · exact hal
    · exact hI.aligned b hb

/-- `shmalloc_rt` takes memory below the top. -/
lemma Inv.shmallocRt (hI : s.Inv) (hfit : memFits s (.shmallocRt size)) :
    (s.shmallocRt size).2.Inv := by
  obtain ⟨h3, hle⟩ := hfit
  have hbot := hI.bot
  have htop := hI.top
  have hsmall := hI.small
  have hlebt := hI.le
  have hlong : wrapLong (s.shmemTop - size) = s.shmemTop - size :=
    wrapLong_eq (by omega) (by omega)
  have hdown : alignRt size (s.shmemTop - size) ≤ s.shmemTop - size := alignRt_le
  rw [HalMem.shmallocRt, hlong]
  split
  · exact hI
  · next hroom =>
      rw [not_lt] at hroom
      have hal : RtAligned ⟨alignRt size (s.shmemTop - size), size⟩ := by
        refine alignRt_aligned fun he => ?_
        subst he
        rcases h3 rfl with h3 | h3
        · push_cast
          omega
        · push_cast at hdown hroom
          omega
      have hint : wrapInt (alignRt size (s.shmemTop - size)) = alignRt size (s.shmemTop - size) :=
        wrapInt_eq (by omega) (by omega)
      simpa only [hint] using hI.cons hroom (by omega) hal

/-- `hal_heap_addmem` takes memory above the bottom. -/
lemma Inv.halHeapAddmem (hI : s.Inv) {click : ℕ} (hfit : memFits s (.halHeapAddmem click))
    (hs : s.halHeapAddmem click = some s') : s'.Inv := by
  rw [HalMem.halHeapAddmem] at hs
  split at hs
  · cases hs
    exact hI
  · next hmin =>
      split at hs
      · cases hs
        exact hI
      · dsimp only at hs
        split at hs
        · cases hs
        · obtain ⟨heap, -, rfl⟩ := Option.map_eq_some_iff.1 hs
          have hbot := hI.bot
          have htop := hI.top
          have hsmall := hI.small
          have hfree := hI.freemem_eq
          have hactual : alignSize click ≤ s.freemem := hfit.resolve_left hmin
          have hint : wrapInt (s.shmemBot + alignSize click) = s.shmemBot + alignSize click :=
            wrapInt_eq (by omega) (by omega)
          refine ⟨?_, ?_, htop, hsmall, hI.above, hI.blocks, fun r hr => ?_, hI.aligned⟩
          · show 0 ≤ wrapInt _
            omega
          · show wrapInt _ ≤ s.shmemTop
            omega
          · show _ ≤ wrapInt _
            rcases List.mem_cons.1 hr with rfl | hr
            · rw [hint]
            · have h1 := hI.below r hr
              omega

/-- Half of the free memory, aligned, is free. -/
lemma memFits_increment (s : HalMem) : memFits s (.halHeapAddmem s.halHeapIncrement) := by
  by_cases hmin : s.freemem < halHeapMinfree
  · exact .inl hmin
  · have hal := alignSize_le s.halHeapIncrement
    rw [halHeapMinfree] at hmin
    rw [HalMem.halHeapIncrement] at hal
    exact .inr (by rw [HalMem.halHeapIncrement]; omega)

lemma Inv.heapCalloc (hI : s.Inv) {r : Option ℕ} (hs : s.heapCalloc size = some (r, s')) :
    s'.Inv := by
  rw [HalMem.heapCalloc] at hs
  split at hs
  · cases hs
  · cases hs
    exact hI.withHeap _
  · split at hs
    · cases hs
      exact hI.withHeap _
    · cases hs

lemma Inv.shmallocDesc (hI : s.Inv) {r : Option ℕ} (hs : s.shmallocDesc size = some (r, s')) :
    s'.Inv := by
  rw [HalMem.shmallocDesc] at hs
  split at hs
  · next t ht =>
      have hI₁ := hI.heapCalloc ht
      split at hs
      · cases hs
      · next t' ht' =>
          exact (hI₁.halHeapAddmem (memFits_increment t) ht').heapCalloc hs
  · exact hI.heapCalloc hs

lemma Inv.shmallocDescAligned (hI : s.Inv) {alignment : ℕ} {r : Option ℕ}
    (hs : s.shmallocDescAligned size alignment = some (r, s')) : s'.Inv := by
  rw [HalMem.shmallocDescAligned] at hs
  split at hs
  · cases hs
  · next t ht =>
      cases hs
      exact hI.shmallocDesc ht
  · next dummy t ht =>
      have hI₁ := hI.shmallocDesc ht
      split at hs
      · cases hs
      · next t' ht' =>
          obtain ⟨heap, -, rfl⟩ := Option.map_eq_some_iff.1 ht'
          split at hs
          · cases hs
          · cases hs
            exact hI₁.withHeap _
          · split at hs
            · cases hs
              exact hI₁.withHeap _
            · cases hs

/-- Every call whose sizes fit keeps the segment in order. -/
lemma Inv.step (hI : s.Inv) {a : MemAct} (hfit : memFits s a) (hs : memStep s a = some s') :
    s'.Inv := by
  cases a with
  | shmallocRt size =>
    cases hs
    exact hI.shmallocRt hfit
  | shmallocDesc size =>
    obtain ⟨⟨r, t⟩, ht, rfl⟩ := Option.map_eq_some_iff.1 hs
    exact hI.shmallocDesc ht
  | shmallocDescAligned size alignment =>
    obtain ⟨⟨r, t⟩, ht, rfl⟩ := Option.map_eq_some_iff.1 hs
    exact hI.shmallocDescAligned ht
  | shmfreeDesc p =>
    obtain ⟨heap, -, rfl⟩ := Option.map_eq_some_iff.1 hs
    exact hI.withHeap heap
  | halHeapAddmem click => exact hI.halHeapAddmem hfit hs

/-! ### The result -/

/-- The segment of `init_hal_data`, in front of the first extension of the heap; `arenaOff`
is where `hal_data` ends. -/
def init (addr heapOff arenaOff : ℕ) (halSize : ℤ) (mem : ℕ → MallocHdr) : HalMem :=
  { halSize, shmemBot := arenaOff, shmemTop := halSize, heapOff
    heap := RtapiHeap.init addr mem, rtBlocks := [], arena := [] }

end HalMem

/-- **The HAL segment.** In every run in which the sizes fit it is in order. -/
theorem hal_memory {addr heapOff arenaOff : ℕ} {halSize : ℤ} {mem : ℕ → MallocHdr} {s : HalMem}
    (hlo : arenaOff ≤ halSize) (hhi : halSize < 2 ^ 31)
    (hs : Reach memStep memFits (HalMem.init addr heapOff arenaOff halSize mem) s) :
    HalMemOk s := by
  have hI : s.Inv := by
    refine hs.invariant (P := HalMem.Inv) ?_ fun hI hfit hs => hI.step hfit hs
    exact ⟨Int.natCast_nonneg _, hlo, le_refl _, hhi, fun b hb => absurd hb List.not_mem_nil,
      List.Pairwise.nil, fun r hr => absurd hr List.not_mem_nil,
      fun b hb => absurd hb List.not_mem_nil⟩
  exact hI.ok

/-- A check of sizes. -/
instance (s : HalMem) (a : MemAct) : Decidable (memFits s a) :=
  match a with
  | .shmallocRt _ => inferInstanceAs (Decidable (_ ∧ _))
  | .shmallocDesc _ | .shmallocDescAligned _ _ | .shmfreeDesc _ => inferInstanceAs (Decidable True)
  | .halHeapAddmem _ => inferInstanceAs (Decidable (_ ∨ _))

/-- The segment of a HAL of 8 KiB. -/
def smallMem : HalMem := HalMem.init 512 64 192 8192 fun _ => .zero

/-- Blocks of several sizes, and a descriptor for which the heap is extended. -/
def memCalls : List MemAct :=
  [.halHeapAddmem 2048, .shmallocRt 10, .shmallocRt 1, .shmallocRt 3, .shmallocDesc 3000,
    .shmallocDescAligned 100 64, .shmallocRt 2]

/-- The blocks are apart from each other. -/
theorem hal_memory_smallMem : ∃ s, s.rtBlocks = [⟨8170, 2⟩, ⟨8172, 3⟩, ⟨8175, 1⟩, ⟨8176, 10⟩] ∧
    s.arena = [⟨2240, 3008⟩, ⟨192, 2048⟩] ∧ HalMemOk s := by
  have hv : (run memStep (fun s a => decide (memFits s a)) smallMem memCalls).map
      (fun s => (s.rtBlocks, s.arena)) = some ([⟨8170, 2⟩, ⟨8172, 3⟩, ⟨8175, 1⟩, ⟨8176, 10⟩],
        [⟨2240, 3008⟩, ⟨192, 2048⟩]) := by decide +kernel
  obtain ⟨s, -, he, hr⟩ := run_map hv
  obtain ⟨hblocks, harena⟩ := Prod.mk.inj he
  exact ⟨s, hblocks, harena, hal_memory (by norm_num) (by norm_num)
    (hr.mono fun hok => of_decide_eq_true hok)⟩

/-- A block of three bytes is not aligned. -/
theorem hal_memory_three : ¬ ∀ s : HalMem, Reach memStep (fun _ _ => True) smallMem s →
    HalMemOk s := by
  intro h
  have hv : (memStep smallMem (.shmallocRt 3)).map (fun s => s.rtBlocks) = some [⟨8189, 3⟩] := by
    decide +kernel
  obtain ⟨s, hs, hblocks⟩ := Option.map_eq_some_iff.1 hv
  have hok := h s (.tail .refl trivial hs)
  have hal := (hok.aligned ⟨8189, 3⟩ (by rw [hblocks]; exact (.head _))).1 (le_refl 3)
  exact absurd hal (by decide)

end MachinekitHal
