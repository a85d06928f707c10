import MachinekitHal.Runtime.HeapUse

/-!
The size of a block, and another size for it.

* `AllocsizeIn`, `ReallocAnswer`: what `rtapi_allocsize` and `rtapi_realloc` should do for a block.
* `realloc_blocks`: they do it for the blocks without a tag, if the request does not wrap around
  when memory is found for it.
-/

namespace MachinekitHal

open Linking Runs

/-- The bytes that `rtapi_allocsize` says a block has are in its chunk. -/
def AllocsizeIn (h : CountedHeap) (b : HeapBlock) : Prop :=
  b.ptr + (h.rtapiAllocsize b.ptr).toNat ≤ 8 * (b.chunk + h.size b.chunk)

/-- What `rtapi_realloc` of the block `b` returns: a block with room for `n` bytes, apart from the
other chunks `rest`, which starts with the bytes of `b`. What was copied was in its chunk. -/
def ReallocAnswer (h : CountedHeap) (b : HeapBlock) (rest : List ℕ) (n : BitVec 64)
    (out : Except HeapFault (Option ℕ × CountedHeap)) : Prop :=
  ∃ res h', out = .ok (res, h') ∧ ∀ p, res = some p →
    h'.RoomAt (h'.headerAt p) p n.toNat ∧
    (∀ x ∈ rest.flatMap h.units, x ∉ h'.units (h'.headerAt p)) ∧
    (∀ i < min n.toNat (h.rtapiAllocsize b.ptr).toNat, h'.byte (p + i) = h.byte (b.ptr + i)) ∧
    (p ≠ b.ptr → b.ptr + min n.toNat (h.rtapiAllocsize b.ptr).toNat ≤
      8 * (b.chunk + h.size b.chunk))

/-- The chunks apart from that of a block. -/
def HeapUse.rest (s : HeapUse) (b : HeapBlock) : List ℕ :=
  (s.without b.ptr).map (fun b => b.chunk) ++ s.lost

variable {s : HeapUse} {fs : List ℕ} {b : HeapBlock} {n : BitVec 64}

/-- `rtapi_allocsize` finds the size of the chunk. -/
lemma UseInv.allocsize (hI : UseInv s fs) (hb : b ∈ s.live) :
    (s.heap.rtapiAllocsize b.ptr).toNat = 8 * (s.heap.size b.chunk - 1) :=
  RtapiHeap.allocsize_eq (hI.blocks b hb).headerAt
    (hI.ok.chunks.pos _ (List.mem_append_right _ (s.mem_taken hb)))

/-- It is right for the blocks that start behind the header. -/
lemma UseInv.allocsizeIn_iff (hI : UseInv s fs) (hb : b ∈ s.live) :
    AllocsizeIn s.heap b ↔ b.tagged = false := by
  have hpos := hI.ok.chunks.pos _ (List.mem_append_right _ (s.mem_taken hb))
  rw [AllocsizeIn, hI.allocsize hb]
  cases ht : b.tagged with
  | false =>
    have hptr := ((hI.blocks b hb).plain ht).1
    exact iff_of_true (by omega) rfl
  | true =>
    have hbehind := ((hI.blocks b hb).tagged ht).1
    exact iff_of_false (by omega) nofun

/-- No block has room for a request that wraps around. -/
lemma RtapiHeap.RoomAt.lt {r : RtapiHeap} {q p m : ℕ} (hroom : r.RoomAt q p m) : m < 2 ^ 27 := by
  obtain ⟨h1, h2⟩ := hroom
  have := r.size_lt (x := q)
  omega

/-- A request that wraps around is not answered if memory is found for it. -/
lemma UseInv.realloc_wraps (hI : UseInv s fs) (hb : b ∈ s.live) (hwrap : 2 ^ 64 ≤ n.toNat + 7)
    (hfound : s.heap.firstFit (nunits n.toNat) ≠ none) :
    ¬ ReallocAnswer s.heap b (s.rest b) n (s.heap.rtapiRealloc b.ptr n) := by
  rintro ⟨res, h', hrun, hres⟩
  have hsize := hI.allocsize hb
  have hlt := s.heap.size_lt (x := b.chunk)
  have hgt : ¬ n ≤ s.heap.rtapiAllocsize b.ptr := fun hle => by
    have := BitVec.le_def.1 hle
    omega
  rcases s.heap.rtapigMalloc_spec hI.ok n with ⟨_, hsmall⟩ | ⟨q, r, hmalloc, _⟩
  · exact hfound ((hI.ok.chunks.firstFit_eq_none hI.ok.arenas).2 hsmall)
  · simp only [CountedHeap.rtapiRealloc, if_neg hgt, CountedHeap.rtapiMalloc, hmalloc] at hrun
    cases hfree : CountedHeap.rtapiFree _ b.ptr with
    | error e =>
      rw [hfree] at hrun
      cases hrun
    | ok g =>
      rw [hfree] at hrun
      cases hrun
      have hroom := (hres _ rfl).1.lt
      omega

/-- A block without a tag gets the bytes asked for, and keeps its own. -/
lemma UseInv.realloc_plain (hI : UseInv s fs) (hb : b ∈ s.live) (hplain : b.tagged = false)
    (hfit : ∀ _c ∈ s.heap.firstFit (nunits n.toNat), n.toNat + 7 < 2 ^ 64) :
    ReallocAnswer s.heap b (s.rest b) n (s.heap.rtapiRealloc b.ptr n) := by
  have hbin := hI.blocks b hb
  have hptr := (hbin.plain hplain).1
  have hsize := hI.allocsize hb
  have hperm := hI.without hb
  have hok : HeapOk s.heap.toRtapiHeap fs (b.chunk :: s.rest b) s.arena :=
    ⟨hI.ok.chunks.perm hperm, hI.ok.arenas, hI.ok.addr⟩
  have hpos := hok.chunks.pos b.chunk (List.mem_append_right _ (.head _))
  by_cases hle : n ≤ s.heap.rtapiAllocsize b.ptr
  · -- the block is kept
    refine ⟨_, _, by rw [CountedHeap.rtapiRealloc, if_pos hle], fun p hp => ?_⟩
    cases hp
    have hle' := BitVec.le_def.1 hle
    rw [hbin.headerAt]
    refine ⟨⟨hbin.behind, by omega⟩, fun x hx hxb => ?_, fun _ _ => rfl, fun hne => absurd rfl hne⟩
    obtain ⟨d, hd, hxd⟩ := List.mem_flatMap.1 hx
    have hdall : d ∈ fs ++ b.chunk :: s.rest b :=
      List.mem_append_right _ (.tail _ hd)
    obtain rfl := hok.chunks.eq_of_mem hok.arenas hdall
      (List.mem_append_right _ (.head _)) hxd hxb
    exact (List.nodup_cons.1 (List.nodup_append.1 (hok.chunks.nodup hok.arenas)).2.1).1 hd
  · rcases s.heap.rtapiRealloc_moved hok hbin hle hfit with hrun | ⟨q, h', hrun, hM, _⟩
    · exact ⟨_, _, hrun, fun _ hp => by cases hp⟩
    · refine ⟨_, _, hrun, fun p hp => ?_⟩
      cases hp
      rw [show h'.headerAt (8 * (q + 1)) = q from hM.block.headerAt]
      refine ⟨⟨hM.block.behind, hM.block.inside⟩, fun x hx => hM.apart x ?_, fun i hi => ?_,
        fun _ => by omega⟩
      · rw [List.flatMap_cons]
        exact List.mem_append_right _ hx
      · refine hM.bytes i (lt_of_lt_of_le hi (Nat.min_le_right _ _)) ?_
        have := lt_of_lt_of_le hi (Nat.min_le_right _ _)
        omega

/-- For which blocks and sizes `rtapi_allocsize` and `rtapi_realloc` do what they should: the
blocks without a tag, and the sizes that do not wrap around or for which there is no memory. -/
theorem realloc_blocks {addr : ℕ} (haddr : 8 * addr + 2 ^ 32 < 2 ^ 64) {mem : ℕ → MallocHdr}
    (hs : Reach useStep UseOk (HeapUse.init addr mem) s) (hb : b ∈ s.live) (n : BitVec 64) :
    AllocsizeIn s.heap b ∧ ReallocAnswer s.heap b (s.rest b) n (s.heap.rtapiRealloc b.ptr n) ↔
      b.tagged = false ∧
        (n.toNat + 7 < 2 ^ 64 ∨ s.heap.firstFit (nunits n.toNat) = none) := by
  obtain ⟨fs, hI⟩ := UseInv.reach haddr hs
  rw [hI.allocsizeIn_iff hb]
  refine and_congr_right fun hplain => ⟨fun hanswer => ?_, fun hfit => ?_⟩
  · by_contra hno
    rw [not_or] at hno
    exact hI.realloc_wraps hb (Nat.not_lt.1 hno.1) hno.2 hanswer
  · refine hI.realloc_plain hb hplain fun c hc => hfit.resolve_right fun hnone => ?_
    rw [hnone] at hc
    cases hc

/-- A block that moves to another chunk. -/
theorem realloc_blocks_moved : ∃ (s : HeapUse) (b : HeapBlock), b ∈ s.live ∧
    AllocsizeIn s.heap b ∧ ReallocAnswer s.heap b (s.rest b) 40 (s.heap.rtapiRealloc b.ptr 40) := by
  have hv : (run useStep (fun s a => decide (UseOk s a)) (HeapUse.init 0 fun _ => .zero)
      [.addmem 10 1024, .malloc 5, .write 1096 7]).map (fun s => s.live) =
      some [⟨1096, 5, false, 136⟩] := by decide
  obtain ⟨s, -, hlive, hr⟩ := run_map hv
  have hb : ⟨1096, 5, false, 136⟩ ∈ s.live := hlive ▸ (.head _)
  have hreach := hr.mono fun hok => of_decide_eq_true hok
  exact ⟨s, _, hb, (realloc_blocks (by norm_num) hreach hb 40).2 ⟨rfl, .inl (by decide)⟩⟩

/-- A block with an alignment of 64 bytes has 16 bytes, and `rtapi_allocsize` says 72. -/
theorem allocsize_aligned : ∃ (s : HeapUse) (b : HeapBlock),
    Reach useStep UseOk (HeapUse.init 0 fun _ => .zero) s ∧ b ∈ s.live ∧
    (s.heap.rtapiAllocsize b.ptr).toNat = 72 ∧ 8 * (b.chunk + s.heap.size b.chunk) = b.ptr + 16 ∧
    ¬ AllocsizeIn s.heap b := by
  have hv : (run useStep (fun s a => decide (UseOk s a)) (HeapUse.init 0 fun _ => .zero)
      [.addmem 10 1024, .mallocAligned 8 64]).map (fun s => s.live.map fun b =>
        (b, (s.heap.rtapiAllocsize b.ptr).toNat, s.heap.size b.chunk)) =
      some [(⟨1088, 8, true, 128⟩, 72, 10)] := by decide
  obtain ⟨s, -, hlive, hr⟩ := run_map hv
  obtain ⟨b, hb, he⟩ := List.mem_map.1 (show (⟨1088, 8, true, 128⟩, 72, 10) ∈ s.live.map fun b =>
    (b, (s.heap.rtapiAllocsize b.ptr).toNat, s.heap.size b.chunk) by
      rw [hlive]
      exact (.head _))
  obtain ⟨rfl, hsize, hchunk⟩ : b = ⟨1088, 8, true, 128⟩ ∧
      (s.heap.rtapiAllocsize b.ptr).toNat = 72 ∧ s.heap.size b.chunk = 10 := by
    simpa only [Prod.mk.injEq] using he
  refine ⟨s, _, hr.mono fun hok => of_decide_eq_true hok, hb, hsize, ?_,
    fun hin => ?_⟩
  · rw [hchunk]
    rfl
  · rw [AllocsizeIn, hsize, hchunk] at hin
    norm_num at hin

end MachinekitHal
