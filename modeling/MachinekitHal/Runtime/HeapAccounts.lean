import MachinekitHal.Runtime.HeapUse

/-!
What a heap says about itself.

* `rtapiHeapStatus_spec`: the status adds up the free chunks.
* `UseInv.lost_step`: no chunk is lost where alignments are not too small for the tag.
* `Counts`, `Counts.step`: the bytes that were allocated are those of the chunks in use and those
  that were freed.
* `heap_accounts`: what the status says in every state reached; `heap_accounts_trim` is a block
  that was trimmed.
-/

namespace MachinekitHal

open Linking Runs

namespace CountedHeap

variable {h : CountedHeap} {fs ls arena : List ℕ} {n align : BitVec 64}

/-- The last step of `rtapi_heap_status`. -/
def statEnd (hs : HeapStat) : HeapStat :=
  { hs with totalAvail := hs.totalAvail * 8, largest := hs.largest * 8 }

/-- The loop of `rtapi_heap_status` goes along the free list. -/
lemma statLoop_path {a fuel : ℕ} {ys : List ℕ} (hp : Path h.next a ys h.freeP)
    (hno : h.freeP ∉ ys) (hf : ys.length < fuel) (hs : HeapStat) :
    h.statLoop fuel (h.next a) hs =
      some (statEnd ((ys ++ [h.freeP]).foldl h.statChunk hs)) := by
  obtain ⟨m, rfl⟩ : ∃ m, fuel = m + 1 := ⟨fuel - 1, by omega⟩
  induction ys generalizing a m hs with
  | nil =>
    have hnext : h.next a = h.freeP := hp
    rw [statLoop, hnext]
    exact if_pos rfl
  | cons y ys ih =>
    rw [List.mem_cons, not_or] at hno
    rw [List.length_cons] at hf
    obtain ⟨k, rfl⟩ : ∃ k, m = k + 1 := ⟨m - 1, by omega⟩
    rw [statLoop, hp.1]
    exact (if_neg (Ne.symm hno.1)).trans (ih hp.2 hno.2 (h.statChunk hs y) k (by omega))

/-- A chunk is added up, and the counters are as they were. -/
lemma statChunk_spec (hs : HeapStat) (p : ℕ) :
    (h.statChunk hs p).totalAvail = hs.totalAvail + BitVec.ofNat 64 (h.size p) ∧
      (h.statChunk hs p).allocated = hs.allocated ∧ (h.statChunk hs p).freed = hs.freed := by
  rw [statChunk]
  split
  · rename_i h0
    exact ⟨by rw [h0]; exact (BitVec.add_zero _).symm, rfl, rfl⟩
  · exact ⟨rfl, rfl, rfl⟩

lemma foldl_statChunk (cs : List ℕ) (hs : HeapStat) :
    (cs.foldl h.statChunk hs).totalAvail =
        hs.totalAvail + BitVec.ofNat 64 (cs.map h.size).sum ∧
      (cs.foldl h.statChunk hs).allocated = hs.allocated ∧
      (cs.foldl h.statChunk hs).freed = hs.freed := by
  induction cs generalizing hs with
  | nil => exact ⟨(BitVec.add_zero _).symm, rfl, rfl⟩
  | cons c cs ih =>
    obtain ⟨h1, h2, h3⟩ := h.statChunk_spec hs c
    obtain ⟨ih1, ih2, ih3⟩ := ih (h.statChunk hs c)
    rw [List.foldl_cons, List.map_cons, List.sum_cons]
    exact ⟨by rw [ih1, h1, BitVec.add_assoc, BitVec.ofNat_add], ih2.trans h2, ih3.trans h3⟩

end CountedHeap

/-- The chunks have the sizes of the memory. -/
lemma Chunks.sum_sizes {r : RtapiHeap} {fs ls arena : List ℕ} (hC : Chunks r fs ls arena) :
    (fs.map r.size).sum + (ls.map r.size).sum = arena.length := by
  have hlen := hC.part.length_eq
  have hunits : (fun c => (r.units c).length) = r.size := funext fun c => List.length_range'
  rw [List.length_flatMap, hunits, List.map_append, List.sum_append] at hlen
  exact hlen

/-- `rtapi_heap_status` of a heap that is in order. -/
lemma CountedHeap.rtapiHeapStatus_spec {h : CountedHeap} {fs ls arena : List ℕ}
    (hok : HeapOk h.toRtapiHeap fs ls arena) :
    ∃ st, h.rtapiHeapStatus = some st ∧ st.totalAvail.toNat = 8 * (fs.map h.size).sum ∧
      st.allocated = h.allocated ∧ st.freed = h.freed.signExtend 64 := by
  obtain ⟨ys, hring, hperm, hlen⟩ := hok.chunks.rotate hok.arenas
  have hnd := hperm.nodup_iff.2 hok.chunks.nodup_ring
  obtain ⟨h1, h2, h3⟩ := h.foldl_statChunk (ys ++ [h.freeP])
    { arenaSize := h.arenaSize, totalAvail := 0, fragments := 0, largest := 0
      requested := h.requested, allocated := h.allocated, freed := h.freed.signExtend 64 }
  refine ⟨_, statLoop_path hring (List.nodup_cons.1 hnd).1 hlen _, ?_, h2, h3⟩
  have hsum : ((ys ++ [h.freeP]).map h.size).sum = (fs.map h.size).sum := by
    have hall := (List.perm_append_singleton h.freeP ys).trans hperm
    rw [(hall.map h.size).sum_eq, List.map_cons, List.sum_cons, hok.chunks.base, Nat.zero_add]
  have hbound : (fs.map h.size).sum ≤ 2 ^ 29 := by
    have hsizes := hok.chunks.sum_sizes
    have := hok.arenas.length_le
    omega
  have hadd : ∀ x : BitVec 64, (0 : BitVec 64) + x = x := BitVec.zero_add
  change (BitVec.toNat (_ * 8)) = _
  rw [h1, hsum, hadd, BitVec.toNat_mul, BitVec.toNat_ofNat,
    show (8 : BitVec 64).toNat = 8 from rfl]
  omega

/-! ### Counters -/

variable {s t : HeapUse} {fs : List ℕ} {a : HeapOp}

/-- A step loses no chunk, if its alignment is not too small. -/
lemma UseInv.lost_step (hI : UseInv s fs) (ha : UseOk s a) (hret : Returned s a)
    (ht : useStep s a = some t) : t.lost = s.lost := by
  cases a with
  | mallocAligned n align =>
    obtain ⟨⟨res, h'⟩, hrun, rfl⟩ := returned_eq ht
    cases res with
    | some p => rfl
    | none =>
      have hinner : s.heap.innerRegion n align = none := by
        by_cases hno : align &&& (align - 1) = 0 →
            s.heap.firstFit (nunits (n + align).toNat) = none
        · exact (s.heap.rtapiMallocAligned_nothing hI.ok hno).1
        -- memory was found, and a block was returned
        obtain ⟨hpow, hfound⟩ := Classical.not_imp.1 hno
        obtain ⟨c, hc⟩ := Option.ne_none_iff_exists'.1 hfound
        have h4 : ¬ align < 4 := fun h4 => hfound (hret hpow h4)
        have h0 : align ≠ 0 := by
          rintro rfl
          exact h4 (by decide)
        obtain ⟨k, _, hk⟩ := (Word.and_sub_one_eq_zero h0).1 hpow
        have h4' : 2 ^ 2 ≤ 2 ^ k := hk ▸ BitVec.le_def.1 (BitVec.not_lt.1 h4)
        obtain ⟨q, p, h'', hrun', _⟩ := s.heap.rtapiMallocAligned_spec hI.ok hk
          ((Nat.pow_le_pow_iff_right (by norm_num)).1 h4') (hk ▸ ha.2.1 hpow c hc)
          ⟨c, hI.ok.chunks.firstFit_mem hI.ok.arenas (Nat.succ_pos _) hc⟩
        rw [hrun'] at hrun
        cases hrun
      rw [hinner]
      rfl
  | addmem space size =>
    obtain ⟨h', _, rfl⟩ := returned_eq ht
    rfl
  | malloc n =>
    obtain ⟨⟨res, h'⟩, _, rfl⟩ := returned_eq ht
    cases res <;> rfl
  | calloc nelem elsize =>
    obtain ⟨⟨res, h'⟩, _, rfl⟩ := returned_eq ht
    cases res <;> rfl
  | free ptr =>
    obtain ⟨h', _, rfl⟩ := returned_eq ht
    rfl
  | realloc ptr n =>
    obtain ⟨⟨res, h'⟩, _, rfl⟩ := returned_eq ht
    cases res with
    | none => rfl
    | some p =>
      rw [HeapUse.obtainInstead]
      split_ifs <;> rfl
  | write i v =>
    cases ht
    rfl
  | setflags trim =>
    cases ht
    rfl

/-- The bytes that were allocated are those behind the headers of the chunks that were taken, and
those that were freed, which an `int` holds. -/
def Counts (s : HeapUse) : Prop :=
  s.heap.freed.toNat < 2 ^ 31 ∧ s.heap.allocated =
    BitVec.ofNat 64 (payloads s.heap.toRtapiHeap s.taken + s.heap.freed.toNat)

lemma Counts.step {gained paid : ℕ} (hc : Counts s) (hL : Ledger s t gained paid)
    (hlt : s.heap.freed.toNat + paid < 2 ^ 31) : Counts t := by
  have hfreed : t.heap.freed.toNat = s.heap.freed.toNat + paid := by
    rw [hL.freed, BitVec.toNat_add, BitVec.toNat_ofNat]
    omega
  refine ⟨by omega, ?_⟩
  rw [hL.allocated, hc.2, ← BitVec.ofNat_add, hfreed]
  congr 1
  have := hL.payload
  omega

lemma Counts.sub (hc : Counts s) :
    s.heap.allocated - s.heap.freed.signExtend 64 =
      BitVec.ofNat 64 (payloads s.heap.toRtapiHeap s.taken) := by
  have hsign : s.heap.freed.signExtend 64 = BitVec.ofNat 64 s.heap.freed.toNat := by
    have hmsb : s.heap.freed.msb = false := BitVec.msb_eq_false_iff_two_mul_lt.2 (by
      have := hc.1
      omega)
    rw [BitVec.signExtend_eq_setWidth_of_msb_false hmsb]
    refine BitVec.eq_of_toNat_eq ?_
    rw [BitVec.toNat_setWidth, BitVec.toNat_ofNat]
  rw [hc.2, hsign, BitVec.ofNat_add, BitVec.add_sub_cancel]

/-- The bytes behind the headers are less than the memory. -/
lemma payloads_le (r : RtapiHeap) (cs : List ℕ) : payloads r cs ≤ 8 * (cs.map r.size).sum := by
  induction cs with
  | nil => exact le_refl _
  | cons c cs ih =>
    rw [payloads_cons, List.map_cons, List.sum_cons]
    omega

/-! ### Every state reached -/

lemma HeapUse.arena_length (s : HeapUse) :
    8 * s.arena.length = (s.arenas.map fun m => 8 * (m.2.toNat / 8)).sum := by
  rw [HeapUse.arena, List.length_flatMap]
  simp only [List.length_range']
  induction s.arenas with
  | nil => rfl
  | cons m ms ih =>
    rw [List.map_cons, List.map_cons, List.sum_cons, List.sum_cons, Nat.mul_add, ih]

/-- In every state reached without a chunk that was lost, the memory that is available and the
chunks of the blocks are the memory that was added. If nothing was trimmed either, and less than
2 GiB were freed, the bytes that were allocated and not freed are those behind the headers of the
blocks. -/
theorem heap_accounts {addr : ℕ} (haddr : 8 * addr + 2 ^ 32 < 2 ^ 64) {mem : ℕ → MallocHdr} :
    (∀ s, Reach useStep (fun s a => UseOk s a ∧ Returned s a) (HeapUse.init addr mem) s →
      ∃ st, s.heap.rtapiHeapStatus = some st ∧
        st.totalAvail.toNat + (s.live.map fun b => 8 * s.heap.size b.chunk).sum =
          (s.arenas.map fun m => 8 * (m.2.toNat / 8)).sum) ∧
    ∀ s, Reach useStep (fun s a => UseOk s a ∧ Returned s a ∧ Counted s a)
        (HeapUse.init addr mem) s →
      ∃ st, s.heap.rtapiHeapStatus = some st ∧
        st.totalAvail.toNat + (s.live.map fun b => 8 * s.heap.size b.chunk).sum =
          (s.arenas.map fun m => 8 * (m.2.toNat / 8)).sum ∧
        (st.allocated - st.freed).toNat =
          (s.live.map fun b => 8 * (s.heap.size b.chunk - 1)).sum := by
  have hstatus : ∀ s, Reach useStep (fun s a => UseOk s a ∧ Returned s a)
      (HeapUse.init addr mem) s → s.lost = [] ∧ ∃ fs, UseInv s fs ∧
      ∃ st, s.heap.rtapiHeapStatus = some st ∧
        st.totalAvail.toNat + (s.live.map fun b => 8 * s.heap.size b.chunk).sum =
          (s.arenas.map fun m => 8 * (m.2.toNat / 8)).sum ∧
        st.allocated = s.heap.allocated ∧ st.freed = s.heap.freed.signExtend 64 := by
    intro s hs
    obtain ⟨hlost, fs, hI⟩ : s.lost = [] ∧ ∃ fs, UseInv s fs := by
      refine hs.invariant (P := fun s => s.lost = [] ∧ ∃ fs, UseInv s fs)
        ⟨rfl, [], useInv_init haddr mem⟩ ?_
      rintro s a t ⟨hlost, fs, hI⟩ ⟨ha, hret⟩ ht
      exact ⟨(hI.lost_step ha hret ht).trans hlost, (hI.step ha ht).1⟩
    obtain ⟨st, hst, havail, halloc, hfreed⟩ := CountedHeap.rtapiHeapStatus_spec hI.ok
    refine ⟨hlost, fs, hI, st, hst, ?_, halloc, hfreed⟩
    have hsizes := hI.ok.chunks.sum_sizes
    have hlive : (s.live.map fun b => 8 * s.heap.size b.chunk).sum =
        8 * (s.taken.map s.heap.size).sum := by
      rw [HeapUse.taken, hlost, List.append_nil, List.map_map]
      exact List.sum_map_mul_left _ _ _
    rw [havail, hlive, ← s.arena_length, ← hsizes, Nat.mul_add]
  refine ⟨fun s hs => ?_, fun s hs => ?_⟩
  · obtain ⟨_, _, _, st, hst, havail, _⟩ := hstatus s hs
    exact ⟨st, hst, havail⟩
  · obtain ⟨hlost, fs, hI, st, hst, havail, halloc, hfreed⟩ :=
      hstatus s (hs.mono fun h => ⟨h.1, h.2.1⟩)
    have hcounts : Counts s := by
      refine (hs.invariant (P := fun s => Counts s ∧ ∃ fs, UseInv s fs)
        ⟨⟨show (0 : BitVec 32).toNat < 2 ^ 31 by decide, rfl⟩, [], useInv_init haddr mem⟩ ?_).1
      rintro s a t ⟨hc, fs, hI⟩ ⟨ha, _, hcount⟩ ht
      obtain ⟨hinv, hledger⟩ := hI.step ha ht
      obtain ⟨gained, paid, hL, hlt⟩ := hledger hcount
      exact ⟨hc.step hL (hlt hc.1), hinv⟩
    refine ⟨st, hst, havail, ?_⟩
    have hpay : payloads s.heap.toRtapiHeap s.taken =
        (s.live.map fun b => 8 * (s.heap.size b.chunk - 1)).sum := by
      rw [payloads, HeapUse.taken, hlost, List.append_nil, List.map_map]
      rfl
    have hle := payloads_le s.heap.toRtapiHeap s.taken
    have hsizes := hI.ok.chunks.sum_sizes
    have hlen := hI.ok.arenas.length_le
    rw [halloc, hfreed, hcounts.sub, BitVec.toNat_ofNat, Nat.mod_eq_of_lt (by omega), hpay]

/-- A run of calls of all kinds. -/
theorem heap_accounts_run : ∃ s : HeapUse, s.live.length = 2 ∧
    ∃ st, s.heap.rtapiHeapStatus = some st ∧
      st.totalAvail.toNat + (s.live.map fun b => 8 * s.heap.size b.chunk).sum =
        (s.arenas.map fun m => 8 * (m.2.toNat / 8)).sum ∧
      (st.allocated - st.freed).toNat =
        (s.live.map fun b => 8 * (s.heap.size b.chunk - 1)).sum := by
  have hv : (run useStep (fun s a => decide (UseOk s a ∧ Returned s a ∧ Counted s a))
      (HeapUse.init 0 fun _ => .zero) [.addmem 10 1024, .mallocAligned 8 64, .malloc 5,
        .calloc 2 8, .free 1016, .realloc 992 40]).map (fun s => s.live.length) = some 2 := by
    decide
  obtain ⟨s, -, hlive, hr⟩ := run_map hv
  exact ⟨s, hlive, (heap_accounts (by norm_num)).2 s
    (hr.mono fun hok => of_decide_eq_true hok)⟩

/-- Where an aligned block is trimmed, the header of the piece that goes back is not counted. -/
theorem heap_accounts_trim : ∃ s : HeapUse,
    Reach useStep (fun s a => UseOk s a ∧ Returned s a) (HeapUse.init 0 fun _ => .zero) s ∧
    ∃ st, s.heap.rtapiHeapStatus = some st ∧ (st.allocated - st.freed).toNat = 72 ∧
      (s.live.map fun b => 8 * (s.heap.size b.chunk - 1)).sum = 64 := by
  have hv : (run useStep (fun s a => decide (UseOk s a ∧ Returned s a))
      (HeapUse.init 0 fun _ => .zero) [.setflags true, .addmem 10 1024, .mallocAligned 8 64]).map
      (fun s => (s.heap.rtapiHeapStatus.map fun st => (st.allocated - st.freed).toNat,
        (s.live.map fun b => 8 * (s.heap.size b.chunk - 1)).sum)) = some (some 72, 64) := by
    decide
  obtain ⟨s, -, he, hr⟩ := run_map hv
  obtain ⟨hst, hpay⟩ := Prod.mk.inj he
  obtain ⟨st, hst, hsub⟩ := Option.map_eq_some_iff.1 hst
  exact ⟨s, hr.mono fun hok => of_decide_eq_true hok, st, hst, hsub, hpay⟩

end MachinekitHal
