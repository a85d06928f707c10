import MachinekitHal.Runtime.HeapRequests

/-!
Answers to requests for memory.

* `Answered`: a call returns, and a pointer it returns has the room that was asked for.
* `heap_requests`: which requests of any size are answered. The others wrap around, or are
  aligned and find no memory.
* `aligned_failure`: which aligned requests that cannot be met return a null pointer and leave
  the heap as it was.
-/

namespace MachinekitHal

open Linking

/-- What a call returns: a pointer, or null, and the heap. -/
abbrev HeapResult := Except HeapFault (Option ℕ × CountedHeap)

/-- A call returned, and a pointer it returned is in a new chunk, with room for `n` bytes. -/
def Answered (ls arena : List ℕ) (n : ℕ) (out : HeapResult) : Prop :=
  ∃ res h', out = .ok (res, h') ∧ ∀ p, res = some p →
    ∃ q fs, Chunks h'.toRtapiHeap fs (q :: ls) arena ∧ h'.RoomAt q p n

/-- `rtapi_calloc` returned, and it set memory in the chunk only. -/
def AnsweredZero (ls arena : List ℕ) (nelem elsize : BitVec 64) (out : HeapResult) : Prop :=
  ∃ res h', out = .ok (res, h') ∧ ∀ p, res = some p →
    ∃ q fs, Chunks h'.toRtapiHeap fs (q :: ls) arena ∧
      h'.RoomAt q p (nelem.toNat * elsize.toNat) ∧ h'.RoomAt q p (nelem * elsize).toNat

variable {h h' : CountedHeap} {r : RtapiHeap} {fs fs' ls arena : List ℕ} {q : ℕ}
  {n align : BitVec 64}

/-- No chunk has room for more than 4 GiB. -/
lemma not_roomAt {m p : ℕ} (hA : Arenas arena) (hC : Chunks r fs (q :: ls) arena)
    (hm : 2 ^ 32 ≤ m) : ¬ r.RoomAt q p m := by
  rintro ⟨_, hroom⟩
  have hend := hC.end_le hA (List.mem_append_right _ (.head _))
  omega

/-- A chunk that was carved out for `m` bytes has room for them. -/
lemma Carved.roomAt {h : RtapiHeap} {m : ℕ} (hT : Carved h r ls arena q) (hm : m + 7 < 2 ^ 64)
    (hsize : r.size q = nunits m) :
    ∃ fs', Chunks r fs' (q :: ls) arena ∧ r.RoomAt q (8 * (q + 1)) m := by
  obtain ⟨fs', hC⟩ := hT.chunks
  rw [nunits_of_lt hm] at hsize
  exact ⟨fs', hC, le_refl _, by omega⟩

/-- A chunk that is found is not empty. -/
lemma HeapOk.pos (hok : HeapOk r fs ls arena) {c : ℕ} (hc : c ∈ fs) : 0 < r.size c :=
  hok.chunks.pos c (List.mem_append_left _ hc)

/-- The live chunks are known from the heap, up to those that are taken. -/
lemma Chunks.not_more (hC : Chunks r fs ls arena) (hA : Arenas arena) :
    ¬ Chunks r fs' (q :: ls) arena := by
  intro hC'
  have hfs : fs' = fs := (hC'.freeList_eq hA).symm.trans (hC.freeList_eq hA)
  have hpos := hC'.pos q (List.mem_append_right _ (.head _))
  have hperm : ((q :: (fs ++ ls)).flatMap r.units).Perm ((fs ++ ls).flatMap r.units) := by
    refine List.Perm.trans ?_ (hC'.part.trans hC.part.symm)
    rw [hfs]
    exact (List.perm_middle.flatMap_right _).symm
  have hlen := hperm.length_eq
  rw [List.flatMap_cons, List.length_append, RtapiHeap.units, List.length_range'] at hlen
  omega

namespace CountedHeap

/-- `rtapi_malloc` of any size. -/
lemma rtapiMalloc_answered (hok : HeapOk h.toRtapiHeap fs ls arena) (n : BitVec 64) :
    Answered ls arena n.toNat (h.rtapiMalloc n) ↔
      n.toNat + 7 < 2 ^ 64 ∨ ∀ c ∈ fs, h.size c < nunits n.toNat := by
  rcases h.rtapigMalloc_spec hok n with ⟨hnone, hsmall⟩ |
    ⟨q, r, hmalloc, hT, hsize, _, _, c, hc, _, hfit, _⟩
  · refine iff_of_true ⟨none, h, hnone, nofun⟩ (.inr fun c hc => ?_)
    exact hsmall c (.tail _ hc)
  · constructor
    · rintro ⟨res, h', hout, hroom⟩
      rw [rtapiMalloc, hmalloc] at hout
      cases hout
      obtain ⟨q', fs', hC, hroom⟩ := hroom _ rfl
      by_contra hno
      rw [not_or] at hno
      exact not_roomAt hok.arenas hC (by omega) hroom
    · rintro (hlt | hsmall)
      · refine ⟨_, _, hmalloc, fun p hp => ?_⟩
        cases hp
        obtain ⟨fs', hC, hroom⟩ := hT.roomAt hlt hsize
        exact ⟨q, fs', hC, hroom⟩
      · have := hsmall c hc
        omega

/-- `rtapi_calloc` of any number of elements of any size. -/
lemma rtapiCalloc_answered (hok : HeapOk h.toRtapiHeap fs ls arena) (nelem elsize : BitVec 64) :
    AnsweredZero ls arena nelem elsize (h.rtapiCalloc nelem elsize) ↔
      nelem.toNat * elsize.toNat + 7 < 2 ^ 64 ∨
        ∀ c ∈ fs, h.size c < nunits (nelem * elsize).toNat := by
  rcases h.rtapigMalloc_spec hok (nelem * elsize) with ⟨hnone, hsmall⟩ |
    ⟨q, r, hmalloc, hT, hsize, _, _, c, hc, _, hfit, _⟩
  · refine iff_of_true ⟨none, h, ?_, nofun⟩ (.inr fun c hc => ?_)
    · rw [rtapiCalloc, rtapiMalloc, hnone]
    · exact hsmall c (.tail _ hc)
  · have hrun := rtapiCalloc_of_malloc hmalloc
    constructor
    · rintro ⟨res, h', hout, hroom⟩
      rw [hrun] at hout
      cases hout
      obtain ⟨q', fs', hC, hroom, _⟩ := hroom _ rfl
      by_contra hno
      rw [not_or] at hno
      exact not_roomAt hok.arenas hC (by omega) hroom
    · rintro (hlt | hsmall)
      · have hprod : (nelem * elsize).toNat = nelem.toNat * elsize.toNat := by
          rw [BitVec.toNat_mul, Nat.mod_eq_of_lt (by omega)]
        have hin : ((nelem * elsize).toNat + 7) / 8 < r.size q := by
          rw [hsize, nunits_of_lt (by omega)]
          omega
        obtain ⟨hT', hmem⟩ := hT.zeroMem hok.chunks hok.arenas hin
        obtain ⟨fs', hC, hroom⟩ := hT'.roomAt (m := (nelem * elsize).toNat) (by omega)
          ((RtapiHeap.size_congr hmem).trans hsize)
        refine ⟨_, _, hrun, fun p hp => ?_⟩
        cases hp
        exact ⟨q, fs', hC, hprod ▸ hroom, hroom⟩
      · have := hsmall c hc
        omega

/-- `rtapi_malloc_aligned` of any size, for alignments of at least a unit. -/
lemma rtapiMallocAligned_answered {k : ℕ} (hok : HeapOk h.toRtapiHeap fs ls arena)
    (n : BitVec 64) (hk : align.toNat = 2 ^ k) (h3 : 3 ≤ k) :
    Answered ls arena n.toNat (h.rtapiMallocAligned n align) ↔
      n.toNat + align.toNat + 7 < 2 ^ 64 ∧ ∃ c ∈ fs, nunits (n + align).toNat ≤ h.size c := by
  have h8 : 2 ^ 3 ≤ 2 ^ k := Nat.pow_le_pow_right (by norm_num) h3
  have hlt : 2 ^ k < 2 ^ 64 := hk ▸ align.isLt
  have hk64 : k < 64 := (Nat.pow_lt_pow_iff_right (by norm_num)).1 hlt
  have hle : 2 ^ k ≤ 2 ^ 63 := Nat.pow_le_pow_right (by norm_num) (by omega)
  have h0 : align ≠ 0 := by
    rintro rfl
    rw [show (0 : BitVec 64).toNat = 0 from rfl] at hk
    omega
  have hpow : ¬ align &&& (align - 1) ≠ 0 :=
    not_not.2 ((Word.and_sub_one_eq_zero h0).2 ⟨k, hk64, hk⟩)
  constructor
  · rintro ⟨res, h', hout, hroom⟩
    rcases h.rtapigMalloc_spec hok (n + align) with ⟨hnone, _⟩ |
      ⟨q, r, hmalloc, hT, _, _, _, c, hc, _, hfit, _⟩
    · -- the null pointer is taken for a region
      rw [rtapiMallocAligned, if_neg hpow, hnone] at hout
      have h4 : ¬ align < 4 := by
        rw [BitVec.lt_def, hk, show (4 : BitVec 64).toNat = 4 from rfl]
        omega
      have hwild := h.alignRegion_none hk
      rw [if_neg h4] at hwild
      cases hwild.symm.trans hout
    · refine ⟨?_, c, hc, hfit⟩
      rw [rtapiMallocAligned, if_neg hpow, hmalloc] at hout
      have hslack := aligned_slack hk (region_lt hok hT)
      obtain ⟨b, hb⟩ : ∃ b, 8 * h.addr + 8 * (q + 1) = b := ⟨_, rfl⟩
      have hbase := granted_address hT (n + align)
      rw [hb] at hslack hbase
      have hb8 : b % 8 = 0 := by omega
      have h8k : 8 ∣ 2 ^ k := pow_dvd_pow 2 h3
      have hmod := Nat.mod_lt b (show 0 < 2 ^ k by positivity)
      have hmod8 : b % 2 ^ k % 8 = 0 := by rw [Nat.mod_mod_of_dvd b h8k, hb8]
      have hres : res ≠ none := by
        rintro rfl
        refine alignRegion_ne_none ?_ hout
        rw [hbase, hslack]
        omega
      obtain ⟨p, rfl⟩ := Option.ne_none_iff_exists'.1 hres
      obtain ⟨q', fs', hC, hroom⟩ := hroom p rfl
      by_contra hwrap
      exact not_roomAt hok.arenas hC (by omega) hroom
  · rintro ⟨hwrap, hfound⟩
    obtain ⟨q, p, h', hrun, hblock, _⟩ :=
      h.rtapiMallocAligned_spec hok hk (by omega) (hk ▸ hwrap) hfound
    obtain ⟨fs', hC⟩ := hblock.taken.chunks
    refine ⟨some p, h', hrun, fun p' hp => ?_⟩
    cases hp
    exact ⟨q, fs', hC, hblock.room⟩

end CountedHeap

/-- Which requests a heap answers as it should: those whose number of bytes does not wrap
around on its way to a number of units, and of the others those it has no memory for, unless
they are aligned. -/
theorem heap_requests (hok : HeapOk h.toRtapiHeap fs ls arena) (n nelem elsize : BitVec 64) :
    (Answered ls arena n.toNat (h.rtapiMalloc n) ↔
      n.toNat + 7 < 2 ^ 64 ∨ ∀ c ∈ fs, h.size c < nunits n.toNat) ∧
    (AnsweredZero ls arena nelem elsize (h.rtapiCalloc nelem elsize) ↔
      nelem.toNat * elsize.toNat + 7 < 2 ^ 64 ∨
        ∀ c ∈ fs, h.size c < nunits (nelem * elsize).toNat) ∧
    ∀ (align : BitVec 64) (k : ℕ), align.toNat = 2 ^ k → 3 ≤ k →
      (Answered ls arena n.toNat (h.rtapiMallocAligned n align) ↔
        n.toNat + align.toNat + 7 < 2 ^ 64 ∧
          ∃ c ∈ fs, nunits (n + align).toNat ≤ h.size c) :=
  ⟨h.rtapiMalloc_answered hok n, h.rtapiCalloc_answered hok nelem elsize,
    fun _ _ hk h3 => h.rtapiMallocAligned_answered hok n hk h3⟩

/-! ### Requests that cannot be met -/

/-- An aligned request that cannot be met: its alignment is not a power of two, or too small
for the tag, or no chunk has the memory. -/
def CannotSatisfy (h : RtapiHeap) (fs : List ℕ) (n align : BitVec 64) : Prop :=
  align &&& (align - 1) ≠ 0 ∨ align < 4 ∨
    ∀ c ∈ fs, h.size c < (n.toNat + align.toNat + 7) / 8 + 1

namespace CountedHeap

/-- Memory that was taken is missing from the heap. -/
lemma granted_ne (hok : HeapOk h.toRtapiHeap fs ls arena)
    (hT : Carved h.toRtapiHeap r ls arena q) (p : ℕ) (m : BitVec 64) : h.granted r p m ≠ h := by
  intro he
  obtain ⟨fs', hC⟩ := hT.chunks
  have hr : r = h.toRtapiHeap := congrArg CountedHeap.toRtapiHeap he
  rw [hr] at hC
  exact hok.chunks.not_more hok.arenas hC

/-- When `rtapi_malloc_aligned` returns a null pointer and leaves the heap as it was. -/
lemma rtapiMallocAligned_none (hok : HeapOk h.toRtapiHeap fs ls arena) (n align : BitVec 64) :
    h.rtapiMallocAligned n align = .ok (none, h) ↔
      align &&& (align - 1) ≠ 0 ∨ align < 4 ∧ ∀ c ∈ fs, h.size c < nunits (n + align).toNat := by
  by_cases hpow : align &&& (align - 1) ≠ 0
  · exact iff_of_true (by rw [rtapiMallocAligned, if_pos hpow]) (.inl hpow)
  rw [or_iff_right hpow, rtapiMallocAligned, if_neg hpow]
  rcases h.rtapigMalloc_spec hok (n + align) with ⟨hnone, hsmall⟩ |
    ⟨q, r, hmalloc, hT, _, _, _, c, hc, _, hfit, _⟩
  · have hsmall' : ∀ c ∈ fs, h.size c < nunits (n + align).toNat := fun c hc =>
      hsmall c (.tail _ hc)
    have hregion : h.alignRegion none align =
        if align < 4 then .ok (none, h) else .error .wild := by
      by_cases h0 : align = 0
      · rw [h0, alignRegion]
        simp [address]
      · obtain ⟨k, _, hk⟩ := (Word.and_sub_one_eq_zero h0).1 (not_not.1 hpow)
        exact h.alignRegion_none hk
    rw [hnone]
    simp only [hregion, and_iff_left hsmall']
    split_ifs with h4
    · exact iff_of_true rfl h4
    · exact iff_of_false (fun hout => by cases hout) h4
  · -- a region was found, and is not given back
    refine iff_of_false ?_ fun hno => absurd (hno.2 c hc) (Nat.not_lt.2 hfit)
    rw [hmalloc]
    exact fun hrun => granted_ne hok hT _ _ (alignRegion_none_heap hrun).symm

end CountedHeap

/-- A request that cannot be met gets a null pointer and leaves the heap as it was where the
alignment is not a power of two, and where it is too small and there is no memory either. -/
theorem aligned_failure (hok : HeapOk h.toRtapiHeap fs ls arena) (n align : BitVec 64) :
    (CannotSatisfy h.toRtapiHeap fs n align → h.rtapiMallocAligned n align = .ok (none, h)) ↔
      align &&& (align - 1) ≠ 0 ∨
        (align < 4 ∧ ∀ c ∈ fs, h.size c < nunits (n + align).toNat) ∨
        (4 ≤ align ∧ ∃ c ∈ fs, (n.toNat + align.toNat + 7) / 8 + 1 ≤ h.size c) := by
  rw [h.rtapiMallocAligned_none hok n align, CannotSatisfy]
  have h4 : 4 ≤ align ↔ ¬ align < 4 := BitVec.not_lt.symm
  have hfit : (∃ c ∈ fs, (n.toNat + align.toNat + 7) / 8 + 1 ≤ h.size c) ↔
      ¬ ∀ c ∈ fs, h.size c < (n.toNat + align.toNat + 7) / 8 + 1 := by
    simp only [not_forall, Nat.not_lt, exists_prop]
  rw [h4, hfit]
  by_cases hpow : align &&& (align - 1) ≠ 0
  · exact iff_of_true (fun _ => .inl hpow) (.inl hpow)
  · simp only [or_iff_right hpow]
    by_cases hlt : align < 4
    · simp only [hlt, true_or, true_imp_iff, true_and, not_true, false_and, or_false]
    · simp only [hlt, false_or, false_and, imp_false, not_false_iff, true_and]

/-! ### A heap with a kilobyte -/

/-- A heap with a kilobyte of memory right above its descriptor. -/
lemma kilobyte : ∃ (h : CountedHeap) (fs : List ℕ),
    (CountedHeap.rtapiHeapInit 0 fun _ => .zero).rtapiHeapAddmem 10 1024 = .ok h ∧
    HeapOk h.toRtapiHeap fs [] (List.range' 10 128) ∧ ∃ c ∈ fs, 0 < h.size c := by
  have hinit : HeapOk (CountedHeap.rtapiHeapInit 0 fun _ => .zero).toRtapiHeap [] [] [] :=
    CountedHeap.rtapiHeapInit_ok (by norm_num) _
  have hspace : sizeofRtapiHeap ≤ 10 := by norm_num [sizeofRtapiHeap]
  have hsize : 8 ≤ (1024 : BitVec 64).toNat := by decide
  obtain ⟨h, fs, hrun, hok, -⟩ := CountedHeap.rtapiHeapAddmem_spec hinit hspace hsize
    (fun u _ => List.not_mem_nil) (by decide) (by decide)
  refine ⟨h, fs, hrun, hok, ?_⟩
  have hmem : 10 ∈ (fs ++ []).flatMap h.units := hok.chunks.part.mem_iff.2 (by decide)
  obtain ⟨c, hc, _⟩ := List.mem_flatMap.1 hmem
  have hc' : c ∈ fs := List.append_nil fs ▸ hc
  exact ⟨c, hc', hok.pos hc'⟩

/-- Some requests to it. -/
theorem heap_requests_kilobyte : ∃ (h : CountedHeap) (fs : List ℕ),
    HeapOk h.toRtapiHeap fs [] (List.range' 10 128) ∧
    Answered [] (List.range' 10 128) 100 (h.rtapiMalloc 100) ∧
    AnsweredZero [] (List.range' 10 128) 2 8 (h.rtapiCalloc 2 8) ∧
    ¬ Answered [] (List.range' 10 128) (2 ^ 64 - 1) (h.rtapiMallocAligned (-1) 64) := by
  obtain ⟨h, fs, -, hok, -⟩ := kilobyte
  obtain ⟨h1, -, -⟩ := heap_requests hok 100 0 0
  obtain ⟨-, h2, -⟩ := heap_requests hok 0 2 8
  obtain ⟨-, -, h3⟩ := heap_requests hok (-1) 0 0
  exact ⟨h, fs, hok, h1.2 (.inl (by decide)), h2.2 (.inl (by decide)), fun hno =>
    absurd ((h3 64 6 (by decide) (by norm_num)).1 hno).1 (by decide)⟩

/-- `rtapi_malloc` of `SIZE_MAX` bytes returns a chunk without payload. -/
theorem malloc_size_max : ∃ (h : CountedHeap) (fs : List ℕ),
    (CountedHeap.rtapiHeapInit 0 fun _ => .zero).rtapiHeapAddmem 10 1024 = .ok h ∧
    HeapOk h.toRtapiHeap fs [] (List.range' 10 128) ∧
    ¬ Answered [] (List.range' 10 128) (2 ^ 64 - 1) (h.rtapiMalloc (-1)) := by
  obtain ⟨h, fs, hrun, hok, c, hc, hpos⟩ := kilobyte
  refine ⟨h, fs, hrun, hok, fun hanswer => ?_⟩
  rcases (h.rtapiMalloc_answered hok (-1)).1 hanswer with hlt | hsmall
  · exact absurd hlt (by decide)
  · have hone : nunits (-1 : BitVec 64).toNat = 1 := by decide
    have := hsmall c hc
    omega

/-- Some aligned requests to it. -/
theorem aligned_failure_kilobyte : ∃ (h : CountedHeap) (fs : List ℕ),
    HeapOk h.toRtapiHeap fs [] (List.range' 10 128) ∧
    (CannotSatisfy h.toRtapiHeap fs 8 24 → h.rtapiMallocAligned 8 24 = .ok (none, h)) := by
  obtain ⟨h, fs, -, hok, -⟩ := kilobyte
  exact ⟨h, fs, hok, (aligned_failure hok 8 24).2 (.inl (by decide))⟩

/-- An alignment of one byte is too small for the tag, and the chunk that was taken is lost. -/
theorem aligned_leak : ∃ (h : CountedHeap) (fs : List ℕ),
    (CountedHeap.rtapiHeapInit 0 fun _ => .zero).rtapiHeapAddmem 10 1024 = .ok h ∧
    HeapOk h.toRtapiHeap fs [] (List.range' 10 128) ∧ CannotSatisfy h.toRtapiHeap fs (-1) 1 ∧
    h.rtapiMallocAligned (-1) 1 ≠ .ok (none, h) := by
  obtain ⟨h, fs, hrun, hok, c, hc, hpos⟩ := kilobyte
  refine ⟨h, fs, hrun, hok, .inr (.inl (by decide)), fun hnone => ?_⟩
  rcases (h.rtapiMallocAligned_none hok (-1) 1).1 hnone with hpow | ⟨_, hsmall⟩
  · exact hpow (by decide)
  · have hone : nunits (-1 + 1 : BitVec 64).toNat = 1 := by decide
    have := hsmall c hc
    omega

end MachinekitHal
