import MachinekitHal.Runtime.HeapRequests

/-!
The blocks of a heap, and what the calls do to them.

* `HeapBlock`, `BlockIn`: a block a user holds, and its place in its chunk; `BlockIn.congr` is
  its frame rule.
* `PlainBlock`: a chunk that was taken for a block without a tag; `rtapiMalloc_plain` and
  `rtapiCalloc_plain` take one.
* `rtapiMallocAligned_leak`, `rtapiMallocAligned_none`: where an aligned request gets nothing.
* `rtapiFree_spec`: freeing a chunk; `rtapiRealloc_moved`: a block that is copied to a new chunk.
-/

namespace MachinekitHal

open Linking

/-- A block a user holds: where it starts, the bytes that were asked for, whether they were asked
for by `rtapi_malloc_aligned`, and the chunk that was taken for it. -/
structure HeapBlock where
  ptr : ℕ
  nbytes : ℕ
  tagged : Bool
  chunk : ℕ
  deriving DecidableEq

/-- A block is in its chunk, and its header is found. -/
structure BlockIn (h : RtapiHeap) (b : HeapBlock) : Prop where
  behind : 8 * (b.chunk + 1) ≤ b.ptr
  inside : b.ptr + b.nbytes ≤ 8 * (b.chunk + h.size b.chunk)
  words : b.ptr % 4 = 0
  plain : b.tagged = false → b.ptr = 8 * (b.chunk + 1) ∧ (h.mem b.chunk).attr = 0
  tagged : b.tagged = true → 8 * (b.chunk + 1) + 4 ≤ b.ptr ∧ 8 * (b.chunk + 1) < 2 ^ 24 ∧
    h.tagAt (b.ptr - 4) = ⟨BitVec.ofNat 24 (8 * (b.chunk + 1)), attrAligned⟩

variable {r r' : RtapiHeap} {h h' : CountedHeap} {fs ls arena : List ℕ} {b : HeapBlock}
  {c q x : ℕ} {n align : BitVec 64}

/-- The header of a block is that of its chunk. -/
lemma BlockIn.headerAt (hb : BlockIn r b) : r.headerAt b.ptr = b.chunk := by
  cases ht : b.tagged with
  | false =>
    obtain ⟨hptr, hattr⟩ := hb.plain ht
    rw [hptr]
    exact RtapiHeap.headerAt_of_attr hattr
  | true =>
    obtain ⟨_, hlt, htag⟩ := hb.tagged ht
    exact RtapiHeap.headerAt_of_tag hlt htag

/-- A block whose header and tag are as they were. -/
lemma BlockIn.of_tag (hb : BlockIn r b) (hhdr : r'.mem b.chunk = r.mem b.chunk)
    (htag : b.tagged = true → r'.tagAt (b.ptr - 4) = r.tagAt (b.ptr - 4)) : BlockIn r' b := by
  refine ⟨hb.behind, ?_, hb.words, fun ht => ?_, fun ht => ?_⟩
  · rw [RtapiHeap.size_congr hhdr]
    exact hb.inside
  · rw [hhdr]
    exact hb.plain ht
  · rw [htag ht]
    exact hb.tagged ht

/-- The units of a block are in its chunk, behind the header. -/
lemma BlockIn.mem_units (hb : BlockIn r b) (h1 : b.ptr ≤ x) (h2 : x < b.ptr + b.nbytes) :
    b.chunk < x / 8 ∧ x / 8 ∈ r.units b.chunk := by
  have hbehind := hb.behind
  have hinside := hb.inside
  exact ⟨by omega, r.mem_units.2 ⟨by omega, by omega⟩⟩

/-- The tag of a block is in its chunk, behind the header. -/
lemma BlockIn.tag_mem (hb : BlockIn r b) (ht : b.tagged = true) :
    b.chunk < (b.ptr - 4) / 8 ∧ (b.ptr - 4) / 8 ∈ r.units b.chunk := by
  obtain ⟨hbehind, _, _⟩ := hb.tagged ht
  have hinside := hb.inside
  exact ⟨by omega, r.mem_units.2 ⟨by omega, by omega⟩⟩

/-- The header of a block is in its chunk. -/
lemma BlockIn.self_mem (hb : BlockIn r b) : b.chunk ∈ r.units b.chunk := by
  have hbehind := hb.behind
  have hinside := hb.inside
  exact r.mem_units.2 ⟨le_refl _, by omega⟩

/-- A block whose chunk is as it was. -/
lemma BlockIn.congr (hb : BlockIn r b) (hm : ∀ x ∈ r.units b.chunk, r'.mem x = r.mem x) :
    BlockIn r' b := by
  refine hb.of_tag (hm _ hb.self_mem) fun ht => ?_
  refine RtapiHeap.tagAt_congr ?_ fun i h1 h2 => RtapiHeap.byte_congr (hm _ ?_)
  · have := hb.words
    omega
  · have hunit := (hb.tag_mem ht).2
    have hwords := hb.words
    rw [r.mem_units] at hunit ⊢
    omega

/-- A store to a byte of a block. -/
lemma BlockIn.setByte {b' : HeapBlock} {a : ℕ} {v : BitVec 8} (hb : BlockIn r b)
    (hb' : BlockIn r b') (h1 : b'.ptr ≤ a) (h2 : a < b'.ptr + b'.nbytes)
    (hdis : b.chunk = b'.chunk → b = b')
    (hunits : b.chunk ≠ b'.chunk → (r.units b.chunk).Disjoint (r.units b'.chunk)) :
    BlockIn (r.setByte a v) b := by
  obtain ⟨hlt, hmem⟩ := hb'.mem_units h1 h2
  by_cases hc : b.chunk = b'.chunk
  · obtain rfl := hdis hc
    refine hb.of_tag (RtapiHeap.setByte_mem_of_ne hlt.ne) fun ht => ?_
    have hbehind := (hb.tagged ht).1
    refine RtapiHeap.tagAt_congr (by have := hb.words; omega) fun i _ h4 => ?_
    rw [RtapiHeap.byte_setByte, if_neg (by omega)]
  · refine hb.congr fun x hx => RtapiHeap.setByte_mem_of_ne ?_
    rintro rfl
    exact hunits hc hx hmem

/-! ### Chunks that are taken -/

/-- A chunk that was taken for a block of `m` bytes without a tag. -/
structure PlainBlock (h h' : CountedHeap) (ls arena : List ℕ) (q m : ℕ) : Prop where
  taken : Taken h.toRtapiHeap h'.toRtapiHeap ls arena q
  attr : (h'.mem q).attr = 0
  room : h'.RoomAt q (8 * (q + 1)) m
  trim : h'.trim = h.trim
  allocated : h'.allocated = h.allocated + BitVec.ofNat 64 (8 * (h'.size q - 1))
  freed : h'.freed = h.freed

lemma PlainBlock.blockIn {m : ℕ} (hP : PlainBlock h h' ls arena q m) :
    BlockIn h'.toRtapiHeap ⟨8 * (q + 1), m, false, q⟩ :=
  ⟨hP.room.1, hP.room.2, by show 8 * (q + 1) % 4 = 0; omega, fun _ => ⟨rfl, hP.attr⟩,
    fun ht => absurd ht Bool.false_ne_true⟩

lemma AlignedBlock.blockIn {p : ℕ} (hB : AlignedBlock h h' ls arena q p n align)
    (hfit : 8 * (q + 1) < 2 ^ 24) (hwords : p % 4 = 0) :
    BlockIn h'.toRtapiHeap ⟨p, n.toNat, true, q⟩ :=
  ⟨hB.room.1, hB.room.2, hwords, fun ht => absurd ht.symm Bool.false_ne_true,
    fun _ => ⟨hB.behind, hfit, hB.tag⟩⟩

/-- The heap after a chunk was taken. -/
lemma Taken.heapOk (hT : Taken r r' ls arena q) (hok : HeapOk r fs ls arena) :
    ∃ fs', HeapOk r' fs' (q :: ls) arena := by
  obtain ⟨fs', hC⟩ := hT.chunks
  exact ⟨fs', hC, hok.arenas, hT.addr ▸ hok.addr⟩

namespace CountedHeap

/-- `rtapi_malloc` finds memory where a chunk is big enough. -/
lemma rtapiMalloc_none (hok : HeapOk h.toRtapiHeap fs ls arena)
    (hfit : h.firstFit (nunits n.toNat) = none) : h.rtapiMalloc n = .ok (none, h) := by
  rcases h.rtapigMalloc_spec hok n with ⟨hnone, _⟩ | ⟨_, _, _, _, _, _, _, c, _, hfirst, _⟩
  · exact hnone
  · rw [hfit] at hfirst
    cases hfirst

/-- `rtapi_malloc`, where the request does not wrap around. -/
lemma rtapiMalloc_plain (hok : HeapOk h.toRtapiHeap fs ls arena)
    (hlt : ∀ c ∈ h.firstFit (nunits n.toNat), n.toNat + 7 < 2 ^ 64) :
    h.rtapiMalloc n = .ok (none, h) ∨ ∃ q h', h.rtapiMalloc n = .ok (some (8 * (q + 1)), h') ∧
      PlainBlock h h' ls arena q n.toNat := by
  rcases h.rtapigMalloc_spec hok n with ⟨hnone, _⟩ |
    ⟨q, r, hmalloc, hT, hsize, hattr, htrim, c, _, hfirst, _⟩
  · exact .inl hnone
  · have hlt' := hlt c hfirst
    rw [nunits_of_lt hlt'] at hsize
    exact .inr ⟨q, _, hmalloc, hT.toTaken, hattr, ⟨le_refl _, by
      change _ ≤ 8 * (q + r.size q)
      omega⟩, htrim, granted_allocated hattr (by omega), rfl⟩

/-- `rtapi_calloc`, where the product does not wrap around. -/
lemma rtapiCalloc_plain {nelem elsize : BitVec 64} (hok : HeapOk h.toRtapiHeap fs ls arena)
    (hlt : ∀ c ∈ h.firstFit (nunits (nelem * elsize).toNat),
      nelem.toNat * elsize.toNat + 7 < 2 ^ 64) :
    h.rtapiCalloc nelem elsize = .ok (none, h) ∨
      ∃ q h', h.rtapiCalloc nelem elsize = .ok (some (8 * (q + 1)), h') ∧
        PlainBlock h h' ls arena q (nelem.toNat * elsize.toNat) := by
  rcases h.rtapigMalloc_spec hok (nelem * elsize) with ⟨hnone, _⟩ |
    ⟨q, r, hmalloc, hT, hsize, hattr, htrim, c, _, hfirst, _⟩
  · exact .inl (by rw [rtapiCalloc, rtapiMalloc, hnone])
  · have hlt' := hlt c hfirst
    have hprod : (nelem * elsize).toNat = nelem.toNat * elsize.toNat := by
      rw [BitVec.toNat_mul, Nat.mod_eq_of_lt (by omega)]
    have hrun := rtapiCalloc_of_malloc hmalloc
    rw [nunits_of_lt (by omega)] at hsize
    have hroom : ((nelem * elsize).toNat + 7) / 8 < r.size q := by omega
    obtain ⟨hT', hmem⟩ := hT.zeroMem hok.chunks hok.arenas hroom
    have hsize' := RtapiHeap.size_congr hmem
    refine .inr ⟨q, _, hrun, hT'.toTaken, ?_, ⟨le_refl _, ?_⟩, htrim, ?_, rfl⟩
    · exact (congrArg MallocHdr.attr hmem).trans hattr
    · change _ ≤ 8 * (q + (r.zeroMem (q + 1) (nelem * elsize).toNat).size q)
      omega
    · refine (granted_allocated (n := nelem * elsize) hattr (by omega)).trans ?_
      rw [← hsize']
      rfl

/-! ### Aligned requests that get nothing -/

/-- The pointer that `rtapi_malloc_aligned` gets from `_rtapig_malloc`. -/
def innerRegion (h : CountedHeap) (n align : BitVec 64) : Option ℕ :=
  if align &&& (align - 1) ≠ 0 then none
  else
    match h.rtapigMalloc (n + align) with
    | .error _ => none
    | .ok (base, _) => base

/-- The region is the tail end of the first chunk that is big enough. -/
lemma innerRegion_eq (hok : HeapOk h.toRtapiHeap fs ls arena) (hpow : align &&& (align - 1) = 0)
    (hfit : h.firstFit (nunits (n + align).toNat) = some c) :
    h.innerRegion n align =
      some (8 * (c + (h.size c - nunits (n + align).toNat) + 1)) := by
  rcases h.rtapigMalloc_spec hok (n + align) with ⟨_, hsmall⟩ |
    ⟨q, r, hmalloc, _, _, _, _, c', _, hfirst, _, hq⟩
  · rw [(hok.chunks.firstFit_eq_none hok.arenas).2 hsmall] at hfit
    cases hfit
  · cases hfirst.symm.trans hfit
    rw [innerRegion, if_neg (not_not.2 hpow), hmalloc, ← hq]

/-- `rtapi_malloc_aligned`, where no memory is found, or not asked for. -/
lemma rtapiMallocAligned_nothing (hok : HeapOk h.toRtapiHeap fs ls arena)
    (hno : align &&& (align - 1) = 0 → h.firstFit (nunits (n + align).toNat) = none) :
    h.innerRegion n align = none ∧ ∀ res h', h.rtapiMallocAligned n align = .ok (res, h') →
      res = none ∧ h' = h := by
  by_cases hpow : align &&& (align - 1) ≠ 0
  · refine ⟨by rw [innerRegion, if_pos hpow], fun res h' hrun => ?_⟩
    rw [rtapiMallocAligned, if_pos hpow] at hrun
    cases hrun
    exact ⟨rfl, rfl⟩
  · rcases h.rtapigMalloc_spec hok (n + align) with ⟨hnone, _⟩ |
      ⟨_, _, _, _, _, _, _, c, _, hfirst, _⟩
    · refine ⟨by rw [innerRegion, if_neg hpow, hnone], fun res h' hrun => ?_⟩
      rw [rtapiMallocAligned, if_neg hpow, hnone] at hrun
      simp only [alignRegion] at hrun
      split at hrun
      · cases hrun
        exact ⟨rfl, rfl⟩
      · cases hrun
    · rw [hno (not_not.1 hpow)] at hfirst
      cases hfirst

/-- With an alignment that is too small for the tag there is no room for it, or the block would be
behind its region. -/
lemma small_slack (hok : HeapOk h.toRtapiHeap fs ls arena) (hpow : align &&& (align - 1) = 0)
    (h4 : align < 4) (hT : Carved h.toRtapiHeap r ls arena q) {a : ℕ}
    (ha : 8 * h.addr + 8 * (q + 1) = a) :
    ((BitVec.ofNat 64 a + align) &&& -align) - BitVec.ofNat 64 a < 4 ∨
      ¬ ((BitVec.ofNat 64 a + align) &&& -align) - BitVec.ofNat 64 a < 4 ∧
        8 * (q + r.size q) < 8 * (q + 1) +
          (((BitVec.ofNat 64 a + align) &&& -align) - BitVec.ofNat 64 a).toNat := by
  have hlt := region_lt hok hT
  by_cases h0 : align = 0
  · -- an alignment of zero bytes: the tag would be in front of address 0
    have hslack : (((BitVec.ofNat 64 a + align) &&& -align) - BitVec.ofNat 64 a).toNat =
        2 ^ 64 - a := by
      rw [h0, show -(0 : BitVec 64) = 0#64 from rfl, BitVec.and_zero, BitVec.toNat_sub,
        BitVec.toNat_ofNat, BitVec.toNat_ofNat, Nat.mod_eq_of_lt (show a < 2 ^ 64 by omega)]
      omega
    refine .inr ⟨?_, ?_⟩
    · rw [BitVec.lt_def, hslack]
      change ¬ 2 ^ 64 - a < 4
      omega
    · obtain ⟨fs', hC⟩ := hT.chunks
      have hend := hC.end_le hok.arenas (List.mem_append_right _ (.head _))
      have haddr := hok.addr
      rw [hslack]
      omega
  · obtain ⟨k, _, hk⟩ := (Word.and_sub_one_eq_zero h0).1 hpow
    rw [← ha]
    refine .inl ?_
    rw [BitVec.lt_def, aligned_slack hk hlt]
    exact lt_of_le_of_lt (Nat.sub_le _ _) (hk ▸ BitVec.lt_def.1 h4)

/-- `rtapi_malloc_aligned` with an alignment that is too small for the tag: the chunk that was
taken is not given back. -/
lemma rtapiMallocAligned_leak (hok : HeapOk h.toRtapiHeap fs ls arena)
    (hpow : align &&& (align - 1) = 0) (h4 : align < 4)
    (hlt : n.toNat + align.toNat + 7 < 2 ^ 64)
    (hfound : h.firstFit (nunits (n + align).toNat) ≠ none) :
    ∃ q, h.innerRegion n align = some (8 * (q + 1)) ∧
      ∀ res h', h.rtapiMallocAligned n align = .ok (res, h') →
        res = none ∧ PlainBlock h h' ls arena q (n + align).toNat := by
  rcases h.rtapigMalloc_spec hok (n + align) with ⟨_, hsmall⟩ |
    ⟨q, r, hmalloc, hT, hsize, hattr, htrim, _⟩
  · exact absurd ((hok.chunks.firstFit_eq_none hok.arenas).2 hsmall) hfound
  have hsum : (n + align).toNat = n.toNat + align.toNat := by
    rw [BitVec.toNat_add, Nat.mod_eq_of_lt (by omega)]
  have hsz := hsize
  rw [nunits_of_lt (by omega)] at hsz
  refine ⟨q, by rw [innerRegion, if_neg (not_not.2 hpow), hmalloc], fun res h' hrun => ?_⟩
  rw [rtapiMallocAligned, if_neg (not_not.2 hpow), hmalloc] at hrun
  replace hrun : (h.granted r (8 * (q + 1)) (n + align)).alignRegion (some (8 * (q + 1))) align =
    .ok (res, h') := hrun
  have hbase := granted_address hT (n + align)
  rcases small_slack hok hpow h4 hT rfl with hslack | ⟨hslack, hwild⟩
  · simp only [alignRegion, hbase, if_pos hslack] at hrun
    cases hrun
    exact ⟨rfl, hT.toTaken, hattr, ⟨le_refl _, by change _ ≤ 8 * (q + r.size q); omega⟩, htrim,
      granted_allocated hattr (by omega), rfl⟩
  · simp only [alignRegion, hbase, if_neg hslack, show 8 * (q + 1) / 8 - 1 = q by omega] at hrun
    split at hrun
    · cases hrun
    · rename_i hin
      exact absurd hwild hin

/-! ### Blocks that are given back -/

/-- Freeing a chunk: the others are as they were, and the heap is in order if the free chunks it
touches are not too big. -/
lemma rtapiFree_spec {ap : ℕ} (hok : HeapOk h.toRtapiHeap fs (c :: ls) arena)
    (hhdr : h.headerAt ap = c) :
    ∃ h', h.rtapiFree ap = .ok h' ∧ (∀ x ∈ ls.flatMap h.units, h'.mem x = h.mem x) ∧
      h'.trim = h.trim ∧ h'.allocated = h.allocated ∧
      h'.freed = h.freed + 8 * (BitVec.ofNat 32 (h.size c) - 1) ∧
      (h.FreeFits fs c (h.size c) → ∃ fs', HeapOk h'.toRtapiHeap fs' ls arena) := by
  obtain ⟨r, hfree, hsame⟩ := hok.chunks.free_frame hok.arenas
  refine ⟨{ h with
    toRtapiHeap := r, freed := h.freed + 8 * (BitVec.ofNat 32 (h.size c) - 1) },
    ?_, hsame, RtapiHeap.freeChunk_trim hfree, rfl, rfl, fun hfit => ?_⟩
  · simp only [rtapiFree, rtapiUnlockedFree, hhdr, hfree]
  · obtain ⟨r', fs', hfree', hC, _⟩ := hok.chunks.free hok.arenas hfit
    cases hfree.symm.trans hfree'
    exact ⟨fs', hC, hok.arenas,
      (congrArg (8 * · + 2 ^ 32 < 2 ^ 64) (RtapiHeap.freeChunk_addr hfree)).mpr hok.addr⟩

end CountedHeap

/-- The bytes of the block `b` were copied to the new chunk `q`, and its chunk was freed. -/
structure MovedBlock (h h' : CountedHeap) (ls : List ℕ) (b : HeapBlock) (q m : ℕ) : Prop where
  same : ∀ x ∈ ls.flatMap h.units, h'.mem x = h.mem x
  apart : ∀ x ∈ (b.chunk :: ls).flatMap h.units, x ∉ h'.units q
  block : BlockIn h'.toRtapiHeap ⟨8 * (q + 1), m, false, q⟩
  bytes : ∀ i < (h.rtapiAllocsize b.ptr).toNat, b.ptr + i < 8 * (b.chunk + h.size b.chunk) →
    h'.byte (8 * (q + 1) + i) = h.byte (b.ptr + i)
  trim : h'.trim = h.trim
  allocated : h'.allocated = h.allocated + BitVec.ofNat 64 (8 * (h'.size q - 1))
  freed : h'.freed = h.freed + 8 * (BitVec.ofNat 32 (h.size b.chunk) - 1)

/-- A block that was moved is somewhere else. -/
lemma MovedBlock.ptr_ne {m : ℕ} (hM : MovedBlock h h' ls b q m) (hb : BlockIn h.toRtapiHeap b) :
    8 * (q + 1) ≠ b.ptr := by
  intro hq
  have h1 := hb.behind
  have h2 := hb.inside
  refine hM.apart q (List.mem_flatMap.2 ⟨_, (.head _), ?_⟩) hM.block.self_mem
  rw [h.mem_units]
  omega

/-- The bytes of a block in the payload of the chunk that was taken for them. -/
lemma PlainBlock.copied {m sz : ℕ} {g₁ : CountedHeap}
    (hok : HeapOk h.toRtapiHeap fs (c :: ls) arena)
    (hP : PlainBlock h g₁ (c :: ls) arena q m) (hsz : sz < m) (src : ℕ) :
    ∃ fs₁, Chunks g₁.toRtapiHeap fs₁ (q :: c :: ls) arena ∧
      HeapOk (g₁.memcpy (8 * (q + 1)) src sz) fs₁ (c :: q :: ls) arena ∧
      Taken h.toRtapiHeap (g₁.memcpy (8 * (q + 1)) src sz) (c :: ls) arena q ∧
      (g₁.memcpy (8 * (q + 1)) src sz).mem q = g₁.mem q ∧
      (g₁.FreeFits g₁.freeList c (g₁.size c) →
        (g₁.memcpy (8 * (q + 1)) src sz).FreeFits fs₁ c
          ((g₁.memcpy (8 * (q + 1)) src sz).size c)) := by
  -- the copy stays behind the header of the new chunk
  have hcopy : ∀ x, (x ∈ g₁.units q → x = q) →
      (g₁.memcpy (8 * (q + 1)) src sz).mem x = g₁.mem x := by
    intro x hx
    refine RtapiHeap.memcpy_mem ?_
    have hroom := hP.room.2
    rw [g₁.mem_units] at hx
    omega
  have hT := hP.taken.inside hok.chunks hok.arenas hcopy rfl rfl
  obtain ⟨fs₁, hC₁⟩ := hP.taken.chunks
  have hC : Chunks (g₁.memcpy (8 * (q + 1)) src sz) fs₁ (q :: c :: ls) arena :=
    hC₁.inside hok.arenas hcopy rfl
  have hperm : (fs₁ ++ q :: c :: ls).Perm (q :: c :: (fs₁ ++ ls)) :=
    List.perm_middle.trans (List.Perm.cons q List.perm_middle)
  -- the other headers are not in the new chunk
  have hheader : ∀ x ∈ 0 :: q :: c :: fs₁,
      (g₁.memcpy (8 * (q + 1)) src sz).mem x = g₁.mem x := fun x hx => hcopy x fun hxq => by
    by_contra hne
    refine hC₁.not_header hok.arenas hxq ((hperm.cons 0).mem_iff.2 ?_) hne rfl
    rw [← List.cons_append, ← List.cons_append, ← List.cons_append]
    exact List.mem_append_left _ hx
  refine ⟨fs₁, hC₁, ⟨hC.perm (List.Perm.swap _ _ _), hok.arenas, hT.addr ▸ hok.addr⟩, hT,
    hheader q (.tail _ (.head _)), fun hfit => ?_⟩
  rw [hC₁.freeList_eq hok.arenas] at hfit
  rw [RtapiHeap.size_congr (hheader c (.tail _ (List.mem_cons_of_mem _
    (.head _))))]
  refine hfit.congr fun d hd => RtapiHeap.size_congr (hheader d ?_)
  rcases List.mem_cons.1 hd with rfl | hd
  · exact (.head _)
  · exact .tail _ (.tail _ (.tail _ hd))

namespace CountedHeap

/-- `rtapi_realloc` of a block that does not have the bytes asked for. -/
lemma rtapiRealloc_moved (hok : HeapOk h.toRtapiHeap fs (b.chunk :: ls) arena)
    (hb : BlockIn h.toRtapiHeap b) (hgt : ¬ n ≤ h.rtapiAllocsize b.ptr)
    (hlt : ∀ c ∈ h.firstFit (nunits n.toNat), n.toNat + 7 < 2 ^ 64) :
    h.rtapiRealloc b.ptr n = .ok (none, h) ∨
      ∃ q h', h.rtapiRealloc b.ptr n = .ok (some (8 * (q + 1)), h') ∧
        MovedBlock h h' ls b q n.toNat ∧
        ((∀ p g, h.rtapiMalloc n = .ok (some p, g) →
          g.FreeFits g.freeList b.chunk (g.size b.chunk)) →
        ∃ fs', HeapOk h'.toRtapiHeap fs' (q :: ls) arena) := by
  obtain ⟨sz, hsz⟩ : ∃ sz, h.rtapiAllocsize b.ptr = sz := ⟨_, rfl⟩
  rw [hsz] at hgt
  rcases h.rtapiMalloc_plain hok hlt with hnone | ⟨q, g₁, hmalloc, hP⟩
  · refine .inl ?_
    simp only [rtapiRealloc, hsz, if_neg hgt, hnone]
  have hgt' : sz < n := BitVec.not_le.1 hgt
  have hnot : ¬ n < sz := fun hlt' => absurd (BitVec.le_of_lt hlt') hgt
  obtain ⟨fs₁, hC₁, hokc, hT, hgq, hfitc⟩ := hP.copied hok (BitVec.lt_def.1 hgt') b.ptr
  obtain ⟨g, hg⟩ : ∃ g, g₁.withHeap (g₁.memcpy (8 * (q + 1)) b.ptr sz.toNat) = g := ⟨_, rfl⟩
  have hgm : g₁.memcpy (8 * (q + 1)) b.ptr sz.toNat = g.toRtapiHeap := hg ▸ rfl
  rw [hgm] at hokc hT hgq hfitc
  have hrun : h.rtapiRealloc b.ptr n =
      (g.rtapiFree b.ptr).map fun h => (some (8 * (q + 1)), h) := by
    simp only [rtapiRealloc, hsz, if_neg hgt, hmalloc, if_neg hnot, hg]
  have hold : ∀ x ∈ h.units b.chunk, x ∈ (b.chunk :: ls).flatMap h.units := fun x hx =>
    List.mem_flatMap.2 ⟨_, (.head _), hx⟩
  have hsame : ∀ x ∈ h.units b.chunk, g.mem x = h.mem x := fun x hx => hT.same x (hold x hx)
  have hsize : g.size b.chunk = h.size b.chunk := RtapiHeap.size_congr (hsame _ hb.self_mem)
  obtain ⟨h', hfree, hsamef, htrim, halloc, hfreed, hfin⟩ :=
    g.rtapiFree_spec hokc (hb.congr hsame).headerAt
  have hqmem : ∀ x ∈ g.units q, h'.mem x = g.mem x := fun x hx =>
    hsamef x (List.mem_flatMap.2 ⟨q, (.head _), hx⟩)
  have hsizeq : g.size q = g₁.size q := RtapiHeap.size_congr hgq
  have hblock : BlockIn g.toRtapiHeap ⟨8 * (q + 1), n.toNat, false, q⟩ :=
    hP.blockIn.of_tag hgq fun ht => absurd ht Bool.false_ne_true
  have hself : q ∈ g.units q := hblock.self_mem
  have hsizeq' : h'.size q = g.size q := RtapiHeap.size_congr (hqmem q hself)
  refine .inr ⟨q, h', by rw [hrun, hfree]; rfl,
    ⟨fun x hx => ?_, fun x hx hxq => ?_, hblock.congr hqmem, fun i hi hin => ?_, ?_, ?_, ?_⟩,
    fun hfit => hfin (hfitc (hfit _ g₁ hmalloc))⟩
  · have hx' : x ∈ (b.chunk :: ls).flatMap h.units := by
      rw [List.flatMap_cons]
      exact List.mem_append_right _ hx
    refine (hsamef x ?_).trans (hT.same x hx')
    have hunits := hT.units hok.chunks
    rw [List.flatMap_cons, List.flatMap_cons] at hunits
    rw [List.flatMap_cons]
    refine List.mem_append_right _ ?_
    obtain ⟨d, hd, hxd⟩ := List.mem_flatMap.1 hx
    refine List.mem_flatMap.2 ⟨d, hd, ?_⟩
    have hdsize : g.size d = h.size d := RtapiHeap.size_congr (hT.same d
      (List.mem_flatMap.2 ⟨d, .tail _ hd, hok.chunks.self_mem
        (List.mem_append_right _ (.tail _ hd))⟩))
    rw [RtapiHeap.mem_units, hdsize]
    exact h.mem_units.1 hxd
  · rw [RtapiHeap.mem_units, hsizeq'] at hxq
    exact hT.not_mem hok.chunks hok.arenas hx (g.mem_units.2 hxq)
  · rw [hsz] at hi
    have hle := BitVec.lt_def.1 hgt'
    have hroom := hP.room.2
    have hunit : (8 * (q + 1) + i) / 8 ∈ g.units q := by
      rw [g.mem_units, hsizeq]
      omega
    have hsrc : (b.ptr + i) / 8 ∈ h.units b.chunk := by
      have := hb.behind
      rw [h.mem_units]
      omega
    have hcopied : g.byte (8 * (q + 1) + i) = g₁.byte (b.ptr + i) := by
      rw [← hg]
      exact RtapiHeap.byte_memcpy hi
    rw [RtapiHeap.byte_congr (hqmem _ hunit), hcopied]
    exact RtapiHeap.byte_congr (hP.taken.same _ (hold _ hsrc))
  · exact htrim.trans ((hg ▸ rfl : g.trim = g₁.trim).trans hP.trim)
  · rw [halloc, hsizeq', hsizeq]
    exact (hg ▸ rfl : g.allocated = g₁.allocated).trans hP.allocated
  · rw [hfreed, hsize, (hg ▸ rfl : g.freed = g₁.freed), hP.freed]

end CountedHeap

end MachinekitHal
