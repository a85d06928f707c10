import MachinekitHal.Hal.RingPlaces

/-!
The regions of a new ring in its memory.

* `ringRegions`, `ringSizeMask`: where `ringheader_init` and `ringbuffer_init` put header,
  storage, trailer and scratchpad, and the mask of a stream ring.
* `LaidOut`: the regions are large enough, apart and inside of the memory.
* `ringSumFits`, `laidOut_iff`: the sizes for which they are.
* `ring_layout`: the same for the rings that `halg_ring_newfv` creates.
-/

namespace MachinekitHal

open Store Word

/-- `_trailer_from_header`, from the start of the header on. -/
def trailerOffset (rh : RingHeader) : ℕ := sizeofRingheader + cacheAlign rh.size

/-- `ring_scratchpad_size`. -/
def ringScratchpadSize (rh : RingHeader) : ℕ := sub32 rh.trailerSize sizeofRingtrailer

/-- The `size_mask` that `ringheader_init` stores. -/
def ringSizeMask (mode : ℕ) (rh : RingHeader) : Option ℕ :=
  if mode &&& ringtypeStream ≠ 0 then some (sub32 rh.size 1) else none

/-- Offset and length of header, storage, trailer and scratchpad. -/
def ringRegions (rh : RingHeader) : List (ℕ × ℕ) :=
  [(0, sizeofRingheader), (sizeofRingheader, rh.size), (trailerOffset rh, sizeofRingtrailer),
    (trailerOffset rh + sizeofRingtrailer, ringScratchpadSize rh)]

/-- A ring for `size` bytes, with a scratchpad for `spSize`, in `total` bytes of memory. -/
structure LaidOut (mode : ℕ) (size spSize : ℤ) (rh : RingHeader) (total : ℕ) : Prop where
  storage : size ≤ rh.size
  scratchpad : spSize ≤ ringScratchpadSize rh
  apart : (ringRegions rh).Pairwise fun r r' => r.1 + r.2 ≤ r'.1 ∨ r'.1 + r'.2 ≤ r.1
  inside : ∀ r ∈ ringRegions rh, r.1 + r.2 ≤ total
  aligned : rtapiCacheline ∣ trailerOffset rh
  stream : mode &&& ringtypeMask = ringtypeStream →
    (∃ k, rh.size = 2 ^ k) ∧ ringSizeMask mode rh = some (rh.size - 1)

/-- The sizes of the regions add up to a 32-bit word, the trailer and scratchpad have room for
the trailer, and the size of a stream ring can be rounded to a power of two. -/
def ringSumFits (mode size spSize : ℕ) : Bool :=
  sizeofRingheader + ringStorageAlloc mode size + ringTrailerAlloc spSize < 4294967296 ∧
    sizeofRingtrailer ≤ ringTrailerAlloc spSize ∧
    (mode &&& ringtypeMask = ringtypeStream → 1 ≤ size ∧ size ≤ 2147483648)

variable {mode : ℕ} {size spSize : ℤ}

/-! ### The regions in order -/

/-- The storage has the size that was asked for, or more. -/
lemma le_ringStorageAlloc (hsize : size < 2147483648)
    (hstream : mode &&& ringtypeMask = ringtypeStream →
      1 ≤ toRingsize size ∧ toRingsize size ≤ 2147483648) :
    size ≤ ringStorageAlloc mode (toRingsize size) := by
  rcases lt_or_ge size 0 with hneg | hpos
  · exact hneg.le.trans (Int.natCast_nonneg _)
  have hn : (toRingsize size : ℤ) = size := by
    rw [toRingsize, Int.emod_eq_of_lt hpos (by omega)]
    exact Int.toNat_of_nonneg hpos
  by_cases hmode : mode &&& ringtypeMask = ringtypeStream
  · obtain ⟨h1, h2⟩ := hstream hmode
    obtain ⟨k, -, -, halloc, hle⟩ := ringStorageAlloc_stream hmode h1 h2
    rw [halloc, ← hn]
    exact_mod_cast hle
  · have h8 : sizeAligned (toRingsize size) = (toRingsize size + 7) / 8 * 8 := by
      rw [sizeAligned, rbAlign, alignUp_eight (by omega), if_pos (by omega)]
    rw [ringStorageAlloc, if_neg hmode, h8, cacheAlign, rtapiCacheline,
      alignUp_sixtyFour (by omega), if_pos (by omega)]
    omega

/-- The scratchpad has the size that was asked for, or more. -/
lemma le_ringTrailerAlloc (hsp : spSize < 2147483648) :
    spSize ≤ (ringTrailerAlloc (toRingsize spSize) - sizeofRingtrailer : ℕ) := by
  rcases lt_or_ge spSize 0 with hneg | hpos
  · exact hneg.le.trans (Int.natCast_nonneg _)
  have hn : (toRingsize spSize : ℤ) = spSize := by
    rw [toRingsize, Int.emod_eq_of_lt hpos (by omega)]
    exact Int.toNat_of_nonneg hpos
  have halloc : ringTrailerAlloc (toRingsize spSize) = (64 + toRingsize spSize + 7) / 8 * 8 := by
    rw [ringTrailerAlloc, sizeAligned, rbAlign, sizeofRingtrailer, wrap32_of_lt (by omega),
      alignUp_eight (by omega), if_pos (by omega)]
  rw [halloc, sizeofRingtrailer]
  omega

/-- The end of the scratchpad is the sum of the sizes, without a wrap-around. -/
lemma scratchpad_end (htrailer : sizeofRingtrailer ≤ ringTrailerAlloc (toRingsize spSize)) :
    trailerOffset (ringheaderInit mode (toRingsize size) (toRingsize spSize)) + sizeofRingtrailer
        + ringScratchpadSize (ringheaderInit mode (toRingsize size) (toRingsize spSize))
      = sizeofRingheader + ringStorageAlloc mode (toRingsize size)
        + ringTrailerAlloc (toRingsize spSize) := by
  have hlt : ringTrailerAlloc (toRingsize spSize) < 4294967296 := wrap32_lt _
  have hsub : sub32 (ringTrailerAlloc (toRingsize spSize)) sizeofRingtrailer
      = ringTrailerAlloc (toRingsize spSize) - sizeofRingtrailer := by
    rw [sub32]
    omega
  simp only [trailerOffset, ringScratchpadSize, ringheaderInit, cacheAlign_ringStorageAlloc, hsub]
  omega

/-- The scratchpad of a trailer that wrapped ends behind all memory. -/
lemma scratchpad_end_of_wrap (htrailer : ringTrailerAlloc (toRingsize spSize) < sizeofRingtrailer) :
    4294967296 ≤
      trailerOffset (ringheaderInit mode (toRingsize size) (toRingsize spSize)) + sizeofRingtrailer
        + ringScratchpadSize (ringheaderInit mode (toRingsize size) (toRingsize spSize)) := by
  simp only [sizeofRingtrailer] at htrailer
  simp only [trailerOffset, ringScratchpadSize, ringheaderInit, sub32, sizeofRingtrailer]
  omega

/-- The sizes for which a ring is laid out as it should be. -/
theorem laidOut_iff (hsize : size < 2147483648) (hsp : spSize < 2147483648) :
    LaidOut mode size spSize (ringheaderInit mode (toRingsize size) (toRingsize spSize))
        (ringMemsize mode (toRingsize size) (toRingsize spSize)) ↔
      ringSumFits mode (toRingsize size) (toRingsize spSize) = true := by
  set rh := ringheaderInit mode (toRingsize size) (toRingsize spSize) with hrh
  have hrs : rh.size = ringStorageAlloc mode (toRingsize size) := rfl
  have hlt : ringMemsize mode (toRingsize size) (toRingsize spSize) < 4294967296 := wrap32_lt _
  have hcache : cacheAlign rh.size = rh.size := cacheAlign_ringStorageAlloc _ _
  rw [ringSumFits, decide_eq_true_iff]
  constructor
  · intro h
    have hend := h.inside (trailerOffset rh + sizeofRingtrailer, ringScratchpadSize rh)
      (by simp [ringRegions])
    have htrailer : sizeofRingtrailer ≤ ringTrailerAlloc (toRingsize spSize) := by
      by_contra hwrap
      have hover : 4294967296 ≤ trailerOffset rh + sizeofRingtrailer + ringScratchpadSize rh :=
        scratchpad_end_of_wrap (not_le.1 hwrap)
      exact absurd (hover.trans hend) (not_le.2 hlt)
    rw [hrh, scratchpad_end htrailer] at hend
    refine ⟨lt_of_le_of_lt hend hlt, htrailer, fun hmode => ?_⟩
    by_contra hno
    have hzero : rh.size = 0 := by
      refine hrs.trans (ringStorageAlloc_stream_eq_zero hmode (by omega) ?_)
      rw [toRingsize]
      omega
    obtain ⟨k, hk⟩ := (h.stream hmode).1
    have hpos : 0 < 2 ^ k := by positivity
    omega
  · rintro ⟨hsum, htrailer, hstream⟩
    have htotal : ringMemsize mode (toRingsize size) (toRingsize spSize) = sizeofRingheader
        + ringStorageAlloc mode (toRingsize size) + ringTrailerAlloc (toRingsize spSize) :=
      wrap32_of_lt hsum
    have hend : trailerOffset rh + sizeofRingtrailer + ringScratchpadSize rh = sizeofRingheader
        + ringStorageAlloc mode (toRingsize size) + ringTrailerAlloc (toRingsize spSize) :=
      scratchpad_end htrailer
    have hto : trailerOffset rh = sizeofRingheader + rh.size := by rw [trailerOffset, hcache]
    have hscratch : ringScratchpadSize rh
        = ringTrailerAlloc (toRingsize spSize) - sizeofRingtrailer := by
      rw [← hrs] at hend
      omega
    refine ⟨?_, ?_, ?_, ?_, ?_, fun hmode => ?_⟩
    · exact le_ringStorageAlloc hsize hstream
    · rw [hscratch]
      exact le_ringTrailerAlloc hsp
    · -- each region ends where the next one starts
      simp only [ringRegions, hto, List.pairwise_cons, List.mem_cons, List.not_mem_nil, or_false,
        forall_eq_or_imp, forall_eq, false_implies, implies_true, List.Pairwise.nil, and_true]
      omega
    · rw [htotal, ← hend]
      intro r hr
      simp only [ringRegions, hto, List.mem_cons, List.not_mem_nil, or_false] at hr
      rw [hto]
      rcases hr with rfl | rfl | rfl | rfl <;> simp only <;> omega
    · rw [hto, ← hcache]
      refine Dvd.dvd.add ⟨2, rfl⟩ (cacheAlign_dvd ?_)
      rw [hrs]
      omega
    · obtain ⟨h1, h2⟩ := hstream hmode
      obtain ⟨k, -, -, halloc, -⟩ := ringStorageAlloc_stream hmode h1 h2
      have hpos : 0 < rh.size := by
        rw [hrs, halloc]
        positivity
      have hbit : mode &&& ringtypeStream ≠ 0 := by
        intro hzero
        have hand : mode &&& ringtypeMask &&& ringtypeStream = mode &&& ringtypeStream := by
          rw [Nat.and_assoc]
          rfl
        rw [hmode, hzero] at hand
        exact absurd hand (by decide)
      refine ⟨⟨k, hrs.trans halloc⟩, ?_⟩
      have hmask : sub32 rh.size 1 = rh.size - 1 := by
        rw [sub32]
        omega
      rw [ringSizeMask, if_pos hbit, hmask]

/-! ### New rings -/

/-- **Layout of a ring.** The ring that `halg_ring_newfv` has created for an `int` size and
scratchpad size has its regions in the memory allocated, each large enough and apart from the
others, if and only if the sizes fit. -/
theorem ring_layout {e : RingEnv} {fmt : Option String} {s s' : RingHal} {off : ℕ}
    (hsize : size < 2147483648) (hsp : spSize < 2147483648)
    (h : halgRingNewfv e size spSize mode fmt s = (some off, s')) :
    ∃ new ∈ s'.ringObjs, ∃ loc, new.off = off ∧ s'.ringLoc new.body = some loc ∧
      new.body.totalSize = ofRingsize (ringMemsize mode (toRingsize size) (toRingsize spSize)) ∧
      (LaidOut mode size spSize (s'.headerAt loc)
          (ringMemsize mode (toRingsize size) (toRingsize spSize)) ↔
        ringSumFits mode (toRingsize size) (toRingsize spSize) = true) := by
  rcases halgRingNewfv_cases e size spSize mode fmt s with
    ⟨-, hnone⟩ | ⟨o, -, hnone⟩ | ⟨id, m, new, loc, t, -, -, -, -, -, -, hbody, halloc, hnew⟩
  · rw [hnone] at h
    cases h
  · rw [hnone] at h
    cases h
  · cases hnew.symm.trans h
    have hkey : new.body.shmkey = ringKey s.rtapiInstance id := by rw [hbody]
    have hplace : t.ringLoc new.body = some loc :=
      ringAlloc_ringLoc (s := { s with rings := Function.update s.rings id true }) hkey
        (by rw [hbody]) halloc
    have hheader := setHeader_ringLoc t loc
      (ringheaderInit mode (toRingsize size) (toRingsize spSize)) new.body
    refine ⟨new, mem_addObject.2 (.inl rfl), loc, rfl, hheader.trans hplace, by rw [hbody], ?_⟩
    have hhdr := headerAt_setHeader_self t loc
      (ringheaderInit mode (toRingsize size) (toRingsize spSize))
    refine Iff.trans (Eq.to_iff ?_) (laidOut_iff hsize hsp)
    exact congrArg (fun rh => LaidOut mode size spSize rh _) hhdr

/-- A stream ring of 4096 bytes with a scratchpad. -/
theorem ring_layout_stream : ∃ off s',
    halgRingNewfv ⟨some ⟨64, 1⟩, none, true⟩ 4000 32 2 none noRings = (some off, s') ∧
      ∃ new ∈ s'.ringObjs, ∃ loc, new.off = off ∧ s'.ringLoc new.body = some loc ∧
        LaidOut 2 4000 32 (s'.headerAt loc) 4320 := by
  obtain ⟨off, hoff⟩ : ∃ off,
      (halgRingNewfv ⟨some ⟨64, 1⟩, none, true⟩ 4000 32 2 none noRings).1 = some off :=
    Option.isSome_iff_exists.1 (by decide)
  refine ⟨off, _, Prod.ext hoff rfl, ?_⟩
  obtain ⟨new, hnew, loc, ho, hloc, -, hiff⟩ :=
    ring_layout (by norm_num) (by norm_num) (Prod.ext hoff rfl)
  have htotal : ringMemsize 2 (toRingsize 4000) (toRingsize 32) = 4320 := by decide
  rw [htotal] at hiff
  exact ⟨new, hnew, loc, ho, hloc, hiff.2 (by decide)⟩

/-- Storage and scratchpad of almost 2 GiB each add up to `2 ^ 32`, so only 64 bytes are
allocated. -/
theorem ring_layout_wraps : ¬ ∀ (e : RingEnv) (size spSize : ℤ) (mode : ℕ) (fmt : Option String)
    (s s' : RingHal) (off : ℕ), size < 2147483648 → spSize < 2147483648 →
      halgRingNewfv e size spSize mode fmt s = (some off, s') →
      ∃ new ∈ s'.ringObjs, ∃ loc, new.off = off ∧ s'.ringLoc new.body = some loc ∧
        LaidOut mode size spSize (s'.headerAt loc)
          (ringMemsize mode (toRingsize size) (toRingsize spSize)) := by
  intro h
  obtain ⟨off, hoff⟩ : ∃ off, (halgRingNewfv ⟨some ⟨64, 1⟩, none, true⟩ 2147483584 2147483584 0
      (some "ring") noRings).1 = some off :=
    Option.isSome_iff_exists.1 (by decide)
  obtain ⟨_, _, _, _, _, hlaid⟩ :=
    h _ _ _ _ _ _ _ off (by norm_num) (by norm_num) (Prod.ext hoff rfl)
  have htotal : ringMemsize 0 (toRingsize 2147483584) (toRingsize 2147483584) = 64 := by
    decide
  have hheader := hlaid.inside (0, sizeofRingheader) (.head _)
  rw [htotal] at hheader
  exact absurd hheader (by decide)

end MachinekitHal
