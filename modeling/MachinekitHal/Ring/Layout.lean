import MachinekitHal.Lib.Word

/-!
`ring.h`: the sizes of the regions of a ring.

A ring is laid out as the `ringheader_t` (128 bytes), the ring storage, and the
`ringtrailer_t` (64 bytes) followed by the scratchpad. All sizes are
`ringsize_t`, that is unsigned 32-bit words, and are computed with wrap-around.

* `sizeAligned`, `recordUsage`: rounding to `RB_ALIGN`, and the bytes a record of
  a given size takes; `recordUsage_eq` is the value while nothing wraps.
* `nextPowerOfTwo`, `ringStorageAlloc`: the storage of a ring of either mode;
  `ringStorageAlloc_stream` says which requested sizes give a stream ring a
  power of two, and `ringStorageAlloc_stream_eq_zero` which give it none.
* `ringMemsize`: the size of the whole.
-/

namespace MachinekitHal

open Word

/-! ### Constants -/

/-- `RB_ALIGN`: record rings are aligned on double words. -/
def rbAlign : ℕ := 8

/-- `RTAPI_CACHELINE`. -/
def rtapiCacheline : ℕ := 64

/-- `sizeof(ringheader_t)`: the storage starts at offset 128. -/
def sizeofRingheader : ℕ := 128

/-- `sizeof(ringtrailer_t)`: the tail index and its padding. -/
def sizeofRingtrailer : ℕ := 64

/-- `RINGTYPE_STREAM`, bit 1 of the mode. -/
def ringtypeStream : ℕ := 2

/-- `RINGTYPE_MASK`, bits 0 and 1 of the mode. -/
def ringtypeMask : ℕ := 3

/-! ### Records -/

/-- `size_aligned`: round up to `RB_ALIGN`. -/
def sizeAligned (x : ℕ) : ℕ := alignUp x rbAlign

/-- `record_usage` (and `record_space`): the bytes a record of size `sz` takes,
its size word included. The sum is computed in `size_t` and cut to
`ringsize_t` when it is passed to `size_aligned`. -/
def recordUsage (sz : ℕ) : ℕ := sizeAligned (wrap32 (sz + 4))

/-- The usage of a record whose size does not wrap. -/
lemma recordUsage_eq {sz : ℕ} (h : sz ≤ 4294967284) :
    recordUsage sz = (sz + 11) / 8 * 8 := by
  rw [recordUsage, sizeAligned, rbAlign, wrap32_of_lt (by omega), alignUp_eight (by omega),
    if_pos (by omega)]

/-- The sizes whose usage wraps, and the little it wraps to. -/
lemma recordUsage_of_wrap {sz : ℕ} (h : 4294967284 < sz) (h' : sz < 4294967296) :
    recordUsage sz = if sz ≤ 4294967292 then 0 else 8 := by
  rw [recordUsage, sizeAligned, rbAlign, alignUp_eight (wrap32_lt _), wrap32]
  by_cases hle : sz ≤ 4294967292
  · rw [if_pos hle]
    by_cases hz : sz + 4 = 4294967296
    · rw [hz]; decide
    · rw [if_neg (by omega)]
  · rw [if_neg hle, if_pos (by omega)]
    omega

/-! ### Storage -/

/-- `next_power_of_two`: the next higher power of two of a 32-bit word. -/
def nextPowerOfTwo (v : ℕ) : ℕ := wrap32 (smear (sub32 v 1) + 1)

/-- `RTAPI_CACHE_ALIGN`. -/
def cacheAlign (x : ℕ) : ℕ := alignUp x rtapiCacheline

/-- `ring_storage_alloc`: the bytes of ring storage for a requested size. -/
def ringStorageAlloc (flags size : ℕ) : ℕ :=
  if flags &&& ringtypeMask = ringtypeStream then cacheAlign (nextPowerOfTwo size)
  else cacheAlign (sizeAligned size)

/-- `ring_trailer_alloc`: the trailer and a scratchpad of `spSize` bytes. -/
def ringTrailerAlloc (spSize : ℕ) : ℕ := sizeAligned (wrap32 (sizeofRingtrailer + spSize))

/-- `ring_memsize`: header, storage, trailer and scratchpad. -/
def ringMemsize (flags size spSize : ℕ) : ℕ :=
  wrap32 (sizeofRingheader + ringStorageAlloc flags size + ringTrailerAlloc spSize)

/-- A requested size from `1` to `2^31` is rounded to a power of two not below it. -/
lemma nextPowerOfTwo_eq {v : ℕ} (h1 : 1 ≤ v) (h2 : v ≤ 2147483648) :
    ∃ k ≤ 31, nextPowerOfTwo v = 2 ^ k ∧ v ≤ 2 ^ k := by
  have hsub : sub32 v 1 = v - 1 := by rw [sub32]; omega
  have hk : (v - 1).size ≤ 31 := Nat.size_le.mpr (by omega)
  have hlt : v - 1 < 2 ^ (v - 1).size := Nat.lt_size_self _
  have hle : (2 : ℕ) ^ (v - 1).size ≤ 2 ^ 31 := Nat.pow_le_pow_right (by norm_num) hk
  refine ⟨(v - 1).size, hk, ?_, by omega⟩
  rw [nextPowerOfTwo, hsub, smear_eq (by omega), Nat.sub_add_cancel (by omega),
    wrap32_of_lt (by omega)]

/-- The requested sizes `0` and above `2^31` wrap to `0`. -/
lemma nextPowerOfTwo_eq_zero {v : ℕ} (h : v = 0 ∨ 2147483648 < v) (hv : v < 4294967296) :
    nextPowerOfTwo v = 0 := by
  have hbig : 2147483648 ≤ sub32 v 1 := by rw [sub32]; omega
  have hlt : sub32 v 1 < 2 ^ 32 := Nat.mod_lt _ (by norm_num)
  have hsize : (sub32 v 1).size = 32 :=
    le_antisymm (Nat.size_le.mpr hlt) (Nat.lt_size.mpr (by omega))
  rw [nextPowerOfTwo, smear_eq hlt, hsize]
  decide

/-- The storage of a stream ring of requested size `1` to `2^31`: a power of two,
at least one cache line. -/
lemma ringStorageAlloc_stream {flags size : ℕ} (hf : flags &&& ringtypeMask = ringtypeStream)
    (h1 : 1 ≤ size) (h2 : size ≤ 2147483648) :
    ∃ k, 6 ≤ k ∧ k ≤ 31 ∧ ringStorageAlloc flags size = 2 ^ k ∧ size ≤ 2 ^ k := by
  obtain ⟨k, hk, hpow, hle⟩ := nextPowerOfTwo_eq h1 h2
  have hlt : (2 : ℕ) ^ k ≤ 2 ^ 31 := Nat.pow_le_pow_right (by norm_num) hk
  have halign : ringStorageAlloc flags size = (2 ^ k + 63) / 64 * 64 := by
    rw [ringStorageAlloc, if_pos hf, hpow, cacheAlign, rtapiCacheline,
      alignUp_sixtyFour (by omega), if_pos (by omega)]
  by_cases hk6 : 6 ≤ k
  · refine ⟨k, hk6, hk, ?_, hle⟩
    obtain ⟨j, rfl⟩ : ∃ j, k = 6 + j := ⟨k - 6, by omega⟩
    rw [halign, pow_add]
    omega
  · have hlt6 : (2 : ℕ) ^ k ≤ 2 ^ 6 := Nat.pow_le_pow_right (by norm_num) (by omega)
    have hpos : 0 < (2 : ℕ) ^ k := by positivity
    exact ⟨6, le_rfl, by norm_num, by rw [halign]; omega, by omega⟩

/-- A stream ring of requested size `0` or above `2^31` gets no storage. -/
lemma ringStorageAlloc_stream_eq_zero {flags size : ℕ}
    (hf : flags &&& ringtypeMask = ringtypeStream)
    (h : size = 0 ∨ 2147483648 < size) (hs : size < 4294967296) :
    ringStorageAlloc flags size = 0 := by
  rw [ringStorageAlloc, if_pos hf, nextPowerOfTwo_eq_zero h hs]
  decide

end MachinekitHal
