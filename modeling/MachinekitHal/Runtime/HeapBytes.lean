import MachinekitHal.Runtime.HeapAlloc

/-!
The bytes of a heap.

A unit of the heap is eight bytes, the least significant first. A pointer to a block is the
number of its first byte from the descriptor on; a tag stands in one half of a unit.

* `MallocHdr.byte`, `MallocHdr.ofBytes`: the bytes of a unit, and a unit of given bytes.
* `RtapiHeap.byte`, `setByte`, `memcpy`: the bytes of the memory, and stores to them.
* `RtapiHeap.tagAt`, `setTag`: the tag in front of an aligned block.
* `RtapiHeap.headerAt`: the header of the chunk that `rtapi_free` releases for a pointer.
-/

namespace MachinekitHal

/-- `rtapi_malloc_tag_t`. -/
structure MallocTag where
  size : BitVec 24
  attr : BitVec 8
  deriving DecidableEq

namespace MallocHdr

variable (u : MallocHdr)

/-- The bytes of a unit as one word. -/
def word : BitVec 64 := u.attr ++ u.size ++ u.next

/-- The unit of a word. -/
def ofWord (w : BitVec 64) : MallocHdr :=
  ⟨w.extractLsb' 0 32, w.extractLsb' 32 24, w.extractLsb' 56 8⟩

/-- The byte `i < 8` of a unit. -/
def byte (i : ℕ) : BitVec 8 := u.word.extractLsb' (8 * i) 8

/-- The unit with the bytes `f 0` to `f 7`. -/
def ofBytes (f : ℕ → BitVec 8) : MallocHdr :=
  ofWord (f 7 ++ f 6 ++ f 5 ++ f 4 ++ f 3 ++ f 2 ++ f 1 ++ f 0)

/-- The first half of a unit as a tag. -/
def lowTag : MallocTag := ⟨u.next.extractLsb' 0 24, u.next.extractLsb' 24 8⟩

/-- The second half of a unit as a tag, which is that of a chunk header. -/
def highTag : MallocTag := ⟨u.size, u.attr⟩

/-- The unit with a tag in its first half. -/
def setLowTag (t : MallocTag) : MallocHdr := { u with next := t.attr ++ t.size }

/-- The unit with a tag in its second half. -/
def setHighTag (t : MallocTag) : MallocHdr := { u with size := t.size, attr := t.attr }

@[simp] lemma word_ofWord (w : BitVec 64) : (ofWord w).word = w := by
  refine BitVec.eq_of_getLsbD_eq fun i _ => ?_
  simp only [word, ofWord, BitVec.getLsbD_append, BitVec.getLsbD_extractLsb']
  grind

lemma byte_ofBytes (f : ℕ → BitVec 8) {i : ℕ} (hi : i < 8) : (ofBytes f).byte i = f i := by
  rw [byte, ofBytes, word_ofWord]
  refine BitVec.eq_of_getLsbD_eq fun j _ => ?_
  interval_cases i <;> simp only [BitVec.getLsbD_append, BitVec.getLsbD_extractLsb'] <;> grind

lemma getLsbD_word {k : ℕ} : u.word.getLsbD k = (u.byte (k / 8)).getLsbD (k % 8) := by
  have hk : 8 * (k / 8) + k % 8 = k := by omega
  have hlt : k % 8 < 8 := by omega
  rw [byte, BitVec.getLsbD_extractLsb', hk, decide_eq_true hlt, Bool.true_and]

lemma getLsbD_next {k : ℕ} (hk : k < 32) : u.next.getLsbD k = u.word.getLsbD k := by
  rw [word, BitVec.getLsbD_append, if_pos hk]

lemma getLsbD_size {k : ℕ} (hk : k < 24) : u.size.getLsbD k = u.word.getLsbD (32 + k) := by
  rw [word, BitVec.getLsbD_append, if_neg (by omega), Nat.add_sub_cancel_left,
    BitVec.getLsbD_append, if_pos hk]

lemma getLsbD_attr {k : ℕ} : u.attr.getLsbD k = u.word.getLsbD (56 + k) := by
  rw [word, BitVec.getLsbD_append, if_neg (by omega), BitVec.getLsbD_append,
    if_neg (by omega), show 56 + k - 32 - 24 = k by omega]

variable {u} {v : MallocHdr}

/-- The first half of a unit is its first four bytes. -/
lemma next_congr (h : ∀ i < 4, u.byte i = v.byte i) : u.next = v.next := by
  refine BitVec.eq_of_getLsbD_eq fun k hk => ?_
  rw [getLsbD_next u hk, getLsbD_next v hk, getLsbD_word, getLsbD_word, h _ (by omega)]

/-- The second half of a unit is its last four bytes. -/
lemma highTag_congr (h : ∀ i < 8, 4 ≤ i → u.byte i = v.byte i) : u.highTag = v.highTag := by
  have hsize : u.size = v.size := BitVec.eq_of_getLsbD_eq fun k hk => by
    rw [getLsbD_size u hk, getLsbD_size v hk, getLsbD_word, getLsbD_word,
      h _ (by omega) (by omega)]
  have hattr : u.attr = v.attr := BitVec.eq_of_getLsbD_eq fun k hk => by
    rw [getLsbD_attr, getLsbD_attr, getLsbD_word, getLsbD_word, h _ (by omega) (by omega)]
  rw [highTag, highTag, hsize, hattr]

lemma lowTag_congr (h : ∀ i < 4, u.byte i = v.byte i) : u.lowTag = v.lowTag := by
  rw [lowTag, lowTag, next_congr h]

lemma lowTag_setLowTag (t : MallocTag) : (u.setLowTag t).lowTag = t := by
  obtain ⟨size, attr⟩ := t
  simp only [lowTag, setLowTag, MallocTag.mk.injEq]
  constructor
  · refine BitVec.eq_of_getLsbD_eq fun k hk => ?_
    simp only [BitVec.getLsbD_append, BitVec.getLsbD_extractLsb']
    grind
  · refine BitVec.eq_of_getLsbD_eq fun k hk => ?_
    simp only [BitVec.getLsbD_append, BitVec.getLsbD_extractLsb']
    grind

end MallocHdr

namespace RtapiHeap

variable (h : RtapiHeap)

/-- The byte `a` of the heap. -/
def byte (a : ℕ) : BitVec 8 := (h.mem (a / 8)).byte (a % 8)

/-- A store to the byte `a`. -/
def setByte (a : ℕ) (b : BitVec 8) : RtapiHeap :=
  h.write (a / 8) (.ofBytes fun i => if i = a % 8 then b else (h.mem (a / 8)).byte i)

/-- `memcpy` of `n` bytes from the byte `src` on to the byte `p` on. -/
def memcpy (p src n : ℕ) : RtapiHeap :=
  { h with mem := fun u =>
      if 8 * u + 8 ≤ p ∨ p + n ≤ 8 * u then h.mem u
      else .ofBytes fun i =>
        if p ≤ 8 * u + i ∧ 8 * u + i < p + n then h.byte (src + (8 * u + i - p))
        else (h.mem u).byte i }

/-- The tag at the byte `a`. -/
def tagAt (a : ℕ) : MallocTag :=
  if a % 8 = 0 then (h.mem (a / 8)).lowTag else (h.mem (a / 8)).highTag

/-- A store of a tag at the byte `a`. -/
def setTag (a : ℕ) (t : MallocTag) : RtapiHeap :=
  h.write (a / 8)
    (if a % 8 = 0 then (h.mem (a / 8)).setLowTag t else (h.mem (a / 8)).setHighTag t)

/-- The region that was allocated for the pointer `ap`: the tag in front of it tells where, if
its alignment is not standard. -/
def regionAt (ap : ℕ) : ℕ :=
  if (h.tagAt (ap - 4)).attr &&& attrAligned ≠ 0 then (h.tagAt (ap - 4)).size.toNat else ap

/-- The header in front of the region of a pointer. -/
def headerAt (ap : ℕ) : ℕ := h.regionAt ap / 8 - 1

variable {h} {h' : RtapiHeap} {a p src n x q : ℕ}

/-- A pointer to a unit has the header of the unit. -/
lemma headerAt_unit (q : ℕ) : h.headerAt (8 * (q + 1)) = h.hdrOf (q + 1) := by
  have htag : h.tagAt (8 * (q + 1) - 4) = (h.mem q).highTag := by
    rw [tagAt, if_neg (by omega), show (8 * (q + 1) - 4) / 8 = q by omega]
  rw [headerAt, regionAt, hdrOf, region, htag, Nat.add_sub_cancel]
  by_cases hattr : (h.mem q).attr &&& attrAligned = 0
  · have hhigh : (h.mem q).highTag.attr &&& attrAligned = 0 := hattr
    rw [if_neg (not_not.2 hhigh), if_neg (not_not.2 hattr), Nat.mul_div_cancel_left _ (by decide)]
  · have hhigh : (h.mem q).highTag.attr &&& attrAligned ≠ 0 := hattr
    rw [if_pos hhigh, if_pos hattr]
    rfl

/-- A pointer behind the header of a chunk that is not aligned. -/
lemma headerAt_of_attr (ha : (h.mem q).attr = 0) : h.headerAt (8 * (q + 1)) = q := by
  rw [headerAt_unit, hdrOf, region, Nat.add_sub_cancel, ha]
  rfl

/-- A pointer behind a tag for the region at `8 * (q + 1)`. -/
lemma headerAt_of_tag {ap : ℕ} (hfit : 8 * (q + 1) < 2 ^ 24)
    (ht : h.tagAt (ap - 4) = ⟨BitVec.ofNat 24 (8 * (q + 1)), attrAligned⟩) :
    h.headerAt ap = q := by
  have hsize : (BitVec.ofNat 24 (8 * (q + 1))).toNat = 8 * (q + 1) := by
    rw [BitVec.toNat_ofNat, Nat.mod_eq_of_lt hfit]
  rw [headerAt, regionAt, ht, if_pos (show attrAligned &&& attrAligned ≠ 0 by decide)]
  simp only [hsize]
  omega

lemma tagAt_setTag (t : MallocTag) : (h.setTag a t).tagAt a = t := by
  rw [tagAt, setTag, mem_write, if_pos rfl]
  split
  · exact MallocHdr.lowTag_setLowTag t
  · rfl

/-- A tag depends on its four bytes. -/
lemma tagAt_congr (ha : a % 4 = 0) (hb : ∀ i, a ≤ i → i < a + 4 → h'.byte i = h.byte i) :
    h'.tagAt a = h.tagAt a := by
  have hbyte : ∀ i < 8, a ≤ 8 * (a / 8) + i → 8 * (a / 8) + i < a + 4 →
      (h'.mem (a / 8)).byte i = (h.mem (a / 8)).byte i := by
    intro i hi h1 h2
    have hb' := hb _ h1 h2
    rwa [byte, byte, show (8 * (a / 8) + i) / 8 = a / 8 by omega,
      show (8 * (a / 8) + i) % 8 = i by omega] at hb'
  rw [tagAt, tagAt]
  split_ifs with h0
  · exact MallocHdr.lowTag_congr fun i hi => hbyte i (by omega) (by omega) (by omega)
  · exact MallocHdr.highTag_congr fun i hi h4 => hbyte i hi (by omega) (by omega)

lemma byte_congr (hm : h'.mem (a / 8) = h.mem (a / 8)) : h'.byte a = h.byte a := by
  rw [byte, byte, hm]

/-! ### Stores -/

lemma setByte_mem_of_ne {b : BitVec 8} (hx : x ≠ a / 8) : (h.setByte a b).mem x = h.mem x :=
  h.mem_write_of_ne _ hx

lemma byte_setByte {b : BitVec 8} : (h.setByte a b).byte x = if x = a then b else h.byte x := by
  rw [byte, setByte, mem_write]
  split_ifs with hu hx hx
  · rw [MallocHdr.byte_ofBytes _ (by omega), if_pos (by rw [hx])]
  · rw [MallocHdr.byte_ofBytes _ (by omega), if_neg (by omega), ← hu]
    rfl
  · exact absurd (by rw [hx]) hu
  · rfl

/-- `memcpy` leaves the units alone that it stores no byte to. -/
lemma memcpy_mem (hx : 8 * x + 8 ≤ p ∨ p + n ≤ 8 * x) : (h.memcpy p src n).mem x = h.mem x :=
  if_pos hx

/-- The bytes copied are those of the source. -/
lemma byte_memcpy {i : ℕ} (hi : i < n) : (h.memcpy p src n).byte (p + i) = h.byte (src + i) := by
  have hin : ¬ (8 * ((p + i) / 8) + 8 ≤ p ∨ p + n ≤ 8 * ((p + i) / 8)) := by omega
  rw [byte, memcpy]
  simp only [if_neg hin]
  rw [MallocHdr.byte_ofBytes _ (by omega),
    show 8 * ((p + i) / 8) + (p + i) % 8 = p + i by omega, if_pos (by omega),
    Nat.add_sub_cancel_left]

end RtapiHeap

end MachinekitHal
