import MachinekitHal.Lib.Word
import MachinekitHal.Runtime.HeapCalls

/-!
Requests for memory.

* `HeapOk`: a heap in order, wherever its memory lies.
* `CountedHeap.rtapigMalloc_spec`, `CountedHeap.rtapiMallocAligned_spec`: what an allocation
  does to such a heap.
-/

namespace MachinekitHal

open Linking

/-- The heap has the free chunks `fs` and the live chunks `ls`, which are all of the arena, and
the 4 GiB above the descriptor have addresses. -/
structure HeapOk (h : RtapiHeap) (fs ls arena : List ℕ) : Prop where
  chunks : Chunks h fs ls arena
  arenas : Arenas arena
  addr : 8 * h.addr + 2 ^ 32 < 2 ^ 64

/-- `n` bytes from the byte `r` on are in the payload of the chunk `q`. -/
def RtapiHeap.RoomAt (h : RtapiHeap) (q r n : ℕ) : Prop :=
  8 * (q + 1) ≤ r ∧ r + n ≤ 8 * (q + h.size q)

variable {h h' : CountedHeap} {r : RtapiHeap} {fs ls arena : List ℕ} {q : ℕ} {n align : BitVec 64}

/-- A live chunk is in the first 4 GiB above the descriptor. -/
lemma Chunks.end_le {h : RtapiHeap} (hC : Chunks h fs ls arena) (hA : Arenas arena)
    (hq : q ∈ fs ++ ls) : q + h.size q ≤ 2 ^ 29 := by
  have hpos := hC.pos q hq
  have hlast := hA.below (q + h.size q - 1)
    (hC.mem_arena hq (h.mem_units.2 ⟨by omega, by omega⟩))
  omega

/-- The units of a request that does not wrap around. -/
lemma nunits_of_lt {m : ℕ} (hm : m + 7 < 2 ^ 64) : nunits m = (m + 7) / 8 + 1 := by
  rw [nunits, Nat.mod_eq_of_lt hm]

/-- The bytes available behind a header. -/
lemma RtapiHeap.allocsize_eq {h : RtapiHeap} {ap : ℕ} (hhdr : h.headerAt ap = q)
    (hpos : 0 < h.size q) : (h.allocsize ap).toNat = 8 * (h.size q - 1) := by
  have hlt := h.size_lt (x := q)
  have hsub : (BitVec.ofNat 64 (h.size q) - 1).toNat = h.size q - 1 := by
    rw [BitVec.toNat_sub_of_le]
    · rw [BitVec.toNat_ofNat, Nat.mod_eq_of_lt (by omega)]
      rfl
    · rw [BitVec.le_def, BitVec.toNat_ofNat, Nat.mod_eq_of_lt (by omega)]
      exact hpos
  rw [allocsize, hhdr, BitVec.toNat_mul, hsub]
  rw [show (8 : BitVec 64).toNat = 8 from rfl, Nat.mod_eq_of_lt (by omega)]
  omega

namespace CountedHeap

/-- What `_rtapig_malloc` does: no chunk has the units, or the first one that does gives them
from its tail end. -/
lemma rtapigMalloc_spec (hok : HeapOk h.toRtapiHeap fs ls arena) (n : BitVec 64) :
    h.rtapigMalloc n = .ok (none, h) ∧ (∀ c ∈ 0 :: fs, h.size c < nunits n.toNat) ∨
    ∃ q r, h.rtapigMalloc n = .ok (some (8 * (q + 1)), h.granted r (8 * (q + 1)) n) ∧
      Carved h.toRtapiHeap r ls arena q ∧ r.size q = nunits n.toNat ∧ (r.mem q).attr = 0 ∧
      r.trim = h.trim ∧ ∃ c ∈ fs, h.firstFit (nunits n.toNat) = some c ∧
        nunits n.toNat ≤ h.size c ∧ q = c + (h.size c - nunits n.toNat) := by
  rcases hok.chunks.malloc hok.arenas n.toNat with ⟨hnone, hsmall⟩ |
    ⟨q, r, hmalloc, hT, hsize, hattr, htrim, _, _, c, _, _, _, _, hfit, hq, hfirst, hc⟩
  · exact .inl ⟨by rw [rtapigMalloc, hnone], hsmall⟩
  · refine .inr ⟨q, r, by rw [rtapigMalloc, hmalloc], hT, hsize, hattr, htrim, c, hc,
      hfirst, hfit, hq⟩

/-- What was granted is counted. -/
lemma granted_allocated (hattr : (r.mem q).attr = 0) (hpos : 0 < r.size q) :
    (h.granted r (8 * (q + 1)) n).allocated =
      h.allocated + BitVec.ofNat 64 (8 * (r.size q - 1)) := by
  have hbytes := RtapiHeap.allocsize_eq (RtapiHeap.headerAt_of_attr hattr) hpos
  have heq : r.allocsize (8 * (q + 1)) = BitVec.ofNat 64 (8 * (r.size q - 1)) := by
    rw [← hbytes, BitVec.ofNat_toNat, BitVec.setWidth_eq]
  rw [← heq]
  rfl

/-- `rtapi_calloc` sets what `rtapi_malloc` gives it to zero. -/
lemma rtapiCalloc_of_malloc {nelem elsize : BitVec 64}
    (hmalloc : h.rtapigMalloc (nelem * elsize) =
      .ok (some (8 * (q + 1)), h.granted r (8 * (q + 1)) (nelem * elsize))) :
    h.rtapiCalloc nelem elsize = .ok (some (8 * (q + 1)),
      (h.granted r (8 * (q + 1)) (nelem * elsize)).withHeap
        (r.zeroMem (q + 1) (nelem * elsize).toNat)) := by
  rw [rtapiCalloc, rtapiMalloc, hmalloc]
  simp only [granted, Nat.mul_div_cancel_left _ (show 0 < 8 by norm_num)]

end CountedHeap

/-! ### Blocks with an alignment -/

lemma dvd_add_slack {a b : ℕ} (ha : 0 < a) : a ∣ b + (a - b % a) := by
  have hdiv := Nat.div_add_mod b a
  have hlt := Nat.mod_lt b ha
  refine ⟨b / a + 1, ?_⟩
  rw [Nat.mul_add, Nat.mul_one]
  omega

/-- How far the multiple of `2 ^ k` behind an address is from it, also where the address space
ends in between. -/
lemma aligned_slack {b k : ℕ} (hk : align.toNat = 2 ^ k) (hb : b < 2 ^ 64) :
    (((BitVec.ofNat 64 b + align) &&& -align) - BitVec.ofNat 64 b).toNat =
      2 ^ k - b % 2 ^ k := by
  have hlt : 2 ^ k < 2 ^ 64 := hk ▸ align.isLt
  have hk64 : k < 64 := (Nat.pow_lt_pow_iff_right (by norm_num)).1 hlt
  have hpos : 0 < 2 ^ k := by positivity
  have hmod := Nat.div_add_mod' b (2 ^ k)
  have hmlt := Nat.mod_lt b hpos
  have hb64 : (BitVec.ofNat 64 b).toNat = b := by
    rw [BitVec.toNat_ofNat, Nat.mod_eq_of_lt hb]
  have hresult : ((BitVec.ofNat 64 b + align) &&& -align).toNat =
      (b + 2 ^ k) % 2 ^ 64 / 2 ^ k * 2 ^ k := by
    rw [Word.toNat_and_neg _ hk, BitVec.toNat_add, hb64, hk]
  rw [BitVec.toNat_sub, hresult, hb64]
  rcases Nat.lt_or_ge (b + 2 ^ k) (2 ^ 64) with hin | hout
  · rw [Nat.mod_eq_of_lt hin, Nat.add_div_right _ hpos, Nat.succ_mul]
    omega
  · -- the multiple is the end of the address space
    obtain ⟨m, hm⟩ : 2 ^ k ∣ 2 ^ 64 := pow_dvd_pow 2 hk64.le
    obtain ⟨t, ht⟩ : ∃ t, b = 2 ^ k * (m - 1) + t := ⟨b - 2 ^ k * (m - 1), by
      rw [Nat.mul_sub, Nat.mul_one]
      omega⟩
    rw [Nat.mul_sub, Nat.mul_one, ← hm] at ht
    have htlt : t < 2 ^ k := by omega
    have hbt : b % 2 ^ k = t := by
      rw [ht, hm, ← Nat.mul_sub_one, Nat.mul_add_mod, Nat.mod_eq_of_lt htlt]
    have hzero : (b + 2 ^ k) % 2 ^ 64 / 2 ^ k = 0 := by
      rw [show b + 2 ^ k = t + 2 ^ 64 by omega, Nat.add_mod_right, Nat.mod_eq_of_lt (by omega),
        Nat.div_eq_of_lt htlt]
    rw [hzero, hbt, Nat.zero_mul]
    omega

/-- The block `p` of `n` bytes was allocated in the chunk `q`, with a tag in front of it. -/
structure AlignedBlock (h h' : CountedHeap) (ls arena : List ℕ) (q p : ℕ) (n align : BitVec 64) :
    Prop where
  taken : Taken h.toRtapiHeap h'.toRtapiHeap ls arena q
  room : h'.RoomAt q p n.toNat
  behind : 8 * (q + 1) + 4 ≤ p
  tag : h'.tagAt (p - 4) = ⟨BitVec.ofNat 24 (8 * (q + 1)), attrAligned⟩
  aligned : align.toNat ∣ 8 * h.addr + p
  trim : h'.trim = h.trim
  allocated : h'.allocated = h.allocated + BitVec.ofNat 64 (8 * (nunits (n + align).toNat - 1))
  /-- nothing is trimmed without the flag, or from a region that is aligned -/
  freed : (h.trim = true → align.toNat ∣ 8 * h.addr + 8 * (q + 1)) → h'.freed = h.freed ∧
    h'.size q = nunits (n + align).toNat

/-- A tag behind the header of the chunk that was taken. -/
lemma Carved.setTag {h : RtapiHeap} {p : ℕ} (hT : Carved h r ls arena q)
    (hok : HeapOk h fs ls arena) (h1 : 8 * (q + 1) + 4 ≤ p) (h2 : p ≤ 8 * (q + r.size q))
    (t : MallocTag) : Carved h (r.setTag (p - 4) t) ls arena q ∧
      (r.setTag (p - 4) t).size q = r.size q := by
  have hunit : q < (p - 4) / 8 ∧ (p - 4) / 8 < q + r.size q := by omega
  refine ⟨hT.inside hok.chunks hok.arenas (fun x hx => r.mem_write_of_ne _ ?_) rfl rfl,
    RtapiHeap.size_congr (r.mem_write_of_ne _ hunit.1.ne)⟩
  rintro rfl
  have := hx (r.mem_units.2 ⟨hunit.1.le, hunit.2⟩)
  omega

namespace CountedHeap

/-- The units at the end of a region are given back. -/
lemma trimRegion_spec {t : ℕ} (hok : HeapOk h.toRtapiHeap fs ls arena) {g : CountedHeap}
    (hT : Carved h.toRtapiHeap g.toRtapiHeap ls arena q) (ht : 0 < t) (hlt : t < g.size q) :
    ∃ g', g.trimRegion (8 * (q + 1)) t = .ok g' ∧
      Taken h.toRtapiHeap g'.toRtapiHeap ls arena q ∧ g'.size q = g.size q - t ∧
      (∀ x, q < x → x < q + (g.size q - t) → g'.mem x = g.mem x) ∧ g'.trim = g.trim ∧
      g'.allocated = g.allocated := by
  obtain ⟨r', hfree, hT', hsize, hmem⟩ := hT.trim hok.chunks hok.arenas ht hlt
  have hthis : 8 * (q + 1) / 8 - 1 = q := by omega
  have hhdr : (g.split q t).headerAt (8 * (q + (g.size q - t) + 1)) = q + (g.size q - t) :=
    RtapiHeap.headerAt_of_attr (RtapiHeap.split_attr hlt)
  have hrun : g.trimRegion (8 * (q + 1)) t = .ok { g with
      toRtapiHeap := r'
      freed := g.freed + 8 * (BitVec.ofNat 32 ((g.split q t).size (q + (g.size q - t))) - 1) } := by
    simp only [trimRegion, hthis, if_neg (Nat.not_lt.2 hlt.le), rtapiUnlockedFree, withHeap, hhdr,
      hfree]
  refine ⟨_, hrun, hT', hsize, hmem, ?_, rfl⟩
  have htrim := RtapiHeap.freeChunk_trim hfree
  exact htrim

lemma region_lt (hok : HeapOk h.toRtapiHeap fs ls arena)
    (hT : Carved h.toRtapiHeap r ls arena q) : 8 * h.addr + 8 * (q + 1) < 2 ^ 64 := by
  obtain ⟨fs', hC⟩ := hT.chunks
  have hq : q ∈ fs' ++ q :: ls := List.mem_append_right _ (.head _)
  have hend := hC.end_le hok.arenas hq
  have hpos := hC.pos q hq
  have haddr := hok.addr
  omega

/-- How far an aligned block is from the start of its region, and the units behind it. -/
structure SlackAt (addr q k slack : ℕ) (align s : BitVec 64) : Prop where
  toNat : s.toNat = slack
  pos : 0 < slack
  le : slack ≤ 2 ^ k
  four : 4 ∣ slack
  dvd : 2 ^ k ∣ 8 * addr + 8 * (q + 1) + slack
  full : 2 ^ k ∣ 8 * addr + 8 * (q + 1) → slack = 2 ^ k
  not_lt : ¬ s < 4
  cut : ((align - s) / 8).toNat = (2 ^ k - slack) / 8

lemma granted_address (hT : Carved h.toRtapiHeap r ls arena q) (m : BitVec 64) :
    (h.granted r (8 * (q + 1)) m).address (some (8 * (q + 1))) =
      BitVec.ofNat 64 (8 * h.addr + 8 * (q + 1)) :=
  congrArg (fun a => BitVec.ofNat 64 (8 * a + 8 * (q + 1))) hT.addr

lemma slackAt {k : ℕ} (hok : HeapOk h.toRtapiHeap fs ls arena) (hk : align.toNat = 2 ^ k)
    (h2 : 2 ≤ k) (hT : Carved h.toRtapiHeap r ls arena q) :
    ∃ slack, SlackAt h.addr q k slack align
      (((BitVec.ofNat 64 (8 * h.addr + 8 * (q + 1)) + align) &&& -align) -
        BitVec.ofNat 64 (8 * h.addr + 8 * (q + 1))) := by
  have hslack := aligned_slack hk (region_lt hok hT)
  have hmod := Nat.mod_lt (8 * h.addr + 8 * (q + 1)) (show 0 < 2 ^ k by positivity)
  obtain ⟨slack, hsl⟩ : ∃ slack, 2 ^ k - (8 * h.addr + 8 * (q + 1)) % 2 ^ k = slack := ⟨_, rfl⟩
  rw [hsl] at hslack
  have hpos : 0 < slack := by omega
  have hle : slack ≤ 2 ^ k := by omega
  have hdvd : 2 ^ k ∣ 8 * h.addr + 8 * (q + 1) + slack := by
    rw [← hsl]
    exact dvd_add_slack (by positivity)
  have h4 : 4 ∣ slack := by
    have hb := (show 4 ∣ 2 ^ k from pow_dvd_pow 2 h2).trans hdvd
    omega
  refine ⟨slack, hslack, hpos, hle, h4, hdvd, fun hb => ?_, fun hlt => ?_, ?_⟩
  · rw [← hsl, Nat.mod_eq_zero_of_dvd hb, Nat.sub_zero]
  · rw [BitVec.lt_def, hslack] at hlt
    exact absurd (Nat.le_of_dvd hpos h4) (Nat.not_le.2 hlt)
  · rw [BitVec.toNat_udiv, BitVec.toNat_sub_of_le, hk, hslack]
    · rfl
    · rw [BitVec.le_def, hk, hslack]
      exact hle

/-- The block in a region taken for it: behind a tag, aligned, with the room asked for. -/
lemma alignRegion_spec {k : ℕ} (hok : HeapOk h.toRtapiHeap fs ls arena)
    (hk : align.toNat = 2 ^ k) (h2 : 2 ≤ k) (hlt : n.toNat + 2 ^ k + 7 < 2 ^ 64)
    (hT : Carved h.toRtapiHeap r ls arena q) (hsize : r.size q = nunits (n + align).toNat)
    (hattr : (r.mem q).attr = 0) (htrim : r.trim = h.trim) :
    ∃ p h', (h.granted r (8 * (q + 1)) (n + align)).alignRegion (some (8 * (q + 1))) align =
      .ok (some p, h') ∧ AlignedBlock h h' ls arena q p n align := by
  have hm : (n + align).toNat = n.toNat + 2 ^ k := by
    rw [BitVec.toNat_add, hk, Nat.mod_eq_of_lt (by omega)]
  have hsz : r.size q = (n.toNat + 2 ^ k + 7) / 8 + 1 := by rw [hsize, hm, nunits_of_lt hlt]
  obtain ⟨slack, hS⟩ := slackAt hok hk h2 hT
  have hle := hS.le
  have hpos := hS.pos
  have hfour := hS.four
  have h4 := Nat.le_of_dvd hpos hfour
  set s := ((BitVec.ofNat 64 (8 * h.addr + 8 * (q + 1)) + align) &&& -align) -
    BitVec.ofNat 64 (8 * h.addr + 8 * (q + 1)) with hs
  set p := 8 * (q + 1) + slack with hp
  set g₀ := h.granted r (8 * (q + 1)) (n + align) with hg₀
  set tag : MallocTag := ⟨BitVec.ofNat 24 (8 * (q + 1)), attrAligned⟩ with htag
  set g := g₀.withHeap (g₀.setTag (p - 4) tag) with hg
  obtain ⟨hTg, hgsize⟩ : Carved h.toRtapiHeap g.toRtapiHeap ls arena q ∧
      g.size q = r.size q := hT.setTag hok (by omega) (by omega) tag
  have hgtag : g.tagAt (p - 4) = tag := RtapiHeap.tagAt_setTag tag
  have hrun : g₀.alignRegion (some (8 * (q + 1))) align =
      if g.trim ∧ 0 < (2 ^ k - slack) / 8 then
        (g.trimRegion (8 * (q + 1)) ((2 ^ k - slack) / 8)).map fun h => (some p, h)
      else .ok (some p, g) := by
    have hin : ¬ 8 * (q + g₀.size q) < p := by
      have hsame : g₀.size q = r.size q := rfl
      omega
    rw [alignRegion]
    simp only [hg₀, granted_address hT, ← hs, if_neg hS.not_lt, hS.toNat, hS.cut,
      show 8 * (q + 1) / 8 - 1 = q by omega]
    simp only [← hg₀, ← hp, ← htag, ← hg, if_neg hin]
  have hdvd' : align.toNat ∣ 8 * h.addr + p := by
    rw [hk, hp, ← Nat.add_assoc]
    exact hS.dvd
  have hgalloc : g.allocated = h.allocated +
      BitVec.ofNat 64 (8 * (nunits (n + align).toNat - 1)) := by
    rw [← hsize]
    exact granted_allocated (n := n + align) hattr (by omega)
  have hgtrim : g.trim = h.trim := htrim
  rw [hrun]
  split
  · -- the units behind the block go back
    rename_i hcond
    obtain ⟨g', hcut', hT', hsize', hmem', htrim', halloc'⟩ :=
      trimRegion_spec hok hTg hcond.2 (by omega)
    refine ⟨p, g', by rw [hcut']; rfl, hT', ⟨by omega, ?_⟩, by omega, ?_, hdvd',
      htrim'.trans hgtrim, halloc'.trans hgalloc, fun hno => ?_⟩
    · rw [hsize']
      omega
    · have hsame : g'.tagAt (p - 4) = g.tagAt (p - 4) := by
        refine RtapiHeap.tagAt_congr (by omega) fun i h1 h2 => RtapiHeap.byte_congr ?_
        exact hmem' _ (by omega) (by omega)
      exact hsame.trans hgtag
    · have hb := hno (hgtrim ▸ hcond.1)
      rw [hk] at hb
      have := hS.full hb
      omega
  · rename_i hcond
    refine ⟨p, g, rfl, hTg.toTaken, ⟨by omega, by rw [hgsize]; omega⟩, by omega, hgtag, hdvd',
      hgtrim, hgalloc, fun _ => ⟨rfl, by rw [hgsize, hsize]⟩⟩

/-- What `rtapi_malloc_aligned` does where memory is found, and the request does not wrap
around. -/
lemma rtapiMallocAligned_spec {k : ℕ} (hok : HeapOk h.toRtapiHeap fs ls arena)
    (hk : align.toNat = 2 ^ k) (h2 : 2 ≤ k) (hlt : n.toNat + 2 ^ k + 7 < 2 ^ 64)
    (hfound : ∃ c ∈ fs, nunits (n + align).toNat ≤ h.size c) :
    ∃ q p h', h.rtapiMallocAligned n align = .ok (some p, h') ∧
      AlignedBlock h h' ls arena q p n align ∧
      ∃ c ∈ fs, h.firstFit (nunits (n + align).toNat) = some c ∧
        nunits (n + align).toNat ≤ h.size c ∧
        q = c + (h.size c - nunits (n + align).toNat) := by
  have hpos : 0 < 2 ^ k := by positivity
  have h0 : align ≠ 0 := by
    rintro rfl
    exact hpos.ne hk
  have hk64 : k < 64 := (Nat.pow_lt_pow_iff_right (by norm_num)).1 (hk ▸ align.isLt)
  have hpow : ¬ align &&& (align - 1) ≠ 0 :=
    not_not.2 ((Word.and_sub_one_eq_zero h0).2 ⟨k, hk64, hk⟩)
  obtain ⟨c, hc, hfit⟩ := hfound
  rcases h.rtapigMalloc_spec hok (n + align) with ⟨_, hsmall⟩ |
    ⟨q, r, hmalloc, hT, hsize, hattr, htrim, hplace⟩
  · have := hsmall c (.tail _ hc)
    omega
  · obtain ⟨p, h', hrun, hblock⟩ := alignRegion_spec hok hk h2 hlt hT hsize hattr htrim
    refine ⟨q, p, h', ?_, hblock, hplace⟩
    rw [rtapiMallocAligned, if_neg hpow, hmalloc]
    exact hrun

/-- Behind enough slack `rtapi_malloc_aligned` does not return a null pointer. -/
lemma alignRegion_ne_none {base : Option ℕ}
    (hslack : 4 ≤ (((h.address base + align) &&& -align) - h.address base).toNat) :
    h.alignRegion base align ≠ .ok (none, h') := by
  have hnot : ¬ ((h.address base + align) &&& -align) - h.address base < 4 := by
    rw [BitVec.lt_def]
    exact Nat.not_lt.2 hslack
  intro hrun
  simp only [alignRegion, if_neg hnot] at hrun
  cases base with
  | none => cases hrun
  | some b =>
    simp only at hrun
    split_ifs at hrun with hin htrim
    · cases hcut : CountedHeap.trimRegion _ b _ with
      | error e =>
        rw [hcut] at hrun
        cases hrun
      | ok g =>
        rw [hcut] at hrun
        cases hrun
    · cases hrun

/-- Where the second half returns a null pointer, it has changed nothing. -/
lemma alignRegion_none_heap {base : Option ℕ}
    (hrun : h.alignRegion base align = .ok (none, h')) : h' = h := by
  by_cases hslack : ((h.address base + align) &&& -align) - h.address base < 4
  · simp only [alignRegion, if_pos hslack] at hrun
    exact (Prod.mk.inj (Except.ok.inj hrun)).2.symm
  · refine absurd hrun (alignRegion_ne_none ?_)
    rw [BitVec.lt_def] at hslack
    exact Nat.not_lt.1 hslack

/-- The second half of `rtapi_malloc_aligned` without memory: it writes near address 0. -/
lemma alignRegion_none (h : CountedHeap) {k : ℕ} (hk : align.toNat = 2 ^ k) :
    h.alignRegion none align = if align < 4 then .ok (none, h) else .error .wild := by
  have hzero : h.address none = 0 := rfl
  have hslack : ((h.address none + align) &&& -align) - h.address none = align := by
    refine BitVec.eq_of_toNat_eq ?_
    have haligned := aligned_slack (b := 0) hk (by norm_num)
    rw [Nat.zero_mod, Nat.sub_zero] at haligned
    rw [hzero, hk]
    exact haligned
  rw [alignRegion]
  simp only [hslack]

/-! ### Memory -/

/-- A heap that was initialised has no chunks. -/
lemma rtapiHeapInit_ok {addr : ℕ} (haddr : 8 * addr + 2 ^ 32 < 2 ^ 64) (mem : ℕ → MallocHdr) :
    HeapOk (rtapiHeapInit addr mem).toRtapiHeap [] [] [] := by
  refine ⟨chunks_init ?_ ?_ rfl, ⟨List.nodup_nil, fun u hu => absurd hu List.not_mem_nil,
    fun u hu => absurd hu List.not_mem_nil⟩, haddr⟩
  · simp [rtapiHeapInit, RtapiHeap.next, RtapiHeap.init]
  · simp [rtapiHeapInit, RtapiHeap.size, RtapiHeap.init]

/-- Memory that is added is a live chunk before it is freed. -/
lemma newMem_chunks {space size : ℕ} {h : RtapiHeap} (hok : HeapOk h fs ls arena)
    (hlo : sizeofRtapiHeap ≤ space) (hsize : 8 ≤ size)
    (hnew : ∀ u ∈ List.range' space ((size + 7) / 8), u ∉ arena)
    (hhi : space + size / 8 ≤ 2 ^ 29) (hfit : h.FreeFits fs space (size / 8)) {g : RtapiHeap}
    (hg : (h.zeroMem space size).setSize space (size / 8) = g) :
    HeapOk g fs (space :: ls) (arena ++ List.range' space (size / 8)) ∧
      g.FreeFits fs space (g.size space) ∧ g.size space = size / 8 ∧
      g.headerAt (8 * (space + 1)) = space ∧ ∀ x, x = 0 ∨ x ∈ arena → g.mem x = h.mem x := by
  have hA : Arenas (arena ++ List.range' space (size / 8)) :=
    hok.arenas.add hlo (fun u hu => hnew u (List.mem_range'_1.2 (by
      have hu' := List.mem_range'_1.1 hu
      omega))) hhi
  have hclicks : size / 8 < 2 ^ 24 := by
    have := hfit 0 (.head _) 0 (.head _) (.inl rfl) (.inl rfl)
    omega
  obtain ⟨hsz, hattr⟩ := @RtapiHeap.newMem_header h size space hsize hclicks
  rw [hg] at hsz hattr
  have hold : ∀ x, x = 0 ∨ x ∈ arena → g.mem x = h.mem x := by
    intro x hx
    rw [← hg]
    refine RtapiHeap.newMem_mem hsize ?_
    rcases hx with rfl | hx
    · rw [sizeofRtapiHeap] at hlo
      omega
    · by_contra hin
      exact hnew x (List.mem_range'_1.2 (by omega)) hx
  have hC := hok.chunks.add (by omega) hsz hold (hg ▸ rfl)
  have haddr : g.addr = h.addr := hg ▸ rfl
  refine ⟨⟨hC, hA, haddr ▸ hok.addr⟩, ?_, hsz, RtapiHeap.headerAt_of_attr hattr, hold⟩
  rw [hsz]
  refine hfit.congr fun c hc => RtapiHeap.size_congr (hold c ?_)
  rcases List.mem_cons.1 hc with rfl | hc
  · exact .inl rfl
  · have hc' : c ∈ fs ++ ls := List.mem_append_left _ hc
    exact .inr (hok.chunks.mem_arena hc' (hok.chunks.self_mem hc'))

/-- Memory that is added is a free chunk, joined to those it touches. -/
lemma rtapiHeapAddmem_spec {space : ℕ} {size : BitVec 64}
    (hok : HeapOk h.toRtapiHeap fs ls arena) (hlo : sizeofRtapiHeap ≤ space)
    (hsize : 8 ≤ size.toNat)
    (hnew : ∀ u ∈ List.range' space ((size.toNat + 7) / 8), u ∉ arena)
    (hhi : space + size.toNat / 8 ≤ 2 ^ 29) (hfit : h.FreeFits fs space (size.toNat / 8)) :
    ∃ h' fs', h.rtapiHeapAddmem space size = .ok h' ∧
      HeapOk h'.toRtapiHeap fs' ls (arena ++ List.range' space (size.toNat / 8)) ∧
      (∀ x ∈ ls.flatMap h.units, h'.mem x = h.mem x) ∧ h'.addr = h.addr ∧ h'.trim = h.trim ∧
      h'.allocated = h.allocated ∧ h'.freed = h.freed := by
  obtain ⟨g, hg⟩ : ∃ g, (h.zeroMem space size.toNat).setSize space (size.toNat / 8) = g :=
    ⟨_, rfl⟩
  obtain ⟨hok', hfit', hsz, hhdr, hold⟩ := newMem_chunks hok hlo hsize hnew hhi hfit hg
  obtain ⟨r, fs', hfree, hC', hsame⟩ := hok'.chunks.free hok'.arenas hfit'
  have haddr : r.addr = h.addr := by
    rw [RtapiHeap.freeChunk_addr hfree, ← hg]
    rfl
  have htrim : r.trim = h.trim := by
    rw [RtapiHeap.freeChunk_trim hfree, ← hg]
    rfl
  refine ⟨{ h with
      toRtapiHeap := r, arenaSize := h.arenaSize + size
      freed := h.freed + 8 * (BitVec.ofNat 32 (g.size space) - 1) -
        (BitVec.ofNat 32 (size.toNat / 8) - 1) * 8 },
    fs', ?_, ⟨hC', hok'.arenas, haddr ▸ hok.addr⟩, fun x hx => ?_, haddr, htrim, rfl, ?_⟩
  · simp only [rtapiHeapAddmem, hg, rtapiUnlockedFree, withHeap, hhdr, hfree]
    rfl
  · obtain ⟨c, hc, hxc⟩ := List.mem_flatMap.1 hx
    have hcall := List.mem_append_right fs hc
    have hca := hok.chunks.mem_arena hcall (hok.chunks.self_mem hcall)
    refine (hsame x (List.mem_flatMap.2 ⟨c, hc, ?_⟩)).trans
      (hold x (.inr (hok.chunks.mem_arena hcall hxc)))
    rw [RtapiHeap.mem_units, RtapiHeap.size_congr (hold c (.inr hca))]
    exact h.mem_units.1 hxc
  · simp only [hsz]
    rw [BitVec.mul_comm]
    exact BitVec.add_sub_cancel _ _

end CountedHeap

end MachinekitHal
