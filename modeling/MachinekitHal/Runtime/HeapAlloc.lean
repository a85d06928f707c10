import MachinekitHal.Runtime.HeapFree

/-!
What the allocations of a heap do to its chunks.

* `Taken`: a chunk was taken from the free list, and the other live chunks are as they were;
  `Carved`: and no free chunk is behind it.
* `Chunks.malloc`: `malloc` takes a chunk for the request, or finds no memory; `Taken.zeroMem`
  is what `calloc` does to it.
* `aligned_place`: where `mallocAligned` puts the payload; `Taken.forgeTag` writes the tag in
  front of it and `Taken.trim` gives back the units behind it.
* `newMem_header`, `Arena.add`: memory that is added.
-/

namespace MachinekitHal

open Linking

/-- The units at the end of the first chunk behind `free_p` that has `n` of them start less
than 16 MiB above the descriptor. -/
def RtapiHeap.alignedFits (h : RtapiHeap) (n : ℕ) : Prop :=
  ∀ ys pre c post, Path h.next h.freeP ys h.freeP → ys ++ [h.freeP] = pre ++ c :: post →
    (∀ y ∈ pre, h.size y < n) → n ≤ h.size c → 8 * (c + (h.size c - n) + 1) < 2 ^ 24

namespace RtapiHeap

variable (h : RtapiHeap)

/-- The chunks on the free list, from the descriptor on. -/
def freeList : List ℕ := walkTo h.next 0 heapFuel (h.next 0)

/-- The chunks in the order in which `malloc` looks at them, `free_p` last. -/
def searchOrder : List ℕ := walkTo h.next h.freeP heapFuel (h.next h.freeP) ++ [h.freeP]

/-- The first of them with `n` units. -/
def firstFit (n : ℕ) : Option ℕ := h.searchOrder.find? fun c => n ≤ h.size c

end RtapiHeap

/-- A request of less than 4 GiB. -/
lemma nunits_eq {nbytes : ℕ} (hn : nbytes < 2 ^ 32) : nunits nbytes = (nbytes + 7) / 8 + 1 := by
  rw [nunits, Nat.mod_eq_of_lt (by omega)]

namespace RtapiHeap

variable {h h' : RtapiHeap} {ap c d n p r : ℕ}

lemma take_addr : (h.take n d p).2.addr = h.addr := by
  rw [take]
  split_ifs <;> rfl

lemma take_trim : (h.take n d p).2.trim = h.trim := by
  rw [take]
  split_ifs <;> rfl

lemma freeChunk_addr (hf : h.freeChunk c = some h') : h'.addr = h.addr := by
  obtain ⟨p, _, rfl⟩ := Option.map_eq_some_iff.1 hf
  simp only [joinLower, joinUpper]
  split_ifs <;> rfl

lemma freeChunk_trim (hf : h.freeChunk c = some h') : h'.trim = h.trim := by
  obtain ⟨p, _, rfl⟩ := Option.map_eq_some_iff.1 hf
  simp only [joinLower, joinUpper]
  split_ifs <;> rfl

/-- `_rtapi_unlocked_free` frees the chunk that the tag refers to. -/
lemma unlockedFree_eq : h.unlockedFree ap = h.freeChunk (h.hdrOf ap) := rfl

/-- Only the tag in front of a pointer matters. -/
lemma hdrOf_congr (hm : h'.mem (ap - 1) = h.mem (ap - 1)) : h'.hdrOf ap = h.hdrOf ap := by
  rw [hdrOf, hdrOf, region, region, hm]

/-- A pointer whose tag has no alignment is behind its header. -/
lemma hdrOf_of_attr (ha : (h.mem c).attr = 0) : h.hdrOf (c + 1) = c := by
  rw [hdrOf, region, Nat.add_sub_cancel, ha]
  rfl

lemma unlockedFree_of_attr (ha : (h.mem c).attr = 0) :
    h.unlockedFree (c + 1) = h.freeChunk c := by
  rw [unlockedFree_eq, hdrOf_of_attr ha]

/-- The tag of an aligned payload refers to the region, if it fits. -/
lemma hdrOf_forgeTag (hfit : 8 * (c + 1) < 2 ^ 24) : (h.forgeTag r (c + 1)).hdrOf r = c := by
  have htag : (h.forgeTag r (c + 1)).mem (r - 1) =
      { h.mem (r - 1) with size := BitVec.ofNat 24 (8 * (c + 1)), attr := attrAligned } := by
    rw [forgeTag, mem_write, if_pos rfl]
  have hsize : (BitVec.ofNat 24 (8 * (c + 1))).toNat / 8 - 1 = c := by
    rw [BitVec.toNat_ofNat, Nat.mod_eq_of_lt hfit]
    omega
  rw [hdrOf, region, htag, if_pos (show attrAligned &&& attrAligned ≠ 0 by decide)]
  exact hsize

/-- `memset` of no more than whole units. -/
lemma zeroBytes_zero (u : MallocHdr) : u.zeroBytes 0 = u := by
  simp [MallocHdr.zeroBytes]

/-- `memset` leaves the units alone that have none of its bytes. -/
lemma zeroMem_mem {x : ℕ} (hx : x < p ∨ p + (n + 7) / 8 ≤ x) :
    (h.zeroMem p n).mem x = h.mem x := by
  have hnot : ¬(p ≤ x ∧ x < p + n / 8) := by omega
  refine (if_neg hnot).trans ?_
  split
  · have hmod : n % 8 = 0 := by omega
    rw [hmod, zeroBytes_zero]
  · rfl

/-- What is not in new memory is as it was. -/
lemma newMem_mem {x : ℕ} (hn : 8 ≤ n) (hx : x < p ∨ p + (n + 7) / 8 ≤ x) :
    ((h.zeroMem p n).setSize p (n / 8)).mem x = h.mem x :=
  ((h.zeroMem p n).mem_write_of_ne _ (by omega)).trans (zeroMem_mem hx)

/-- The header of new memory. -/
lemma newMem_header (hn : 8 ≤ n) (hlt : n / 8 < 2 ^ 24) :
    ((h.zeroMem p n).setSize p (n / 8)).size p = n / 8 ∧
      (((h.zeroMem p n).setSize p (n / 8)).mem p).attr = 0 := by
  have hin : p ≤ p ∧ p < p + n / 8 := ⟨le_refl _, by omega⟩
  refine ⟨by rw [size_setSize _ (by omega), if_pos rfl], ?_⟩
  rw [setSize, mem_write, if_pos rfl, zeroMem]
  simp only [if_pos hin]
  rfl

end RtapiHeap

lemma Arenas.add {arena : List ℕ} {space size : ℕ} (hA : Arenas arena)
    (hlo : sizeofRtapiHeap ≤ space)
    (hnew : ∀ u ∈ List.range' space (size / 8), u ∉ arena) (hhi : space + size / 8 ≤ 2 ^ 29) :
    Arenas (arena ++ List.range' space (size / 8)) := by
  refine ⟨List.nodup_append.2 ⟨hA.nodup, List.nodup_range', ?_⟩, ?_, ?_⟩
  · rintro x hx y hy rfl
    exact hnew x hy hx
  · intro u hu
    rcases List.mem_append.1 hu with hu | hu
    · exact hA.above u hu
    · exact hlo.trans (List.mem_range'_1.1 hu).1
  · intro u hu
    rcases List.mem_append.1 hu with hu | hu
    · exact hA.below u hu
    · exact lt_of_lt_of_le (List.mem_range'_1.1 hu).2 hhi

lemma Arena.add {arena : List ℕ} {space size : ℕ} (hA : Arena arena)
    (hlo : sizeofRtapiHeap ≤ space) (hsum : 8 * arena.length + size < 2 ^ 24)
    (hnew : ∀ u ∈ List.range' space (size / 8), u ∉ arena) (hhi : space + size / 8 ≤ 2 ^ 29) :
    Arena (arena ++ List.range' space (size / 8)) := by
  refine ⟨hA.toArenas.add hlo hnew hhi, ?_⟩
  rw [List.length_append, List.length_range']
  omega

/-- The chunk `q` was taken from the free list of `h`, and the live chunks `ls` are as they
were. -/
structure Taken (h h' : RtapiHeap) (ls arena : List ℕ) (q : ℕ) : Prop where
  chunks : ∃ fs, Chunks h' fs (q :: ls) arena
  same : ∀ x ∈ ls.flatMap h.units, h'.mem x = h.mem x
  addr : h'.addr = h.addr

/-- The chunk `q` was taken from the tail end of a free chunk: no free chunk is behind it. -/
structure Carved (h h' : RtapiHeap) (ls arena : List ℕ) (q : ℕ) : Prop
    extends Taken h h' ls arena q where
  top : ∃ fs, Chunks h' fs (q :: ls) arena ∧ q + h'.size q ∉ fs

variable {h h' h'' : RtapiHeap} {fs ls arena : List ℕ} {n nbytes q r : ℕ}

/-- The live chunks have the units they had. -/
lemma Taken.units (hT : Taken h h' ls arena q) (hC : Chunks h fs ls arena) :
    ls.flatMap h'.units = ls.flatMap h.units := by
  refine Chunks.flatMap_units fun c hc => RtapiHeap.size_congr (hT.same c ?_)
  exact List.mem_flatMap.2 ⟨c, hc, hC.self_mem (List.mem_append_right _ hc)⟩

/-- A unit of a live chunk is not in the chunk that was taken. -/
lemma Taken.not_mem (hT : Taken h h' ls arena q) (hC : Chunks h fs ls arena)
    (hA : Arenas arena) {x : ℕ} (hx : x ∈ ls.flatMap h.units) : x ∉ h'.units q := by
  obtain ⟨fs', hC'⟩ := hT.chunks
  rw [← hT.units hC] at hx
  obtain ⟨d, hd, hxd⟩ := List.mem_flatMap.1 hx
  intro hxq
  have hq : q ∈ fs' ++ q :: ls := List.mem_append_right _ (.head _)
  obtain rfl := hC'.eq_of_mem hA hq
    (List.mem_append_right _ (.tail _ hd)) hxq hxd
  exact (List.nodup_cons.1 (List.nodup_append.1 (hC'.nodup hA)).2.1).1 hd

/-- Changes in the payload of the chunk that was taken. -/
lemma Taken.inside (hT : Taken h h' ls arena q) (hC : Chunks h fs ls arena)
    (hA : Arenas arena) (hm : ∀ x, (x ∈ h'.units q → x = q) → h''.mem x = h'.mem x)
    (hf : h''.freeP = h'.freeP) (ha : h''.addr = h'.addr) : Taken h h'' ls arena q := by
  obtain ⟨fs', hC'⟩ := hT.chunks
  refine ⟨⟨fs', hC'.inside hA hm hf⟩, fun x hx => ?_, ha.trans hT.addr⟩
  exact (hm x fun hxq => absurd hxq (hT.not_mem hC hA hx)).trans (hT.same x hx)

lemma Carved.inside (hT : Carved h h' ls arena q) (hC : Chunks h fs ls arena)
    (hA : Arenas arena) (hm : ∀ x, (x ∈ h'.units q → x = q) → h''.mem x = h'.mem x)
    (hf : h''.freeP = h'.freeP) (ha : h''.addr = h'.addr) : Carved h h'' ls arena q := by
  obtain ⟨fs', hC', htop⟩ := hT.top
  have hsize : h''.size q = h'.size q := RtapiHeap.size_congr (hm q fun _ => rfl)
  exact ⟨hT.toTaken.inside hC hA hm hf ha, fs', hC'.inside hA hm hf, by rwa [hsize]⟩

/-- Zeroes in the payload of the chunk that was taken. -/
lemma Carved.zeroMem (hT : Carved h h' ls arena q) (hC : Chunks h fs ls arena)
    (hA : Arenas arena) (hn : (nbytes + 7) / 8 < h'.size q) :
    Carved h (h'.zeroMem (q + 1) nbytes) ls arena q ∧
      (h'.zeroMem (q + 1) nbytes).mem q = h'.mem q := by
  refine ⟨hT.inside hC hA (fun x hx => RtapiHeap.zeroMem_mem ?_) rfl rfl,
    RtapiHeap.zeroMem_mem (.inl (by omega))⟩
  rw [h'.mem_units] at hx
  omega

/-- The free list is what a walk finds. -/
lemma Chunks.freeList_eq (hC : Chunks h fs ls arena) (hA : Arenas arena) : h.freeList = fs := by
  have h1 := hC.length_le
  have h2 := hA.length_le
  exact hC.ring.walkTo (List.nodup_cons.1 hC.nodup_ring).1 (by rw [heapFuel]; omega)

/-- The chunk that a search along the free list finds. -/
lemma RtapiHeap.firstFit_eq {ys pre post : List ℕ} {c : ℕ}
    (hring : Path h.next h.freeP ys h.freeP) (hys : h.freeP ∉ ys ∧ ys.length < heapFuel)
    (he : ys ++ [h.freeP] = pre ++ c :: post) (hpre : ∀ y ∈ pre, h.size y < n)
    (hn : n ≤ h.size c) : h.firstFit n = some c := by
  have horder : h.searchOrder = pre ++ c :: post := by
    rw [searchOrder, hring.walkTo hys.1 hys.2, he]
  have hno : pre.find? (fun c => decide (n ≤ h.size c)) = none :=
    List.find?_eq_none.2 fun y hy => by
      have := hpre y hy
      simpa using this
  rw [firstFit, horder, List.find?_append, hno, Option.none_or, List.find?_cons_of_pos]
  exact decide_eq_true hn

/-- `malloc` looks at all chunks on the free list. -/
lemma Chunks.searchOrder_perm (hC : Chunks h fs ls arena) (hA : Arenas arena) :
    h.searchOrder.Perm (0 :: fs) := by
  obtain ⟨ys, hring, hperm, hlen⟩ := hC.rotate hA
  have hnd := hperm.nodup_iff.2 hC.nodup_ring
  rw [RtapiHeap.searchOrder, hring.walkTo (List.nodup_cons.1 hnd).1 hlen]
  exact (List.perm_append_singleton _ ys).trans hperm

lemma Chunks.firstFit_eq_none (hC : Chunks h fs ls arena) (hA : Arenas arena) :
    h.firstFit n = none ↔ ∀ c ∈ 0 :: fs, h.size c < n := by
  rw [RtapiHeap.firstFit, List.find?_eq_none]
  simp only [(hC.searchOrder_perm hA).mem_iff, decide_eq_true_eq, Nat.not_le]

/-- The first chunk that is big enough is on the free list. -/
lemma Chunks.firstFit_mem {c : ℕ} (hC : Chunks h fs ls arena) (hA : Arenas arena) (hn : 0 < n)
    (hfit : h.firstFit n = some c) : c ∈ fs ∧ n ≤ h.size c := by
  have hle : n ≤ h.size c := by
    have hc := List.find?_some hfit
    exact of_decide_eq_true hc
  refine ⟨(List.mem_cons.1 ((hC.searchOrder_perm hA).mem_iff.1
    (List.mem_of_find?_eq_some hfit))).resolve_left fun h0 => ?_, hle⟩
  rw [h0, hC.base] at hle
  omega

/-- `malloc` takes the tail end of the first chunk that is big enough, or there is none. -/
lemma Chunks.malloc (hC : Chunks h fs ls arena) (hA : Arenas arena) (nbytes : ℕ) :
    h.malloc nbytes = some (none, h) ∧ (∀ c ∈ 0 :: fs, h.size c < nunits nbytes) ∨
    ∃ q h', h.malloc nbytes = some (some (q + 1), h') ∧
      Carved h h' ls arena q ∧ h'.size q = nunits nbytes ∧ (h'.mem q).attr = 0 ∧
      h'.trim = h.trim ∧
      ∃ ys pre c post, Path h.next h.freeP ys h.freeP ∧ ys ++ [h.freeP] = pre ++ c :: post ∧
        (∀ y ∈ pre, h.size y < nunits nbytes) ∧ nunits nbytes ≤ h.size c ∧
        q = c + (h.size c - nunits nbytes) ∧ h.firstFit (nunits nbytes) = some c ∧ c ∈ fs := by
  obtain ⟨d, hd, hfind, hfirst, hnone⟩ := hC.findFit hA (nunits nbytes)
  by_cases hfit : nunits nbytes ≤ h.size (h.next d)
  · right
    have hn : 0 < nunits nbytes := Nat.succ_pos _
    obtain ⟨fs', hq, hC', hsize, hattr, hsame, htop⟩ := hC.take hA hd rfl hn hfit
    obtain ⟨ys, pre, post, hring, hys, he, hpre⟩ := hfirst hfit
    refine ⟨_, _, ?_, ⟨⟨⟨fs', hC'⟩, hsame, RtapiHeap.take_addr⟩, fs', hC', by
      rwa [hsize, Nat.add_assoc, Nat.sub_add_cancel hfit]⟩, hsize,
      hattr, RtapiHeap.take_trim,
      ys, pre, _, post, hring, he, hpre, hfit, rfl, RtapiHeap.firstFit_eq hring hys he hpre hfit,
      (List.mem_cons.1 (hC.next_mem hd)).resolve_left fun h0 => by
        rw [h0, hC.base] at hfit
        omega⟩
    rw [RtapiHeap.malloc, hfind]
    simp only [if_pos hfit, hq]
  · left
    refine ⟨?_, hnone (by omega)⟩
    rw [RtapiHeap.malloc, hfind]
    simp only [if_neg hfit]

/-- Where an aligned payload starts: in the first `a` units behind the start of the region. -/
lemma aligned_place {base align a : ℕ} (ha : align = 8 * a) (hpos : 0 < a) :
    ∃ s, 1 ≤ s ∧ s ≤ a ∧ (8 * base + align) / align * align = 8 * (base + s) ∧
      align ∣ 8 * (base + s) := by
  have hdiv : (8 * base + align) / align * align = 8 * ((base / a + 1) * a) := by
    rw [Nat.add_div_right _ (by omega), ha, Nat.mul_div_mul_left _ _ (by norm_num)]
    ring
  have hmod := Nat.div_add_mod' base a
  have hlt := Nat.mod_lt base hpos
  have hplace : base + (a - base % a) = (base / a + 1) * a := by
    rw [Nat.succ_mul]
    omega
  refine ⟨a - base % a, by omega, by omega, ?_, ?_⟩
  · rw [hdiv, hplace]
  · rw [hplace, ha]
    exact ⟨base / a + 1, by ring⟩

/-- The tag of an aligned payload. -/
lemma Carved.forgeTag (hT : Carved h h' ls arena q) (hC : Chunks h fs ls arena)
    (hA : Arenas arena) (base : ℕ) (hr : q < r - 1) (hlt : r - 1 < q + h'.size q) :
    Carved h (h'.forgeTag r base) ls arena q ∧ (h'.forgeTag r base).size q = h'.size q := by
  refine ⟨hT.inside hC hA (fun x hx => h'.mem_write_of_ne _ ?_) rfl rfl, ?_⟩
  · rintro rfl
    have hq := hx (h'.mem_units.2 ⟨hr.le, hlt⟩)
    omega
  · exact RtapiHeap.size_congr (h'.mem_write_of_ne _ hr.ne)

/-- The units at the end of a live chunk touch no free chunk, if none is behind it. -/
lemma Chunks.freeFits_split (hC : Chunks h fs (q :: ls) arena) (hA : Arenas arena)
    (hn : 0 < n) (hlt : n < h.size q) (htop : q + h.size q ∉ fs) :
    (h.split q n).FreeFits fs (q + (h.size q - n))
      ((h.split q n).size (q + (h.size q - n))) := by
  have hsplit := hC.split hA hn hlt
  have hsize := fun x => @RtapiHeap.split_size h q n x hlt
  set new := q + (h.size q - n)
  have hsnew : (h.split q n).size new = n := by rw [hsize, if_neg (by omega), if_pos rfl]
  have hsq : (h.split q n).size q = h.size q - n := by rw [hsize, if_pos rfl]
  have hqall : q ∈ fs ++ new :: q :: ls :=
    List.mem_append_right _ (.tail _ (.head _))
  have hlow : ∀ p ∈ 0 :: fs, p = 0 ∨ p + (h.split q n).size p = new → p = 0 := by
    rintro p hp (hp0 | htouch)
    · exact hp0
    rcases List.mem_cons.1 hp with hp0 | hp
    · exact hp0
    -- the unit in front of the piece is in the rest of the chunk
    have hpall : p ∈ fs ++ new :: q :: ls := List.mem_append_left _ hp
    have hpos := hsplit.pos p hpall
    have hunit : ∀ c, c ≤ new - 1 → new - 1 < c + (h.split q n).size c →
        new - 1 ∈ (h.split q n).units c := fun c h1 h2 =>
      (h.split q n).mem_units.2 ⟨h1, h2⟩
    have he := hsplit.eq_of_mem hA hpall hqall (hunit p (by omega) (by omega))
      (hunit q (by omega) (by omega))
    exact absurd (.tail _ (.head _))
      (List.disjoint_of_nodup_append (hsplit.nodup hA) (he ▸ hp))
  intro p hp y hy hbelow habove
  obtain rfl := hlow p hp hbelow
  have hy0 : y = 0 := by
    rcases habove with hy0 | htouch
    · exact hy0
    rcases List.mem_cons.1 hy with hy0 | hy
    · exact hy0
    · exact absurd hy (by rw [← htouch, hsnew]; rwa [show new + n = q + h.size q by omega])
  rw [hy0, hsplit.base, hsnew]
  have := h.size_lt (x := q)
  omega

/-- The last `n` units of the chunk that was taken are given back. -/
lemma Carved.trim (hT : Carved h h' ls arena q) (hC : Chunks h fs ls arena) (hA : Arenas arena)
    (hn : 0 < n) (hlt : n < h'.size q) :
    ∃ h'', (h'.split q n).freeChunk (q + (h'.size q - n)) = some h'' ∧
      Taken h h'' ls arena q ∧ h''.size q = h'.size q - n ∧
      ∀ x, q < x → x < q + (h'.size q - n) → h''.mem x = h'.mem x := by
  obtain ⟨fs', hC', htop⟩ := hT.top
  have hq : q ∈ fs' ++ q :: ls := List.mem_append_right _ (.head _)
  have hsize : (h'.split q n).size q = h'.size q - n := by
    rw [RtapiHeap.split_size hlt, if_pos rfl]
  have hsplit := hC'.split hA hn hlt
  obtain ⟨h'', fs'', hfree, hC'', hsame⟩ := hsplit.free hA (hC'.freeFits_split hA hn hlt htop)
  have hself : q ∈ (h'.split q n).units q := (h'.split q n).mem_units.2 ⟨le_refl q, by omega⟩
  have hsame_q : ∀ x ∈ (h'.split q n).units q, h''.mem x = (h'.split q n).mem x := fun x hx =>
    hsame x (List.mem_flatMap.2 ⟨q, (.head _), hx⟩)
  -- the other chunks are not in the one that was split
  have hmem : ∀ x ∈ ls.flatMap h.units, (h'.split q n).mem x = h'.mem x := by
    intro x hx
    have hx' := hT.not_mem hC hA hx
    rw [h'.mem_units, not_and_or] at hx'
    exact RtapiHeap.split_mem (by omega) (by omega)
  have hls : ls.flatMap (h'.split q n).units = ls.flatMap h.units := by
    rw [← hT.units hC]
    refine Chunks.flatMap_units fun c hc => RtapiHeap.size_congr (hmem c ?_)
    rw [← hT.units hC]
    exact List.mem_flatMap.2 ⟨c, hc, hC'.self_mem
      (List.mem_append_right _ (.tail _ hc))⟩
  refine ⟨h'', hfree, ⟨⟨fs'', hC''⟩, fun x hx => ?_, ?_⟩, ?_, fun x hx hxlt => ?_⟩
  · rw [hsame x ?_, hmem x hx, hT.same x hx]
    rw [List.flatMap_cons, hls]
    exact List.mem_append_right _ hx
  · exact (RtapiHeap.freeChunk_addr hfree).trans hT.addr
  · exact (RtapiHeap.size_congr (hsame_q q hself)).trans hsize
  · rw [hsame_q x ((h'.split q n).mem_units.2 ⟨hx.le, by omega⟩)]
    exact RtapiHeap.split_mem hx.ne' (by omega)

/-- `mallocAligned` puts the payload behind the header of the chunk it takes, aligned. -/
lemma Chunks.mallocAligned {align a : ℕ} (hC : Chunks h fs ls arena) (hA : Arenas arena)
    (ha : align = 8 * a) (hpos : 0 < a) (hpow : align &&& (align - 1) = 0)
    (hlt : nbytes + align < 2 ^ 32) (hok : ∃ p h', h.malloc (nbytes + align) = some (some p, h'))
    (hfit : h.alignedFits (nunits (nbytes + align))) :
    ∃ q r h', h.mallocAligned nbytes align = some (some r, h') ∧ Taken h h' ls arena q ∧
      h'.hdrOf r = q ∧ q < r ∧ r + (nbytes + 7) / 8 ≤ q + h'.size q ∧
      align ∣ 8 * (h.addr + r) := by
  rcases hC.malloc hA (nbytes + align) with ⟨hnone, -⟩ | ⟨q, h', hmalloc, hT, hsize, _, htrim,
    ys, pre, c, post, hring, he, hpre, hbig, hq, -⟩
  · obtain ⟨p, h', hp⟩ := hok
    rw [hnone] at hp
    cases hp
  have htag : 8 * (q + 1) < 2 ^ 24 := hq ▸ hfit ys pre c post hring he hpre hbig
  obtain ⟨s, hs, hsa, hplace, hdvd⟩ := @aligned_place (h.addr + (q + 1)) align a ha hpos
  rw [nunits_eq hlt] at hsize
  have hn : h'.size q = (nbytes + 7) / 8 + a + 1 := by omega
  set r := q + 1 + s with hr
  obtain ⟨hT₂, hsize₂⟩ := hT.forgeTag (r := r) hC hA (q + 1) (by omega) (by omega)
  have hhdr : (h'.forgeTag r (q + 1)).hdrOf r = q := RtapiHeap.hdrOf_forgeTag htag
  set h₂ := h'.forgeTag r (q + 1) with hh₂
  have hmallocAligned : h.mallocAligned nbytes align =
      if h₂.trim ∧ 0 < a - s then
        ((h₂.split q (a - s)).unlockedFree (q + (h₂.size q - (a - s)) + 1)).map
          fun h => (some r, h)
      else some (some r, h₂) := by
    have hslack : 8 * (h.addr + (q + 1) + s) - 8 * (h.addr + (q + 1)) = 8 * s := by omega
    have hplace' : 8 * (h.addr + (q + 1) + s) / 8 - h.addr = r := by omega
    have htrim' : (align - 8 * s) / 8 = a - s := by omega
    rw [RtapiHeap.mallocAligned, if_neg (not_not.2 hpow), hmalloc]
    simp only [hT.addr, hplace, hslack, hplace', htrim', Nat.add_sub_cancel]
    rw [if_neg (by omega)]
  rw [hmallocAligned]
  have haddr : h.addr + (q + 1) + s = h.addr + r := by omega
  split
  · -- the units behind the payload go back
    rename_i hcond
    obtain ⟨h₃, hfree, hT₃, hsize₃, hmem₃⟩ := hT₂.trim hC hA hcond.2 (by omega)
    have hattr := h₂.split_attr (c := q) (n := a - s) (by omega)
    refine ⟨q, r, h₃, by rw [RtapiHeap.unlockedFree_of_attr hattr, hfree]; rfl, hT₃, ?_,
      by omega, by omega, haddr ▸ hdvd⟩
    exact (RtapiHeap.hdrOf_congr (hmem₃ _ (by omega) (by omega))).trans hhdr
  · exact ⟨q, r, h₂, rfl, hT₂.toTaken, hhdr, by omega, by omega, haddr ▸ hdvd⟩

end MachinekitHal
