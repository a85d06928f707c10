import MachinekitHal.Runtime.Heap

/-!
The chunks of a heap.

* `Chunks`: the free list is a ring through the descriptor with its chunks in the order of
  their addresses, and its chunks and the live ones are the units of the arena.
* `Chunks.inside`, `Chunks.split`, `Chunks.add`: changes in a payload, splitting a live chunk,
  and new memory.
* `Chunks.take`: what an allocation does; `Chunks.free`: what freeing does. Both leave the
  units of all other live chunks alone.
-/

namespace MachinekitHal

open Linking

namespace RtapiHeap

variable (h : RtapiHeap) {p q x n : ℕ}

lemma mem_write (u : MallocHdr) : (h.write p u).mem x = if x = p then u else h.mem x := by
  by_cases hx : x = p
  · subst hx
    simp [write]
  · simp [write, hx]

/-- A write leaves the other units alone. -/
lemma mem_write_of_ne (u : MallocHdr) (hx : x ≠ p) : (h.write p u).mem x = h.mem x := by
  rw [mem_write, if_neg hx]

@[simp] lemma write_freeP (u : MallocHdr) : (h.write p u).freeP = h.freeP := rfl

@[simp] lemma next_setSize : (h.setSize p n).next x = h.next x := by
  rw [next, next, setSize, mem_write]
  split_ifs with hx
  · rw [hx]
  · rfl

@[simp] lemma next_setAttr (a : BitVec 8) : (h.setAttr p a).next x = h.next x := by
  rw [next, next, setAttr, mem_write]
  split_ifs with hx
  · rw [hx]
  · rfl

@[simp] lemma size_setAttr (a : BitVec 8) : (h.setAttr p a).size x = h.size x := by
  rw [size, size, setAttr, mem_write]
  split_ifs with hx
  · rw [hx]
  · rfl

@[simp] lemma size_setNext : (h.setNext p q).size x = h.size x := by
  rw [size, size, setNext, mem_write]
  split_ifs with hx
  · rw [hx]
  · rfl

@[simp] lemma size_copyNext : (h.copyNext p q).size x = h.size x := by
  rw [size, size, copyNext, mem_write]
  split_ifs with hx
  · rw [hx]
  · rfl

lemma next_copyNext : (h.copyNext p q).next x = if x = p then h.next q else h.next x := by
  rw [next, next, next, copyNext, mem_write]
  split_ifs with hx <;> rfl

lemma size_lt : h.size x < 2 ^ 24 := (h.mem x).size.isLt

/-- An offset below 4 GiB fits. -/
lemma next_setNext (hq : q < 2 ^ 29) :
    (h.setNext p q).next x = if x = p then q else h.next x := by
  have hfit : (BitVec.ofNat 32 (8 * q)).toNat / 8 = q := by
    rw [BitVec.toNat_ofNat, Nat.mod_eq_of_lt (by omega)]
    omega
  rw [next, next, setNext, mem_write]
  split_ifs with hx
  · exact hfit
  · rfl

/-- A size below `2 ^ 24` units fits. -/
lemma size_setSize (hn : n < 2 ^ 24) :
    (h.setSize p n).size x = if x = p then n else h.size x := by
  rw [size, size, setSize, mem_write]
  split_ifs with hx
  · rw [BitVec.toNat_ofNat, Nat.mod_eq_of_lt hn]
  · rfl

/-- The fields of a unit that is as it was. -/
lemma next_congr {h h' : RtapiHeap} (hm : h'.mem x = h.mem x) : h'.next x = h.next x := by
  rw [next, next, hm]

lemma size_congr {h h' : RtapiHeap} (hm : h'.mem x = h.mem x) : h'.size x = h.size x := by
  rw [size, size, hm]

lemma mem_units : x ∈ h.units p ↔ p ≤ x ∧ x < p + h.size p := by
  simp [units, List.mem_range'_1]

end RtapiHeap

/-- The units of the memory added to a heap: above the descriptor, below 4 GiB. -/
structure Arenas (arena : List ℕ) : Prop where
  nodup : arena.Nodup
  above : ∀ u ∈ arena, sizeofRtapiHeap ≤ u
  below : ∀ u ∈ arena, u < 2 ^ 29

/-- Less than 16 MiB of memory. -/
structure Arena (arena : List ℕ) : Prop extends Arenas arena where
  length : arena.length < 2 ^ 21

lemma Arenas.length_le {arena : List ℕ} (hA : Arenas arena) : arena.length ≤ 2 ^ 29 := by
  have hsub : arena.Subperm (List.range (2 ^ 29)) :=
    hA.nodup.subperm fun u hu => List.mem_range.2 (hA.below u hu)
  have hle := hsub.length_le
  rwa [List.length_range] at hle

/-- The heap consists of the free chunks `fs`, in the order of the free list, and the live
chunks `ls`, which have all units of the arena. -/
structure Chunks (h : RtapiHeap) (fs ls arena : List ℕ) : Prop where
  /-- the free list is a ring through the descriptor -/
  ring : Path h.next 0 fs 0
  /-- in the order of the addresses -/
  sorted : (0 :: fs).Pairwise (· < ·)
  freeP : h.freeP ∈ 0 :: fs
  /-- the descriptor is an empty chunk -/
  base : h.size 0 = 0
  pos : ∀ c ∈ fs ++ ls, 0 < h.size c
  part : ((fs ++ ls).flatMap h.units).Perm arena
  /-- no free chunk touches the next one -/
  gaps : fs.Pairwise fun c d => c + h.size c < d

/-- A heap without memory: the descriptor is alone on the free list. -/
lemma chunks_init {h : RtapiHeap} (hnext : h.next 0 = 0) (hsize : h.size 0 = 0)
    (hfree : h.freeP = 0) : Chunks h [] [] [] := by
  refine ⟨hnext, List.pairwise_singleton _ _, ?_, hsize, fun c hc => absurd hc List.not_mem_nil,
    List.Perm.refl _, List.Pairwise.nil⟩
  rw [hfree]
  exact (.head _)

namespace Chunks

variable {h h' : RtapiHeap} {fs ls arena : List ℕ} {c d p x n : ℕ}

lemma nodup_ring (hC : Chunks h fs ls arena) : (0 :: fs).Nodup := hC.sorted.imp fun h => h.ne

lemma self_mem (hC : Chunks h fs ls arena) (hc : c ∈ fs ++ ls) : c ∈ h.units c :=
  h.mem_units.2 ⟨le_refl c, by have := hC.pos c hc; omega⟩

/-- A unit of a chunk is in the arena. -/
lemma mem_arena (hC : Chunks h fs ls arena) (hc : c ∈ fs ++ ls) (hx : x ∈ h.units c) :
    x ∈ arena :=
  hC.part.mem_iff.1 (List.mem_flatMap.2 ⟨c, hc, hx⟩)

/-- Chunks have no unit in common. -/
lemma disjoint (hC : Chunks h fs ls arena) (hA : Arenas arena) :
    (fs ++ ls).Pairwise fun c d => (h.units c).Disjoint (h.units d) :=
  (List.nodup_flatMap.1 (hC.part.nodup_iff.2 hA.nodup)).2

/-- Chunks that are not empty and have no unit in common are not listed twice. -/
lemma nodup_of_part {l : List ℕ} (hpart : (l.flatMap h.units).Perm arena) (hA : Arenas arena)
    (hpos : ∀ c ∈ l, 0 < h.size c) : l.Nodup := by
  have hself : ∀ c ∈ l, c ∈ h.units c := fun c hc =>
    h.mem_units.2 ⟨le_refl c, Nat.lt_add_of_pos_right (hpos c hc)⟩
  refine List.Pairwise.imp_of_mem ?_ (List.nodup_flatMap.1 (hpart.nodup_iff.2 hA.nodup)).2
  rintro c d hc hd hdis rfl
  exact hdis (hself c hc) (hself c hc)

lemma nodup (hC : Chunks h fs ls arena) (hA : Arenas arena) : (fs ++ ls).Nodup :=
  nodup_of_part hC.part hA hC.pos

/-- A unit is in one of the chunks that partition an arena only. -/
lemma eq_of_part {l : List ℕ} (hpart : (l.flatMap h.units).Perm arena) (hA : Arenas arena)
    (hc : c ∈ l) (hd : d ∈ l) (hxc : x ∈ h.units c) (hxd : x ∈ h.units d) : c = d := by
  have hdis := (List.nodup_flatMap.1 (hpart.nodup_iff.2 hA.nodup)).2
  obtain ⟨pre, post, he⟩ := List.append_of_mem hc
  rw [he] at hd hdis
  obtain ⟨_, hpost, hcross⟩ := List.pairwise_append.1 hdis
  rcases List.mem_append.1 hd with hd | hd
  · exact absurd hxc (hcross d hd c (.head _) hxd)
  · rcases List.mem_cons.1 hd with rfl | hd
    · rfl
    · exact absurd hxd ((List.pairwise_cons.1 hpost).1 d hd hxc)

lemma eq_of_mem (hC : Chunks h fs ls arena) (hA : Arenas arena) (hc : c ∈ fs ++ ls)
    (hd : d ∈ fs ++ ls) (hxc : x ∈ h.units c) (hxd : x ∈ h.units d) : c = d :=
  eq_of_part hC.part hA hc hd hxc hxd

/-- A chunk ends where a later one starts, or before. -/
lemma end_le_of_part {l : List ℕ} (hpart : (l.flatMap h.units).Perm arena) (hA : Arenas arena)
    (hc : c ∈ l) (hd : d ∈ l) (hpos : 0 < h.size d) (hlt : c < d) : c + h.size c ≤ d := by
  by_contra hin
  have hself : d ∈ h.units d := h.mem_units.2 ⟨le_refl d, by omega⟩
  have hdc : d ∈ h.units c := h.mem_units.2 ⟨hlt.le, by omega⟩
  exact hlt.ne (eq_of_part hpart hA hc hd hdc hself)

/-- Free chunks of the same sizes have the same gaps. -/
lemma gaps_congr {l : List ℕ} (hg : l.Pairwise fun c d => c + h.size c < d)
    (hs : ∀ c ∈ l, h'.size c ≤ h.size c) : l.Pairwise fun c d => c + h'.size c < d :=
  hg.imp_of_mem fun hc _ hlt => lt_of_le_of_lt (Nat.add_le_add_left (hs _ hc) _) hlt

/-- The number of units is at least the number of chunks. -/
lemma length_le (hC : Chunks h fs ls arena) : fs.length + ls.length ≤ arena.length := by
  have hle : ∀ l : List ℕ, (∀ c ∈ l, 0 < h.size c) → l.length ≤ (l.flatMap h.units).length := by
    intro l hl
    induction l with
    | nil => simp
    | cons c l ih =>
      have hc : 0 < h.size c := hl c (.head _)
      have hrest := ih fun d hd => hl d (.tail _ hd)
      rw [List.flatMap_cons, List.length_append, List.length_cons, RtapiHeap.units,
        List.length_range']
      omega
  have h1 := hle (fs ++ ls) hC.pos
  rw [hC.part.length_eq, List.length_append] at h1
  exact h1

/-- A chunk of a small arena is small. -/
lemma size_lt_of_part {l : List ℕ} (hpart : (l.flatMap h.units).Perm arena) (hA : Arena arena)
    (hc : c ∈ l) : h.size c < 2 ^ 21 := by
  have hsub : (h.units c).length ≤ arena.length := by
    have hnd : (h.units c).Nodup := List.nodup_range'
    exact (hnd.subperm fun x hx =>
      hpart.mem_iff.1 (List.mem_flatMap.2 ⟨c, hc, hx⟩)).length_le
  rw [RtapiHeap.units, List.length_range'] at hsub
  exact lt_of_le_of_lt hsub hA.length

lemma size_lt (hC : Chunks h fs ls arena) (hA : Arena arena) (hc : c ∈ fs ++ ls) :
    h.size c < 2 ^ 21 :=
  size_lt_of_part hC.part hA hc

/-- Chunks of the same sizes have the same units. -/
lemma flatMap_units {l : List ℕ} (hs : ∀ c ∈ l, h'.size c = h.size c) :
    l.flatMap h'.units = l.flatMap h.units :=
  List.flatMap_congr fun c hc => by rw [RtapiHeap.units, RtapiHeap.units, hs c hc]

/-- Two chunks in a row as one. -/
lemma flatMap_merge {l l' rest : List ℕ} (hl : l.Perm (c :: d :: rest))
    (hl' : l'.Perm (c :: rest)) (hd : c + h.size c = d) (hc : h'.size c = h.size c + h.size d)
    (hs : ∀ x ∈ rest, h'.size x = h.size x) :
    (l'.flatMap h'.units).Perm (l.flatMap h.units) := by
  have hu : h'.units c = h.units c ++ h.units d := by
    rw [RtapiHeap.units, RtapiHeap.units, RtapiHeap.units, hc, ← hd, List.range'_append_1]
  refine (hl'.flatMap_right _).trans (List.Perm.trans ?_ (hl.flatMap_right _).symm)
  rw [List.flatMap_cons, List.flatMap_cons, List.flatMap_cons, hu, flatMap_units hs,
    List.append_assoc]

/-- Only the headers of the chunks matter. -/
lemma congr (hC : Chunks h fs ls arena) (hm : ∀ c ∈ 0 :: (fs ++ ls), h'.mem c = h.mem c)
    (hf : h'.freeP = h.freeP) : Chunks h' fs ls arena := by
  have hs : ∀ c ∈ 0 :: (fs ++ ls), h'.size c = h.size c := fun c hc =>
    RtapiHeap.size_congr (hm c hc)
  refine ⟨hC.ring.congr ?_, hC.sorted, hf ▸ hC.freeP, ?_, ?_, ?_, ?_⟩
  · intro c hc
    have hc' : c ∈ 0 :: (fs ++ ls) := by
      rcases List.mem_cons.1 hc with rfl | hc
      · exact (.head _)
      · exact .tail _ (List.mem_append_left _ hc)
    exact RtapiHeap.next_congr (hm c hc')
  · exact (hs 0 (.head _)).trans hC.base
  · intro c hc
    rw [hs c (.tail _ hc)]
    exact hC.pos c hc
  · rw [flatMap_units fun c hc => hs c (.tail _ hc)]
    exact hC.part
  · exact gaps_congr hC.gaps fun c hc =>
      (hs c (.tail _ (List.mem_append_left _ hc))).le

/-- The order in which the live chunks are listed does not matter. -/
lemma perm {ls' : List ℕ} (hC : Chunks h fs ls arena) (hp : ls'.Perm ls) :
    Chunks h fs ls' arena := by
  refine ⟨hC.ring, hC.sorted, hC.freeP, hC.base, ?_, ?_, hC.gaps⟩
  · exact fun c hc => hC.pos c ((hp.append_left fs).mem_iff.1 hc)
  · exact ((hp.append_left fs).flatMap_right _).trans hC.part

/-- No chunk is at the descriptor. -/
lemma ne_zero (hC : Chunks h fs ls arena) (hA : Arenas arena) (hc : c ∈ fs ++ ls) : c ≠ 0 := by
  have habove := hA.above c (hC.mem_arena hc (hC.self_mem hc))
  rw [sizeofRtapiHeap] at habove
  omega

/-- A unit inside a live chunk is not the header of another. -/
lemma not_header (hC : Chunks h fs (c :: ls) arena) (hA : Arenas arena) (hx : x ∈ h.units c)
    (hd : d ∈ 0 :: (fs ++ c :: ls)) (hdc : d ≠ c) : d ≠ x := by
  rintro rfl
  have hc : c ∈ fs ++ c :: ls := List.mem_append_right _ (.head _)
  rcases List.mem_cons.1 hd with rfl | hd
  · have habove := hA.above 0 (hC.mem_arena hc hx)
    simp [sizeofRtapiHeap] at habove
  · exact hdc (hC.eq_of_mem hA hd hc (hC.self_mem hd) hx)

/-- Changes inside a live chunk, behind its header. -/
lemma inside (hC : Chunks h fs (c :: ls) arena) (hA : Arenas arena)
    (hm : ∀ x, (x ∈ h.units c → x = c) → h'.mem x = h.mem x) (hf : h'.freeP = h.freeP) :
    Chunks h' fs (c :: ls) arena := by
  refine hC.congr (fun d hd => hm d fun hdc => ?_) hf
  by_contra hne
  exact hC.not_header hA hdc hd hne rfl

/-- New memory is a live chunk. -/
lemma add (hC : Chunks h fs ls arena) (hn : 0 < n) (hs : h'.size c = n)
    (hm : ∀ x, x = 0 ∨ x ∈ arena → h'.mem x = h.mem x) (hf : h'.freeP = h.freeP) :
    Chunks h' fs (c :: ls) (arena ++ List.range' c n) := by
  have hold : Chunks h' fs ls arena := by
    refine hC.congr (fun d hd => hm d ?_) hf
    rcases List.mem_cons.1 hd with rfl | hd
    · exact .inl rfl
    · exact .inr (hC.mem_arena hd (hC.self_mem hd))
  refine ⟨hold.ring, hold.sorted, hold.freeP, hold.base, ?_, ?_, hold.gaps⟩
  · intro d hd
    rcases List.mem_cons.1 (List.perm_middle.mem_iff.1 hd) with rfl | hd
    · omega
    · exact hold.pos d hd
  · refine (List.perm_middle.flatMap_right _).trans ?_
    rw [List.flatMap_cons, RtapiHeap.units, hs]
    exact (hold.part.append_left _).trans List.perm_append_comm

end Chunks

namespace RtapiHeap

variable {h : RtapiHeap} {c n x : ℕ}

/-- Splitting a chunk changes its header and makes a new one. -/
lemma split_mem (hx : x ≠ c) (hx' : x ≠ c + (h.size c - n)) :
    (h.split c n).mem x = h.mem x := by
  simp only [split, setSize, setNext, setAttr, copyNext, mem_write, if_neg hx, if_neg hx']

lemma split_size (hlt : n < h.size c) :
    (h.split c n).size x =
      if x = c then h.size c - n else if x = c + (h.size c - n) then n else h.size x := by
  have hb := h.size_lt (x := c)
  set new := c + (h.size c - n)
  set h₁ := ((h.copyNext new c).setSize new n).setAttr new 0 with hh₁
  have h₁_size : ∀ x, h₁.size x = if x = new then n else h.size x := by
    intro x
    rw [hh₁, size_setAttr, size_setSize _ (by omega), size_copyNext]
  have hc : h₁.size c = h.size c := by
    rw [h₁_size, if_neg]
    omega
  have hsplit : h.split c n = (h₁.setNext c new).setSize c (h₁.size c - n) := rfl
  rw [hsplit, hc, size_setSize _ (by omega), size_setNext, h₁_size]

/-- The new chunk is not aligned. -/
lemma split_attr (hlt : n < h.size c) : ((h.split c n).mem (c + (h.size c - n))).attr = 0 := by
  have hne : c + (h.size c - n) ≠ c := by omega
  simp only [split, setSize, setNext, setAttr, copyNext, mem_write, if_neg hne, if_true]

end RtapiHeap

namespace Chunks

variable {h h' : RtapiHeap} {fs ls arena : List ℕ} {c d p x n : ℕ}

/-- Splitting a live chunk makes two of it. -/
lemma split (hC : Chunks h fs (c :: ls) arena) (hA : Arenas arena) (hn : 0 < n)
    (hlt : n < h.size c) :
    Chunks (h.split c n) fs ((c + (h.size c - n)) :: c :: ls) arena := by
  have hc : c ∈ fs ++ c :: ls := List.mem_append_right _ (.head _)
  have hsize := fun x => @RtapiHeap.split_size h c n x hlt
  set new := c + (h.size c - n)
  have hne : new ≠ c := by omega
  have hnew : new ∈ h.units c := h.mem_units.2 ⟨by omega, by omega⟩
  have hsc : (h.split c n).size c = h.size c - n := by rw [hsize, if_pos rfl]
  have hsnew : (h.split c n).size new = n := by rw [hsize, if_neg hne, if_pos rfl]
  -- the other chunks are as they were
  have hother : ∀ d ∈ 0 :: (fs ++ ls), d ≠ c ∧ d ≠ new := by
    have hnd := hC.nodup hA
    rw [List.perm_middle.nodup_iff, List.nodup_cons] at hnd
    intro d hd
    have hdc : d ≠ c := by
      rintro rfl
      rcases List.mem_cons.1 hd with h0 | hd
      · exact hC.ne_zero hA hc h0
      · exact hnd.1 hd
    refine ⟨hdc, hC.not_header hA hnew ?_ hdc⟩
    rcases List.mem_cons.1 hd with rfl | hd
    · exact (.head _)
    · exact .tail _ (List.perm_middle.mem_iff.2 (.tail _ hd))
  have hmem : ∀ d ∈ 0 :: (fs ++ ls), (h.split c n).mem d = h.mem d := fun d hd =>
    RtapiHeap.split_mem (hother d hd).1 (hother d hd).2
  have hs : ∀ d ∈ 0 :: (fs ++ ls), (h.split c n).size d = h.size d := fun d hd =>
    RtapiHeap.size_congr (hmem d hd)
  have hperm : (fs ++ new :: c :: ls).Perm (c :: new :: (fs ++ ls)) :=
    List.perm_middle.trans ((List.perm_middle.cons new).trans (List.Perm.swap _ _ _))
  refine ⟨hC.ring.congr ?_, hC.sorted, hC.freeP, ?_, ?_, ?_, gaps_congr hC.gaps fun d hd =>
    (hs d (.tail _ (List.mem_append_left _ hd))).le⟩
  · intro d hd
    have hd' : d ∈ 0 :: (fs ++ ls) := by
      rcases List.mem_cons.1 hd with rfl | hd
      · exact (.head _)
      · exact .tail _ (List.mem_append_left _ hd)
    exact RtapiHeap.next_congr (hmem d hd')
  · exact (hs 0 (.head _)).trans hC.base
  · intro d hd
    rcases List.mem_cons.1 (hperm.mem_iff.1 hd) with rfl | hd
    · omega
    rcases List.mem_cons.1 hd with rfl | hd
    · omega
    · rw [hs d (.tail _ hd)]
      exact hC.pos d (List.perm_middle.mem_iff.2 (.tail _ hd))
  · exact (flatMap_merge hperm List.perm_middle (by omega) (by omega)
      fun d hd => (hs d (.tail _ hd)).symm).symm.trans hC.part

/-- A unit of a live chunk is in no free chunk. -/
lemma live_ne (hC : Chunks h fs ls arena) (hA : Arenas arena) (hx : x ∈ ls.flatMap h.units)
    (hc : c ∈ fs) (hp : p ∈ h.units c) : x ≠ p := by
  rintro rfl
  obtain ⟨d, hd, hxd⟩ := List.mem_flatMap.1 hx
  obtain rfl := hC.eq_of_mem hA (List.mem_append_left _ hc) (List.mem_append_right _ hd) hp hxd
  exact List.disjoint_of_nodup_append (hC.nodup hA) hc hd

/-- A unit of a live chunk is not the header of a chunk on the free list. -/
lemma live_ne_ring (hC : Chunks h fs ls arena) (hA : Arenas arena) (hx : x ∈ ls.flatMap h.units)
    (hc : c ∈ 0 :: fs) : x ≠ c := by
  rcases List.mem_cons.1 hc with rfl | hc
  · rintro rfl
    obtain ⟨d, hd, hxd⟩ := List.mem_flatMap.1 hx
    have habove := hA.above 0 (hC.mem_arena (List.mem_append_right _ hd) hxd)
    simp [sizeofRtapiHeap] at habove
  · exact hC.live_ne hA hx hc (hC.self_mem (List.mem_append_left _ hc))

/-- What follows a chunk on the free list is on the free list. -/
lemma next_mem (hC : Chunks h fs ls arena) (hp : p ∈ 0 :: fs) : h.next p ∈ 0 :: fs := by
  have hmem : h.next p ∈ (0 :: fs).map h.next := List.mem_map_of_mem hp
  rw [hC.ring.map] at hmem
  exact (List.perm_append_singleton 0 fs).mem_iff.1 hmem

/-- Taking a chunk off the free list: it is live. -/
lemma unlink {lo hi : List ℕ} (hC : Chunks h (lo ++ p :: hi) ls arena)
    (hd : d = (0 :: lo).getLast (by simp)) (hn : h'.next d = h.next p)
    (hno : ∀ x, x ≠ d → h'.next x = h.next x) (hs : ∀ x, h'.size x = h.size x)
    (hf : h'.freeP = d) : Chunks h' (lo ++ hi) (p :: ls) arena := by
  have hsub : List.Sublist (0 :: (lo ++ hi)) (0 :: (lo ++ p :: hi)) :=
    List.Sublist.cons_cons 0 ((List.sublist_cons_self p hi).append_left lo)
  have hperm : (lo ++ hi ++ p :: ls).Perm (lo ++ p :: hi ++ ls) := by
    refine List.perm_middle.trans ?_
    rw [List.append_assoc, List.append_assoc]
    exact List.perm_middle.symm
  obtain ⟨hlo, hhi⟩ := path_append.1 hC.ring
  have hnd := hC.nodup_ring
  have hdlo : d ∈ 0 :: lo := hd ▸ List.getLast_mem _
  have hndlo : (0 :: lo).Nodup := hnd.sublist (List.sublist_append_left (0 :: lo) (p :: hi))
  have hdhi : ∀ y ∈ hi, y ≠ d := by
    rintro y hy rfl
    have hnd' : ((0 :: lo) ++ (p :: hi)).Nodup := hnd
    exact List.disjoint_of_nodup_append hnd' hdlo (.tail _ hy)
  refine ⟨hlo.splice hd hndlo hhi (fun x _ hx => hno x hx) (fun y hy => hno y (hdhi y hy)) hn,
    hC.sorted.sublist hsub, ?_, (hs 0).trans hC.base, ?_, ?_, gaps_congr
      (hC.gaps.sublist ((List.sublist_cons_self p hi).append_left lo)) fun c _ => (hs c).le⟩
  · rw [hf]
    rcases List.mem_cons.1 hdlo with rfl | hd
    · exact (.head _)
    · exact .tail _ (List.mem_append_left _ hd)
  · intro c hc
    rw [hs]
    exact hC.pos c (hperm.mem_iff.1 hc)
  · rw [flatMap_units fun c _ => hs c]
    exact (hperm.flatMap_right _).trans hC.part

/-- Cutting off the tail end of a free chunk: the tail is live. -/
lemma cut {lo hi : List ℕ} (hC : Chunks h (lo ++ p :: hi) ls arena) (hA : Arenas arena)
    (hn : 0 < n) (hlt : n < h.size p) (hno : ∀ x, h'.next x = h.next x)
    (hs : ∀ x, h'.size x =
      if x = p then h.size p - n else if x = p + (h.size p - n) then n else h.size x)
    (hf : h'.freeP ∈ 0 :: (lo ++ p :: hi)) :
    Chunks h' (lo ++ p :: hi) ((p + (h.size p - n)) :: ls) arena := by
  set q := p + (h.size p - n)
  have hp : p ∈ lo ++ p :: hi ++ ls :=
    List.mem_append_left _ (List.mem_append_right _ (.head _))
  have hne : q ≠ p := by omega
  have hq : q ∈ h.units p := h.mem_units.2 ⟨by omega, by omega⟩
  have hsp : h'.size p = h.size p - n := by rw [hs, if_pos rfl]
  have hsq : h'.size q = n := by rw [hs, if_neg hne, if_pos rfl]
  have hperm : (lo ++ p :: hi ++ q :: ls).Perm (p :: q :: (lo ++ hi ++ ls)) := by
    refine List.perm_middle.trans ((List.Perm.cons q ?_).trans (List.Perm.swap _ _ _))
    rw [List.append_assoc, List.append_assoc]
    exact List.perm_middle
  have hperm' : (lo ++ p :: hi ++ ls).Perm (p :: (lo ++ hi ++ ls)) := by
    rw [List.append_assoc, List.append_assoc]
    exact List.perm_middle
  have hother : ∀ d ∈ lo ++ hi ++ ls, h'.size d = h.size d := by
    intro d hd
    have hnd := hperm'.nodup_iff.1 (hC.nodup hA)
    have hdp : d ≠ p := fun h => (List.nodup_cons.1 hnd).1 (h ▸ hd)
    have hd' : d ∈ lo ++ p :: hi ++ ls := hperm'.mem_iff.2 (.tail _ hd)
    have hdq : d ≠ q := by
      rintro rfl
      exact hdp (hC.eq_of_mem hA hd' hp (hC.self_mem hd') hq)
    rw [hs, if_neg hdp, if_neg hdq]
  refine ⟨hC.ring.congr fun x _ => hno x, hC.sorted, hf, ?_, ?_, ?_,
    gaps_congr hC.gaps fun d hd => ?_⟩
  · have hq0 : (0 : ℕ) ≠ q := by
      have habove := hA.above q (hC.mem_arena hp hq)
      rw [sizeofRtapiHeap] at habove
      omega
    rw [hs, if_neg (hC.ne_zero hA hp).symm, if_neg hq0]
    exact hC.base
  · intro d hd
    rcases List.mem_cons.1 (hperm.mem_iff.1 hd) with rfl | hd
    · omega
    rcases List.mem_cons.1 hd with rfl | hd
    · omega
    · rw [hother d hd]
      exact hC.pos d (hperm'.mem_iff.2 (.tail _ hd))
  · exact (flatMap_merge hperm hperm' (by omega) (by omega)
      fun d hd => (hother d hd).symm).symm.trans hC.part
  · by_cases hdp : d = p
    · subst hdp
      omega
    · have hd' := hperm'.mem_iff.1 (List.mem_append_left ls hd)
      exact (hother d ((List.mem_cons.1 hd').resolve_left hdp)).le

/-- No free chunk starts where another one ends. -/
lemma end_notMem (hC : Chunks h fs ls arena) (hc : c ∈ fs) : c + h.size c ∉ fs := by
  intro hin
  have hpos := hC.pos c (List.mem_append_left _ hc)
  obtain ⟨lo, hi, rfl⟩ := List.append_of_mem hc
  obtain ⟨_, hhi, hlo⟩ := List.pairwise_append.1 hC.gaps
  rcases List.mem_append.1 hin with hin | hin
  · have := hlo _ hin c (.head _)
    omega
  · rcases List.mem_cons.1 hin with he | hin
    · omega
    · have := (List.pairwise_cons.1 hhi).1 _ hin
      omega

/-- The chunk in front of `p` on the free list. -/
lemma eq_last {lo hi : List ℕ} (hC : Chunks h (lo ++ p :: hi) ls arena)
    (hd : d ∈ 0 :: (lo ++ p :: hi)) (hn : h.next d = p) : d = (0 :: lo).getLast (by simp) := by
  have hlo := (path_append.1 hC.ring).1
  refine hC.ring.next_inj hC.nodup_ring hd ?_ (hn.trans hlo.last.symm)
  have hmem : (0 :: lo).getLast (by simp) ∈ 0 :: lo := List.getLast_mem _
  rcases List.mem_cons.1 hmem with h0 | hmem
  · rw [h0]
    exact (.head _)
  · exact .tail _ (List.mem_append_left _ hmem)

/-- Taking units from a free chunk: a live chunk of that many units, and everything in the
other live chunks as it was. -/
lemma take (hC : Chunks h fs ls arena) (hA : Arenas arena) (hd : d ∈ 0 :: fs)
    (hp : h.next d = p) (hn : 0 < n) (hfit : n ≤ h.size p) : ∃ fs',
    (h.take n d p).1 = p + (h.size p - n) ∧
    Chunks (h.take n d p).2 fs' ((p + (h.size p - n)) :: ls) arena ∧
    (h.take n d p).2.size (p + (h.size p - n)) = n ∧
    ((h.take n d p).2.mem (p + (h.size p - n))).attr = 0 ∧
    (∀ x ∈ ls.flatMap h.units, (h.take n d p).2.mem x = h.mem x) ∧
    p + h.size p ∉ fs' := by
  have hp0 : p ≠ 0 := by
    rintro rfl
    have hbase := hC.base
    omega
  have hpfs : p ∈ fs := (List.mem_cons.1 (hp ▸ hC.next_mem hd)).resolve_left hp0
  have hpall : p ∈ fs ++ ls := List.mem_append_left _ hpfs
  have hlt24 := h.size_lt (x := p)
  have htop := hC.end_notMem hpfs
  obtain ⟨lo, hi, rfl⟩ := List.append_of_mem hpfs
  by_cases heq : h.size p = n
  · -- exactly
    have htake : h.take n d p = (p, { (h.copyNext d p).setAttr p 0 with freeP := d }) := by
      rw [RtapiHeap.take, if_pos heq]
    have hmem : ∀ x, x ≠ d → x ≠ p → (h.take n d p).2.mem x = h.mem x := by
      intro x hxd hxp
      simp only [htake, RtapiHeap.setAttr, RtapiHeap.copyNext, RtapiHeap.mem_write, if_neg hxd,
        if_neg hxp]
    have hnext : ∀ x, (h.take n d p).2.next x = if x = d then h.next p else h.next x := by
      intro x
      rw [htake, ← h.next_copyNext]
      exact RtapiHeap.next_setAttr _ _
    have hsize : ∀ x, (h.take n d p).2.size x = h.size x := by
      intro x
      rw [htake]
      exact (RtapiHeap.size_setAttr _ _).trans (RtapiHeap.size_copyNext _)
    rw [show h.size p - n = 0 by omega, Nat.add_zero]
    refine ⟨lo ++ hi, by rw [htake], ?_, by rw [hsize, heq], ?_, ?_, fun hin => htop
      (((List.sublist_cons_self p hi).append_left lo).subset hin)⟩
    · refine hC.unlink (hC.eq_last hd hp) (by rw [hnext, if_pos rfl]) ?_ hsize (by rw [htake])
      intro x hx
      rw [hnext, if_neg hx]
    · simp [htake, RtapiHeap.setAttr, RtapiHeap.write]
    · exact fun x hx => hmem x (hC.live_ne_ring hA hx hd)
        (hC.live_ne hA hx hpfs (hC.self_mem hpall))
  · -- allocate tail end
    set q := p + (h.size p - n)
    have hqp : q ≠ p := by omega
    have hq : q ∈ h.units p := h.mem_units.2 ⟨by omega, by omega⟩
    have hsp : (h.setSize p (h.size p - n)).size p = h.size p - n := by
      rw [RtapiHeap.size_setSize _ (by omega), if_pos rfl]
    have htake : h.take n d p =
        (q, { ((h.setSize p (h.size p - n)).setSize q n).setAttr q 0 with freeP := d }) := by
      rw [RtapiHeap.take, if_neg heq]
      simp only [hsp]
      rfl
    have hmem : ∀ x, x ≠ p → x ≠ q → (h.take n d p).2.mem x = h.mem x := by
      intro x hxp hxq
      simp only [htake, RtapiHeap.setAttr, RtapiHeap.setSize, RtapiHeap.mem_write, if_neg hxp,
        if_neg hxq]
    have hnext : ∀ x, (h.take n d p).2.next x = h.next x := by
      intro x
      rw [htake]
      exact (RtapiHeap.next_setAttr _ _).trans
        ((RtapiHeap.next_setSize _).trans (RtapiHeap.next_setSize _))
    have hsize : ∀ x, (h.take n d p).2.size x =
        if x = p then h.size p - n else if x = q then n else h.size x := by
      intro x
      have h1 : (h.take n d p).2.size x = ((h.setSize p (h.size p - n)).setSize q n).size x := by
        rw [htake]
        exact RtapiHeap.size_setAttr _ _
      rw [h1, RtapiHeap.size_setSize _ (by omega), RtapiHeap.size_setSize _ (by omega)]
      by_cases hxp : x = p
      · rw [if_pos hxp, if_pos hxp, if_neg (hxp ▸ hqp.symm)]
      · rw [if_neg hxp, if_neg hxp]
    refine ⟨lo ++ p :: hi, by rw [htake], ?_, by rw [hsize, if_neg hqp, if_pos rfl], ?_, ?_,
      htop⟩
    · exact hC.cut hA hn (by omega) hnext hsize (by rw [htake]; exact hd)
    · simp [htake, RtapiHeap.setAttr, RtapiHeap.write]
    · exact fun x hx => hmem x (hC.live_ne hA hx hpfs (hC.self_mem hpall))
        (hC.live_ne hA hx hpfs hq)

/-- The free list entered at `free_p`. -/
lemma rotate (hC : Chunks h fs ls arena) (hA : Arenas arena) : ∃ ys,
    Path h.next h.freeP ys h.freeP ∧ (h.freeP :: ys).Perm (0 :: fs) ∧ ys.length < heapFuel := by
  obtain ⟨ys, hring, hperm⟩ := hC.ring.rotate hC.freeP
  have h1 := hperm.length_eq
  have h2 := hC.length_le
  have h3 := hA.length_le
  rw [List.length_cons, List.length_cons] at h1
  exact ⟨ys, hring, hperm, by rw [heapFuel]; omega⟩

/-- The search for a chunk ends, behind all chunks that are too small. -/
lemma findFit (hC : Chunks h fs ls arena) (hA : Arenas arena) (n : ℕ) : ∃ d ∈ 0 :: fs,
    h.findFit n = some d ∧ (n ≤ h.size (h.next d) → ∃ ys pre post,
      Path h.next h.freeP ys h.freeP ∧ (h.freeP ∉ ys ∧ ys.length < heapFuel) ∧
      ys ++ [h.freeP] = pre ++ h.next d :: post ∧ ∀ y ∈ pre, h.size y < n) ∧
    (h.size (h.next d) < n → ∀ c ∈ 0 :: fs, h.size c < n) := by
  obtain ⟨ys, hring, hperm, hlen⟩ := hC.rotate hA
  have hstop : ∃ x ∈ h.freeP :: ys,
      decide (n ≤ h.size (h.next x) ∨ h.next x = h.freeP) = true :=
    ⟨_, List.getLast_mem (List.cons_ne_nil _ _), decide_eq_true (.inr hring.last)⟩
  obtain ⟨pre, d, post, he, hseek, hd_stop, hpre⟩ := seek_path hring hstop hlen
  have hd : d ∈ h.freeP :: ys := he ▸ List.mem_append_right _ (.head _)
  have hsmall : ∀ x ∈ pre, h.size (h.next x) < n := by
    intro x hx
    have hno := hpre x hx
    rw [decide_eq_false_iff_not, not_or] at hno
    omega
  have hmap : ys ++ [h.freeP] = pre.map h.next ++ h.next d :: post.map h.next := by
    rw [← hring.map, he, List.map_append, List.map_cons]
  have hnd : (h.freeP :: ys).Nodup := hperm.nodup_iff.2 hC.nodup_ring
  refine ⟨d, hperm.mem_iff.1 hd, hseek, fun _ => ?_, fun hlt c hc => ?_⟩
  · refine ⟨ys, pre.map h.next, post.map h.next, hring, ⟨(List.nodup_cons.1 hnd).1, hlen⟩, hmap,
      fun y hy => ?_⟩
    obtain ⟨x, hx, rfl⟩ := List.mem_map.1 hy
    exact hsmall x hx
  · -- the search went all the way round
    have hback : h.next d = h.freeP := (of_decide_eq_true hd_stop).resolve_left (by omega)
    have hlast := hring.next_inj hnd hd (List.getLast_mem (List.cons_ne_nil _ _))
      (hback.trans hring.last.symm)
    have hpost : post = [] := by
      rcases List.eq_nil_or_concat post with hnil | ⟨post', z, hz⟩
      · exact hnil
      rw [List.concat_eq_append] at hz
      subst hz
      have hlast' : d = z := by
        rw [hlast, List.getLast_congr _ (by simp) he]
        simp
      rw [he] at hnd
      have hd' := (List.nodup_cons.1 (List.nodup_append.1 hnd).2.1).1
      exact absurd (by simp [hlast']) hd'
    rw [hpost] at hmap
    have hc' : c ∈ pre.map h.next ++ [h.next d] := by
      have hcys : c ∈ ys ++ [h.freeP] :=
        (List.perm_append_singleton _ ys).mem_iff.2 (hperm.mem_iff.2 hc)
      rwa [hmap] at hcys
    rcases List.mem_append.1 hc' with hc' | hc'
    · obtain ⟨x, hx, rfl⟩ := List.mem_map.1 hc'
      exact hsmall x hx
    · rwa [List.mem_singleton.1 hc']

end Chunks

end MachinekitHal
