import MachinekitHal.Basic
import MachinekitHal.Lib.Buffers

/-!
The Translation RAM of hostmot2: regions of the board that are copied to buffers.

* `Entry`, `Half`, `Hm2`: the regions that are registered, and the buffers.
* `Handed`: the places that are handed out, one behind the other.
* `Half.Allocated`, `Allocated`: what an allocation does to the regions and their bytes.
* `Run`: the calls in any order, while the buffers are used.
* `Fits`: the calls that allocate as they should.
* `allocated_iff`: the calls that fit do it, and no others.
-/

namespace MachinekitHal.Tram

/-- `hm2_tram_entry_t`. `buffer` is the pointer of the caller: a place in the buffer, in bytes. -/
structure Entry where
  addr : BitVec 16
  size : BitVec 16
  buffer : Option ℕ
  deriving DecidableEq

/-- The entries, the buffer and its size, for reading or for writing. -/
structure Half where
  entries : List Entry
  buffer : Option (List UInt8)
  size : BitVec 16
  deriving DecidableEq

/-- The part of `hostmot2_t` that is about the Translation RAM. -/
structure Hm2 where
  read : Half
  write : Half
  deriving DecidableEq

/-- Nothing is registered. -/
def Hm2.start : Hm2 := ⟨⟨[], none, 0⟩, ⟨[], none, 0⟩⟩

/-! ### Memory -/

/-- `krealloc`; the answer is null or the contents of new bytes. -/
def krealloc (answer : Option (ℕ → UInt8)) (buffer : Option (List UInt8)) (size : ℕ) :
    Option (List UInt8) :=
  answer.map fun junk =>
    (List.range size).map fun i => ((buffer.getD [])[i]?).getD (junk i)

/-- `memset(block + start, 0, n)`, in bytes, and the bytes that it writes outside. -/
def memset (start n : ℕ) (block : List UInt8) : List UInt8 × List ℕ :=
  (block.mapIdx fun i b => if start ≤ i ∧ i < start + n then 0 else b,
    (List.range' start n).filter fun i => block.length ≤ i)

/-! ### Registering -/

/-- An entry is added, if `kmalloc` gives one. -/
def Half.register (kmalloc : Bool) (addr size : BitVec 16) (h : Half) : ℤ × Half :=
  if kmalloc then (0, { h with entries := h.entries ++ [⟨addr, size, none⟩] })
  else (-Errno.ENOMEM.code, h)

def hm2RegisterTramReadRegion (kmalloc : Bool) (hm2 : Hm2) (addr size : BitVec 16) : ℤ × Hm2 :=
  let (r, read) := hm2.read.register kmalloc addr size
  (r, { hm2 with read := read })

def hm2RegisterTramWriteRegion (kmalloc : Bool) (hm2 : Hm2) (addr size : BitVec 16) : ℤ × Hm2 :=
  let (r, write) := hm2.write.register kmalloc addr size
  (r, { hm2 with write := write })

/-! ### Allocating -/

/-- The size is summed up; it has 16 bits. -/
def Half.sumSize (h : Half) : Half :=
  { h with size := h.entries.foldl (fun size e => size + e.size) 0 }

/-- The buffer is reallocated. The pointer is one to words, so that `buffer + old_size` is
`4 * old_size` bytes behind its start. -/
def Half.resize (answer : Option (ℕ → UInt8)) (oldSize : ℕ) (h : Half) :
    Option (List UInt8 × List ℕ) :=
  (krealloc answer h.buffer h.size.toNat).map fun block =>
    if oldSize < h.size.toNat then memset (4 * oldSize) (h.size.toNat - oldSize) block
    else (block, [])

/-- The places in the buffer; `offset` has 16 bits. -/
def hand : BitVec 16 → List Entry → List Entry
  | _, [] => []
  | offset, e :: rest => { e with buffer := some offset.toNat } :: hand (offset + e.size) rest

/-- The result, and the places outside of the buffers that are written. -/
structure Outcome where
  ret : ℤ
  hm2 : Hm2
  outside : List ℕ

/-- `hm2_allocate_tram_regions`. The arguments are the answers of `krealloc`. -/
def hm2AllocateTramRegions (answerRead answerWrite : Option (ℕ → UInt8)) (hm2 : Hm2) : Outcome :=
  let read := hm2.read.sumSize
  let write := hm2.write.sumSize
  match read.resize answerRead hm2.read.size.toNat with
  | none => ⟨-Errno.ENOMEM.code, ⟨{ read with buffer := none }, write⟩, []⟩
  | some (readBuffer, outside) =>
    let read := { read with buffer := some readBuffer }
    match write.resize answerWrite hm2.write.size.toNat with
    | none => ⟨-Errno.ENOMEM.code, ⟨read, { write with buffer := none }⟩, outside⟩
    | some (writeBuffer, outside') =>
      ⟨0, ⟨{ read with entries := hand 0 read.entries },
        { write with entries := hand 0 write.entries, buffer := some writeBuffer }⟩,
        outside ++ outside'⟩

/-! ### What the steps do -/

section Steps

variable {h : Half} {buffer : Option (List UInt8)} {block : List UInt8} {start n old size : ℕ}
  {junk : ℕ → UInt8}

lemma krealloc_length (h : krealloc (some junk) buffer size = some block) :
    block.length = size := by
  cases h
  rw [List.length_map, List.length_range]

/-- A buffer of the same size keeps its bytes. -/
lemma krealloc_same (junk : ℕ → UInt8) (buffer : Option (List UInt8)) :
    krealloc (some junk) buffer (buffer.getD []).length = some (buffer.getD []) := by
  refine congrArg some (List.ext_getElem (by simp) fun i hi _ => ?_)
  rw [List.length_map, List.length_range] at hi
  simp [hi]

@[simp] lemma memset_length (start n : ℕ) (block : List UInt8) :
    (memset start n block).1.length = block.length := by
  simp [memset]

lemma memset_all (block : List UInt8) :
    memset 0 block.length block = (List.replicate block.length 0, []) := by
  refine Prod.ext (List.ext_getElem (by simp [memset]) fun i hi _ => ?_) ?_
  · rw [memset_length] at hi
    simp [memset, hi]
  · rw [memset, List.filter_eq_nil_iff]
    intro i hi
    rw [List.mem_range'_1] at hi
    simpa using hi.2

/-- Behind the old bytes, counted as words, there is no room for the new ones. -/
lemma memset_outside (hold : 0 < old) (hlt : old < block.length) :
    (memset (4 * old) (block.length - old) block).2 ≠ [] := by
  have hmem : 4 * old + (block.length - old) - 1
      ∈ (memset (4 * old) (block.length - old) block).2 := by
    rw [memset, List.mem_filter, List.mem_range'_1, decide_eq_true_eq]
    omega
  exact List.ne_nil_of_mem hmem

lemma resize_eq (answer : Option (ℕ → UInt8)) (h : Half) :
    h.resize answer old = (krealloc answer h.buffer h.size.toNat).map fun block =>
      if old < h.size.toNat then memset (4 * old) (h.size.toNat - old) block else (block, []) := rfl

end Steps

end MachinekitHal.Tram

namespace MachinekitHal.Tram

open Buffers

/-- The bytes of some entries. -/
def total (entries : List Entry) : ℕ := (entries.map fun e => e.size.toNat).sum

/-- The entries have places one behind the other, from `p` on. -/
def Handed : ℕ → List Entry → Prop
  | _, [] => True
  | p, e :: rest => e.buffer = some p ∧ Handed (p + e.size.toNat) rest

/-- The bytes of a region, if it is inside the buffer. -/
def Half.region (h : Half) (e : Entry) : Option (List UInt8) := do
  readAt (← h.buffer) (← e.buffer) e.size.toNat

/-- A region before and behind an allocation: it keeps its bytes, or is new and cleared. -/
structure SameRegion (h h' : Half) (e e' : Entry) : Prop where
  addr : e'.addr = e.addr
  size : e'.size = e.size
  bytes : h'.region e' =
    if e.buffer.isSome then h.region e else some (List.replicate e.size.toNat 0)
  inside : (h'.region e').isSome

/-- The buffer has the summed size, the regions lie in it, disjoint and consecutive, and have the
bytes that they should have. -/
structure Half.Allocated (h h' : Half) : Prop where
  whole : ∃ block, h'.buffer = some block ∧ block.length = total h.entries
  consecutive : Handed 0 h'.entries
  disjoint : h'.entries.Pairwise fun e f =>
    ∀ p ∈ e.buffer, ∀ q ∈ f.buffer, p + e.size.toNat ≤ q
  regions : List.Forall₂ (SameRegion h h') h.entries h'.entries

/-- The claims of an allocation. -/
structure Allocated (hm2 : Hm2) (o : Outcome) : Prop where
  ret : o.ret = 0
  inside : o.outside = []
  read : hm2.read.Allocated o.hm2.read
  write : hm2.write.Allocated o.hm2.write

/-- The buffers are used: their bytes change. -/
structure Half.Used (h h' : Half) : Prop where
  entries : h'.entries = h.entries
  size : h'.size = h.size
  buffer : h'.buffer.map List.length = h.buffer.map List.length

/-- The runs. `ok` holds before each allocation. -/
inductive Run (ok : Hm2 → Option (ℕ → UInt8) → Option (ℕ → UInt8) → Prop) : Hm2 → Prop
  | start : Run ok Hm2.start
  | registerRead {hm2 : Hm2} (run : Run ok hm2) (kmalloc : Bool) (addr size : BitVec 16) :
      Run ok (hm2RegisterTramReadRegion kmalloc hm2 addr size).2
  | registerWrite {hm2 : Hm2} (run : Run ok hm2) (kmalloc : Bool) (addr size : BitVec 16) :
      Run ok (hm2RegisterTramWriteRegion kmalloc hm2 addr size).2
  | use {hm2 hm2' : Hm2} (run : Run ok hm2) (hread : hm2.read.Used hm2'.read)
      (hwrite : hm2.write.Used hm2'.write) : Run ok hm2'
  | allocate {hm2 : Hm2} (run : Run ok hm2) (answerRead answerWrite : Option (ℕ → UInt8))
      (hok : ok hm2 answerRead answerWrite) :
      Run ok (hm2AllocateTramRegions answerRead answerWrite hm2).hm2

/-- The sizes fit in 16 bits, and there were no bytes before or there are no new ones. -/
def Half.Fits (h : Half) : Prop :=
  total h.entries < 2 ^ 16 ∧ (h.size = 0 ∨ total h.entries ≤ h.size.toNat)

instance (h : Half) : Decidable h.Fits := inferInstanceAs (Decidable (_ ∧ _))

/-- The same for both directions, and there is memory. -/
def Fits (hm2 : Hm2) (answerRead answerWrite : Option (ℕ → UInt8)) : Prop :=
  hm2.read.Fits ∧ hm2.write.Fits ∧ answerRead.isSome ∧ answerWrite.isSome

instance (hm2 : Hm2) (answerRead answerWrite : Option (ℕ → UInt8)) :
    Decidable (Fits hm2 answerRead answerWrite) := inferInstanceAs (Decidable (_ ∧ _))

/-! ### Places -/

section Places

variable {entries old new : List Entry} {p : ℕ} {offset : BitVec 16} {e : Entry}

@[simp] lemma total_nil : total [] = 0 := rfl

@[simp] lemma total_cons (e : Entry) (rest : List Entry) :
    total (e :: rest) = e.size.toNat + total rest := by
  simp [total]

@[simp] lemma total_append (l l' : List Entry) : total (l ++ l') = total l + total l' := by
  simp [total]

lemma zero_toNat : (0 : BitVec 16).toNat = 0 := rfl

lemma toNat_foldl (entries : List Entry) (size : BitVec 16) :
    (entries.foldl (fun size e => size + e.size) size).toNat
      = (size.toNat + total entries) % 2 ^ 16 := by
  induction entries generalizing size with
  | nil => rw [List.foldl_nil, total_nil, Nat.add_zero, Nat.mod_eq_of_lt size.isLt]
  | cons e rest ih =>
    rw [List.foldl_cons, ih, total_cons, BitVec.toNat_add, Nat.mod_add_mod, Nat.add_assoc]

/-- A place is between the first one and the end. -/
lemma Handed.place (h : Handed p entries) (he : e ∈ entries) :
    ∃ q, e.buffer = some q ∧ p ≤ q ∧ q + e.size.toNat ≤ p + total entries := by
  induction entries generalizing p with
  | nil => exact absurd he List.not_mem_nil
  | cons head rest ih =>
    obtain ⟨hhead, hrest⟩ := h
    rw [total_cons]
    rcases List.mem_cons.1 he with rfl | he
    · exact ⟨p, hhead, le_rfl, by omega⟩
    · obtain ⟨q, hq, hle, hend⟩ := ih hrest he
      exact ⟨q, hq, by omega, by omega⟩

/-- Consecutive places are disjoint. -/
lemma Handed.pairwise (h : Handed p entries) : entries.Pairwise fun e f =>
    ∀ p ∈ e.buffer, ∀ q ∈ f.buffer, p + e.size.toNat ≤ q := by
  induction entries generalizing p with
  | nil => exact .nil
  | cons head rest ih =>
    obtain ⟨hhead, hrest⟩ := h
    refine .cons (fun f hf q hq r hr => ?_) (ih hrest)
    obtain ⟨s, hs, hle, -⟩ := hrest.place hf
    obtain rfl : p = q := by simpa [hhead] using hq
    obtain rfl : s = r := by simpa [hs] using hr
    exact hle

lemma hand_append (offset : BitVec 16) (old new : List Entry) : hand offset (old ++ new)
    = hand offset old ++ hand (old.foldl (fun size e => size + e.size) offset) new := by
  induction old generalizing offset with
  | nil => rfl
  | cons e rest ih => rw [List.cons_append, hand, hand, ih, List.cons_append, List.foldl_cons]

/-- Without overflow the places are consecutive. -/
lemma handed_hand (h : offset.toNat + total entries < 2 ^ 16) :
    Handed offset.toNat (hand offset entries) := by
  induction entries generalizing offset with
  | nil => trivial
  | cons e rest ih =>
    rw [total_cons] at h
    have hadd : (offset + e.size).toNat = offset.toNat + e.size.toNat := by
      rw [BitVec.toNat_add, Nat.mod_eq_of_lt (by omega)]
    refine ⟨rfl, ?_⟩
    have hrest := @ih (offset + e.size) (by omega)
    rwa [hadd] at hrest

/-- Entries that have their places already. -/
lemma hand_of_handed (h : Handed offset.toNat entries)
    (hlt : offset.toNat + total entries < 2 ^ 16) : hand offset entries = entries := by
  induction entries generalizing offset with
  | nil => rfl
  | cons e rest ih =>
    obtain ⟨he, hrest⟩ := h
    rw [total_cons] at hlt
    have hadd : (offset + e.size).toNat = offset.toNat + e.size.toNat := by
      rw [BitVec.toNat_add, Nat.mod_eq_of_lt (by omega)]
    rw [hand, ← he, ih (by rwa [hadd]) (by omega)]

end Places

/-! ### Between the calls -/

/-- The entries of the last allocation have their places in the buffer, the others none. -/
structure Half.Clean (h : Half) (old new : List Entry) : Prop where
  entries : h.entries = old ++ new
  fresh : ∀ e ∈ new, e.buffer = none
  handed : Handed 0 old
  size : h.size.toNat = total old
  length : (h.buffer.getD []).length = total old
  empty : h.buffer = none → old = []

section Clean

variable {h h' : Half} {old new : List Entry} {junk : ℕ → UInt8} {offset : BitVec 16}
  {block : List UInt8} {k : ℕ}

lemma Half.Clean.register (hclean : h.Clean old new) (kmalloc : Bool) (addr size : BitVec 16) :
    ∃ new', (h.register kmalloc addr size).2.Clean old new' := by
  rw [Half.register]
  split_ifs
  · refine ⟨new ++ [⟨addr, size, none⟩], ?_, ?_, hclean.handed, hclean.size, hclean.length,
      hclean.empty⟩
    · rw [← List.append_assoc, ← hclean.entries]
    · rw [List.forall_mem_append]
      exact ⟨hclean.fresh, by simp⟩
  · exact ⟨new, hclean⟩

lemma Half.Clean.use (hclean : h.Clean old new) (hused : h.Used h') : h'.Clean old new := by
  have hlen : (h'.buffer.getD []).length = (h.buffer.getD []).length := by
    have hbuffer := hused.buffer
    cases hb : h.buffer <;> cases hb' : h'.buffer <;> simp_all
  refine ⟨hused.entries.trans hclean.entries, hclean.fresh, hclean.handed, ?_,
    hlen.trans hclean.length, fun hnone => hclean.empty ?_⟩
  · rw [hused.size, hclean.size]
  · have hbuffer := hused.buffer
    rw [hnone, Option.map_none] at hbuffer
    exact Option.map_eq_none_iff.1 hbuffer.symm

lemma sumSize_toNat (hfits : h.Fits) : h.sumSize.size.toNat = total h.entries := by
  rw [Half.sumSize]
  dsimp only
  rw [toNat_foldl, zero_toNat, Nat.zero_add, Nat.mod_eq_of_lt hfits.1]

/-- The buffer keeps its bytes, and the new ones are cleared. -/
lemma Half.Clean.resize (hclean : h.Clean old new) (hfits : h.Fits) (junk : ℕ → UInt8) :
    h.sumSize.resize (some junk) h.size.toNat
      = some (h.buffer.getD [] ++ List.replicate (total new) 0, []) := by
  have hsum := sumSize_toNat hfits
  have htotal : total h.entries = total old + total new := by
    rw [hclean.entries, total_append]
  have hbuffer : h.sumSize.buffer = h.buffer := rfl
  rw [resize_eq, hsum, hbuffer]
  rcases hfits.2 with hzero | hle
  · -- all bytes are new
    have hold : total old = 0 := by rw [← hclean.size, hzero, zero_toNat]
    have hempty : h.buffer.getD [] = [] := List.eq_nil_of_length_eq_zero (hclean.length.trans hold)
    obtain ⟨block, hblock⟩ : ∃ block, krealloc (some junk) h.buffer (total h.entries)
        = some block := ⟨_, rfl⟩
    have hlen := krealloc_length hblock
    rw [hblock, Option.map_some, hempty, List.nil_append, hzero, zero_toNat, Nat.mul_zero,
      Nat.sub_zero, show total new = block.length by omega, show total h.entries = block.length
        from hlen.symm, memset_all]
    split_ifs with hpos
    · rfl
    · obtain rfl := List.eq_nil_of_length_eq_zero (Nat.eq_zero_of_not_pos hpos)
      rfl
  · -- no bytes are new
    have hnew : total new = 0 := by
      rw [hclean.size] at hle
      omega
    rw [htotal, hnew, Nat.add_zero, ← hclean.length, krealloc_same, Option.map_some,
      List.replicate_zero, List.append_nil, hclean.length, ← hclean.size, if_neg (lt_irrefl _)]

lemma sameRegion_new (hblock : h'.buffer = some (block ++ List.replicate k 0))
    (hfresh : ∀ e ∈ new, e.buffer = none) (hle : block.length ≤ offset.toNat)
    (hend : offset.toNat + total new ≤ block.length + k) (hlt : block.length + k < 2 ^ 16) :
    List.Forall₂ (SameRegion h h') new (hand offset new) := by
  induction new generalizing offset with
  | nil => exact .nil
  | cons e rest ih =>
    rw [total_cons] at hend
    rw [List.forall_mem_cons] at hfresh
    have hadd : (offset + e.size).toNat = offset.toNat + e.size.toNat := by
      rw [BitVec.toNat_add, Nat.mod_eq_of_lt (by omega)]
    have hregion : h'.region { e with buffer := some offset.toNat }
        = some (List.replicate e.size.toNat 0) := by
      rw [Half.region, hblock]
      have hfit : offset.toNat + e.size.toNat ≤ block.length + k := by omega
      exact readAt_replicate hle hfit
    refine .cons ⟨rfl, rfl, ?_, ?_⟩ (ih hfresh.2 (by rw [hadd]; omega)
      (by rw [hadd]; omega))
    · rw [hregion, hfresh.1]
      rfl
    · rw [hregion]
      rfl

/-- Old regions keep their bytes. -/
lemma sameRegion_old (hclean : h.Clean old new)
    (hblock : h'.buffer = some (h.buffer.getD [] ++ List.replicate k 0)) :
    List.Forall₂ (SameRegion h h') old old := by
  rw [List.forall₂_same]
  intro e he
  obtain ⟨q, hq, -, hend⟩ := hclean.handed.place he
  obtain ⟨b, hb⟩ : ∃ b, h.buffer = some b := by
    refine Option.ne_none_iff_exists'.1 fun hnone => ?_
    rw [hclean.empty hnone] at he
    exact absurd he List.not_mem_nil
  have hlen := hclean.length
  rw [hb, Option.getD_some] at hlen hblock
  have hregion : h.region e = readAt b q e.size.toNat := by rw [Half.region, hb, hq]; rfl
  have hregion' : h'.region e = readAt b q e.size.toNat := by
    rw [Half.region, hblock, hq]
    exact readAt_left (by omega)
  refine ⟨rfl, rfl, ?_, ?_⟩
  · rw [hregion, hregion', hq]
    rfl
  · rw [hregion', readAt, if_pos (by omega)]
    rfl

/-- What becomes of the entries. -/
lemma Half.Clean.hand (hclean : h.Clean old new) (hlt : total h.entries < 2 ^ 16) :
    Tram.hand 0 h.entries
      = old ++ Tram.hand (old.foldl (fun size e => size + e.size) 0) new ∧
    (old.foldl (fun size e => size + e.size) (0 : BitVec 16)).toNat = total old := by
  rw [hclean.entries, total_append] at hlt
  rw [hclean.entries, hand_append]
  refine ⟨?_, ?_⟩
  · rw [@hand_of_handed old 0 hclean.handed (by rw [zero_toNat]; omega)]
  · rw [toNat_foldl, zero_toNat, Nat.zero_add, Nat.mod_eq_of_lt (by omega)]

/-- One direction of an allocation that fits. -/
lemma Half.Clean.allocated (hclean : h.Clean old new) (hfits : h.Fits)
    (hentries : h'.entries = Tram.hand 0 h.entries)
    (hblock : h'.buffer = some (h.buffer.getD [] ++ List.replicate (total new) 0)) :
    h.Allocated h' := by
  obtain ⟨hhand, hoffset⟩ := hclean.hand hfits.1
  have htotal : total h.entries = total old + total new := by
    rw [hclean.entries, total_append]
  have hhanded : Handed 0 h'.entries := by
    rw [hentries]
    exact @handed_hand h.entries 0 (by rw [zero_toNat, Nat.zero_add]; exact hfits.1)
  refine ⟨⟨_, hblock, ?_⟩, hhanded, hhanded.pairwise, ?_⟩
  · rw [List.length_append, List.length_replicate, hclean.length, htotal]
  · rw [hentries, hhand, hclean.entries]
    refine List.rel_append (sameRegion_old hclean hblock)
      (sameRegion_new hblock hclean.fresh ?_ ?_ ?_)
    · rw [hclean.length, hoffset]
    · rw [hclean.length, hoffset]
    · rw [hclean.length, ← htotal]
      exact hfits.1

end Clean

/-! ### Allocations -/

section Allocations

variable {hm2 : Hm2} {oldRead newRead oldWrite newWrite : List Entry}
  {answerRead answerWrite : Option (ℕ → UInt8)}
  {ok : Hm2 → Option (ℕ → UInt8) → Option (ℕ → UInt8) → Prop}

lemma allocate_fits (hread : hm2.read.Clean oldRead newRead)
    (hwrite : hm2.write.Clean oldWrite newWrite) (hfits : Fits hm2 answerRead answerWrite) :
    hm2AllocateTramRegions answerRead answerWrite hm2 =
      ⟨0, ⟨{ hm2.read.sumSize with
              entries := hand 0 hm2.read.entries
              buffer := some (hm2.read.buffer.getD [] ++ List.replicate (total newRead) 0) },
            { hm2.write.sumSize with
              entries := hand 0 hm2.write.entries
              buffer := some (hm2.write.buffer.getD [] ++ List.replicate (total newWrite) 0) }⟩,
        []⟩ := by
  obtain ⟨hfitsRead, hfitsWrite, hmem, hmem'⟩ := hfits
  obtain ⟨junk, rfl⟩ := Option.isSome_iff_exists.1 hmem
  obtain ⟨junk', rfl⟩ := Option.isSome_iff_exists.1 hmem'
  rw [hm2AllocateTramRegions]
  dsimp only
  rw [hread.resize hfitsRead, hwrite.resize hfitsWrite]
  rfl

/-- The state between two calls. -/
def Hm2.Clean (hm2 : Hm2) : Prop :=
  (∃ old new, hm2.read.Clean old new) ∧ ∃ old new, hm2.write.Clean old new

lemma total_congr {h h' : Half} {l l' : List Entry} (hl : List.Forall₂ (SameRegion h h') l l') :
    total l' = total l := by
  induction hl with
  | nil => rfl
  | cons hhead _ ih => rw [total_cons, total_cons, hhead.size, ih]

/-- Behind an allocation all entries have places. -/
lemma Half.Clean.next {h h' : Half} {old new : List Entry} (hclean : h.Clean old new)
    (hfits : h.Fits) (hentries : h'.entries = Tram.hand 0 h.entries)
    (hsize : h'.size = h.sumSize.size)
    (hblock : h'.buffer = some (h.buffer.getD [] ++ List.replicate (total new) 0)) :
    h'.Clean h'.entries [] := by
  obtain ⟨⟨block, hblock', hlen⟩, hhanded, -, hregions⟩ := hclean.allocated hfits hentries hblock
  have htotal := total_congr hregions
  refine ⟨(List.append_nil _).symm, by simp, hhanded, ?_, ?_, ?_⟩
  · rw [hsize, sumSize_toNat hfits, htotal]
  · rw [hblock', Option.getD_some, hlen, htotal]
  · intro hnone
    rw [hnone] at hblock
    exact absurd hblock (by simp)

/-- Between the calls of a run whose allocations fit. -/
lemma Run.clean (run : Run Fits hm2) : hm2.Clean := by
  induction run with
  | start => exact ⟨⟨[], [], rfl, by simp, trivial, rfl, rfl, fun _ => rfl⟩,
      [], [], rfl, by simp, trivial, rfl, rfl, fun _ => rfl⟩
  | registerRead _ kmalloc addr size ih =>
    obtain ⟨⟨old, new, hread⟩, hwrite⟩ := ih
    exact ⟨⟨old, hread.register kmalloc addr size⟩, hwrite⟩
  | registerWrite _ kmalloc addr size ih =>
    obtain ⟨hread, old, new, hwrite⟩ := ih
    exact ⟨hread, old, hwrite.register kmalloc addr size⟩
  | use _ hread hwrite ih =>
    obtain ⟨⟨old, new, hcread⟩, old', new', hcwrite⟩ := ih
    exact ⟨⟨old, new, hcread.use hread⟩, old', new', hcwrite.use hwrite⟩
  | allocate _ answerRead answerWrite hok ih =>
    obtain ⟨⟨old, new, hcread⟩, old', new', hcwrite⟩ := ih
    rw [allocate_fits hcread hcwrite hok]
    exact ⟨⟨_, _, hcread.next hok.1 rfl rfl rfl⟩, _, _, hcwrite.next hok.2.1 rfl rfl rfl⟩

/-- A buffer that is resized to the summed size, with nothing written outside, fits. -/
lemma fits_of_resize {h : Half} {junk : ℕ → UInt8} {buffer : List UInt8}
    (hresize : h.sumSize.resize (some junk) h.size.toNat = some (buffer, []))
    (hlen : buffer.length = total h.entries) : h.Fits := by
  obtain ⟨block, hblock⟩ : ∃ block,
      krealloc (some junk) h.sumSize.buffer h.sumSize.size.toNat = some block := ⟨_, rfl⟩
  have hblocklen := krealloc_length hblock
  have hsum : h.sumSize.size.toNat = total h.entries % 2 ^ 16 := by
    rw [Half.sumSize]
    dsimp only
    rw [toNat_foldl, zero_toNat, Nat.zero_add]
  rw [resize_eq, hblock, Option.map_some] at hresize
  split_ifs at hresize with hgrow
  · have hmemset := Option.some.inj hresize
    have hsize : buffer.length = h.sumSize.size.toNat := by
      rw [← hblocklen,
        ← memset_length (4 * h.size.toNat) (h.sumSize.size.toNat - h.size.toNat) block, hmemset]
    refine ⟨by omega, .inl ?_⟩
    -- the old bytes are counted as words
    by_contra hne
    have hpos : 0 < h.size.toNat := Nat.pos_of_ne_zero fun hzero =>
      hne (BitVec.eq_of_toNat_eq hzero)
    rw [← hblocklen] at hmemset hgrow
    exact memset_outside hpos hgrow (congrArg Prod.snd hmemset)
  · cases hresize
    exact ⟨by omega, .inr (by omega)⟩

lemma enomem_ne_zero : -(Errno.ENOMEM.code : ℤ) ≠ 0 := by decide

/-- The steps of a call that returns zero. -/
lemma allocate_ret (h : (hm2AllocateTramRegions answerRead answerWrite hm2).ret = 0) :
    ∃ readBlock outside writeBlock outside',
      hm2.read.sumSize.resize answerRead hm2.read.size.toNat = some (readBlock, outside) ∧
      hm2.write.sumSize.resize answerWrite hm2.write.size.toNat = some (writeBlock, outside') ∧
      (hm2AllocateTramRegions answerRead answerWrite hm2).outside = outside ++ outside' ∧
      (hm2AllocateTramRegions answerRead answerWrite hm2).hm2.read.buffer = some readBlock ∧
      (hm2AllocateTramRegions answerRead answerWrite hm2).hm2.write.buffer = some writeBlock := by
  rw [hm2AllocateTramRegions] at h ⊢
  dsimp only at h ⊢
  cases hread : hm2.read.sumSize.resize answerRead hm2.read.size.toNat with
  | none =>
    rw [hread] at h
    exact absurd h enomem_ne_zero
  | some readResult =>
    rw [hread] at h
    cases hwrite : hm2.write.sumSize.resize answerWrite hm2.write.size.toNat with
    | none =>
      rw [hwrite] at h
      exact absurd h enomem_ne_zero
    | some writeResult => exact ⟨_, _, _, _, rfl, rfl, rfl, rfl, rfl⟩

lemma resize_isSome {h : Half} {answer : Option (ℕ → UInt8)} {old : ℕ}
    {result : List UInt8 × List ℕ} (hresize : h.resize answer old = some result) :
    answer.isSome := by
  cases answer with
  | none => exact absurd hresize (by simp [resize_eq, krealloc])
  | some junk => rfl

/-- **The Translation RAM.** In a run whose allocations all fit, the next allocation hands out
disjoint, consecutive regions of a buffer of the summed size, keeps the bytes of the old regions,
clears the new ones and writes nothing outside, exactly if it fits as well: there is memory, the
sizes add up to less than `2^16`, and in each direction there were no bytes before or there are no
new ones. -/
theorem allocated_iff (hm2 : Hm2) (answerRead answerWrite : Option (ℕ → UInt8))
    (run : Run Fits hm2) : Allocated hm2 (hm2AllocateTramRegions answerRead answerWrite hm2) ↔
      Fits hm2 answerRead answerWrite := by
  obtain ⟨⟨old, new, hread⟩, old', new', hwrite⟩ := run.clean
  constructor
  · intro halloc
    obtain ⟨readBlock, outside, writeBlock, outside', hreadResize, hwriteResize, houtside,
      hreadBuffer, hwriteBuffer⟩ := allocate_ret halloc.ret
    obtain ⟨rfl, rfl⟩ := List.append_eq_nil_iff.1 (houtside.symm.trans halloc.inside)
    obtain ⟨block, hblock, hlen⟩ := halloc.read.whole
    obtain ⟨block', hblock', hlen'⟩ := halloc.write.whole
    obtain rfl : readBlock = block := Option.some.inj (hreadBuffer.symm.trans hblock)
    obtain rfl : writeBlock = block' := Option.some.inj (hwriteBuffer.symm.trans hblock')
    have hsome := resize_isSome hreadResize
    have hsome' := resize_isSome hwriteResize
    obtain ⟨junk, rfl⟩ := Option.isSome_iff_exists.1 hsome
    obtain ⟨junk', rfl⟩ := Option.isSome_iff_exists.1 hsome'
    exact ⟨fits_of_resize hreadResize hlen, fits_of_resize hwriteResize hlen', hsome, hsome'⟩
  · intro hfits
    rw [allocate_fits hread hwrite hfits]
    exact ⟨rfl, rfl, hread.allocated hfits.1 rfl rfl, hwrite.allocated hfits.2.1 rfl rfl⟩

end Allocations

/-! ### Allocating twice -/

/-- A region of four bytes is registered. -/
def oneRegion : Hm2 := (hm2RegisterTramReadRegion true .start 0x1000 4).2

/-- Memory with some bytes in it. -/
def someMemory : Option (ℕ → UInt8) := some fun _ => 0xa5

/-- The first allocation. -/
theorem allocated_iff_first :
    Allocated oneRegion (hm2AllocateTramRegions someMemory someMemory oneRegion) :=
  (allocated_iff oneRegion someMemory someMemory (.registerRead .start true 0x1000 4)).2 (by decide)

/-- Another region of four bytes is registered and allocated: the bytes from 16 on are cleared. -/
theorem allocated_twice : ¬ ∀ (hm2 : Hm2) (answerRead answerWrite : Option (ℕ → UInt8)),
    Run (fun _ answerRead answerWrite => answerRead.isSome ∧ answerWrite.isSome) hm2 →
    answerRead.isSome → answerWrite.isSome →
    Allocated hm2 (hm2AllocateTramRegions answerRead answerWrite hm2) := by
  intro h
  have halloc := h
    (hm2RegisterTramReadRegion true
      (hm2AllocateTramRegions someMemory someMemory oneRegion).hm2 0x1004 4).2
    someMemory someMemory
    (.registerRead (.allocate (.registerRead .start true 0x1000 4) someMemory someMemory
      ⟨rfl, rfl⟩) true 0x1004 4) rfl rfl
  exact absurd halloc.inside (by decide)

end MachinekitHal.Tram
