import MachinekitHal.Lib.Runs

/-!
`triple-buffer.h`: a triple buffer between one producer and one consumer.

The flags are one byte: a bit for new data and the indices of the dirty buffer, which the
producer writes to, of the clean one and of the snapshot of the consumer.

* `TbSys`, `TbAct`, `tbStep`: the atomic loads and compare-and-swaps of both sides, and the
  writes of the producer, in any order.
* `triple_buffer`: the indices are a permutation, no buffer is read while it is written to,
  snapshots have the data of the last flip and get newer.
-/

namespace MachinekitHal

open Runs

/-! ### Flags -/

/-- `rtapi_tb_init`: dirty is 0, clean is 1 and snap is 2. -/
def tbInit : BitVec 8 := 0x6

/-- `rtapi_tb_snap_idx`. -/
def tbSnapIdx (flags : BitVec 8) : BitVec 8 := flags &&& 0x3

/-- The clean buffer. -/
def tbCleanIdx (flags : BitVec 8) : BitVec 8 := (flags &&& 0xC) >>> 2

/-- `rtapi_tb_write_idx`: the dirty buffer. -/
def tbWriteIdx (flags : BitVec 8) : BitVec 8 := (flags &&& 0x30) >>> 4

/-- The flag of `rtapi_tb_snapshot`. -/
def tbNewData (flags : BitVec 8) : Bool := flags &&& 0x40 ≠ 0

/-- `newFlags` of `rtapi_tb_snapshot`. -/
def tbSnapshotFlags (flagsNow : BitVec 8) : BitVec 8 :=
  (flagsNow &&& 0x30) ||| ((flagsNow &&& 0x3) <<< 2) ||| ((flagsNow &&& 0xC) >>> 2)

/-- `newFlags` of `rtapi_tb_flip`. -/
def tbFlipFlags (flagsNow : BitVec 8) : BitVec 8 :=
  0x40 ||| ((flagsNow &&& 0xC) <<< 2) ||| ((flagsNow &&& 0x30) >>> 2) ||| (flagsNow &&& 0x3)

/-- The clean, the dirty and the snap index. -/
def tbIndices (flags : BitVec 8) : List (BitVec 8) :=
  [tbCleanIdx flags, tbWriteIdx flags, tbSnapIdx flags]

/-- A flip swaps clean and dirty, and there is new data. -/
lemma tb_flip (f : BitVec 8) : tbCleanIdx (tbFlipFlags f) = tbWriteIdx f ∧
    tbWriteIdx (tbFlipFlags f) = tbCleanIdx f ∧ tbSnapIdx (tbFlipFlags f) = tbSnapIdx f ∧
    tbNewData (tbFlipFlags f) = true := by
  revert f
  decide

/-- A snapshot swaps clean and snap, and there is no new data. -/
lemma tb_snapshot (f : BitVec 8) : tbCleanIdx (tbSnapshotFlags f) = tbSnapIdx f ∧
    tbWriteIdx (tbSnapshotFlags f) = tbWriteIdx f ∧ tbSnapIdx (tbSnapshotFlags f) = tbCleanIdx f ∧
    tbNewData (tbSnapshotFlags f) = false := by
  revert f
  decide

/-! ### Both sides -/

/-- The producer: outside of calls, with the index of the buffer it writes to once it has
retrieved it, or in `rtapi_tb_flip`, in front of the load or of the compare-and-swap. -/
inductive TbWriter where
  | out (wi : Option (BitVec 8))
  | flip (flagsNow : Option (BitVec 8))
  deriving DecidableEq

/-- The consumer: outside of calls, with the index of the buffer it reads from if it has
one, or in `rtapi_tb_snapshot` in front of the compare-and-swap. -/
inductive TbReader where
  | out (snap : Option (BitVec 8))
  | snapshot (snap : Option (BitVec 8)) (flagsNow : BitVec 8)
  deriving DecidableEq

variable {α : Type}

/-- The flags, the buffers and both sides. `flips` and `taken` are history: the data of the
completed flips, and for each successful snapshot the number of flips at its
compare-and-swap. -/
structure TbSys (α : Type) where
  flags : BitVec 8
  buf : BitVec 8 → α
  writer : TbWriter
  reader : TbReader
  flips : List α
  taken : List ℕ

/-- What both sides do. -/
inductive TbAct (α : Type) where
  | writeIdx | write (v : α) | flipCall | flipLoad | flipCas
  | snapLoad | snapCas | snapIdx

/-- One step. A compare-and-swap that fails leads back to the load in `rtapi_tb_flip`, but
not in `rtapi_tb_snapshot`. -/
def tbStep (s : TbSys α) : TbAct α → Option (TbSys α)
  | .writeIdx =>
    match s.writer with
    | .out _ => some { s with writer := .out (some (tbWriteIdx s.flags)) }
    | .flip _ => none
  | .write v =>
    match s.writer with
    | .out (some wi) => some { s with buf := Function.update s.buf wi v }
    | _ => none
  | .flipCall =>
    match s.writer with
    | .out _ => some { s with writer := .flip none }
    | .flip _ => none
  | .flipLoad =>
    match s.writer with
    | .flip none => some { s with writer := .flip (some s.flags) }
    | _ => none
  | .flipCas =>
    match s.writer with
    | .flip (some f) =>
      if s.flags = f then
        some { s with flags := tbFlipFlags f
                      writer := .out none
                      flips := s.flips ++ [s.buf (tbWriteIdx s.flags)] }
      else some { s with writer := .flip none }
    | _ => none
  | .snapLoad =>
    match s.reader with
    | .out snap =>
      -- no new data available
      if tbNewData s.flags = false then some s
      else some { s with reader := .snapshot snap s.flags }
    | .snapshot _ _ => none
  | .snapCas =>
    match s.reader with
    | .snapshot _ f =>
      if s.flags = f then
        some { s with flags := tbSnapshotFlags f
                      reader := .out none
                      taken := s.taken ++ [s.flips.length] }
      else some s
    | .out _ => none
  | .snapIdx =>
    match s.reader with
    | .out _ => some { s with reader := .out (some (tbSnapIdx s.flags)) }
    | .snapshot _ _ => none

/-- After `rtapi_tb_init`. -/
def TbSys.init (buf : BitVec 8 → α) : TbSys α := ⟨tbInit, buf, .out none, .out none, [], []⟩

/-! ### The invariant -/

/-- The index the consumer has, also during a call. -/
def TbReader.snap : TbReader → Option (BitVec 8)
  | .out snap => snap
  | .snapshot snap _ => snap

/-- What holds in every state. -/
structure TbInv (s : TbSys α) : Prop where
  perm : (tbIndices s.flags).Perm [0, 1, 2]
  /-- the indices that were retrieved are those in the flags -/
  writer : ∀ w, s.writer = .out (some w) → w = tbWriteIdx s.flags
  reader : ∀ i, s.reader.snap = some i → i = tbSnapIdx s.flags
  /-- a snapshot that got past its test has flags with new data -/
  tested : ∀ snap f, s.reader = .snapshot snap f → tbNewData f = true
  /-- new data is that of the last flip, and in no snapshot yet -/
  fresh : tbNewData s.flags = true →
    s.flips.getLast? = some (s.buf (tbCleanIdx s.flags)) ∧ ∀ k ∈ s.taken, k < s.flips.length
  /-- snapshots are of flips, ever later ones -/
  bound : ∀ k ∈ s.taken, 0 < k ∧ k ≤ s.flips.length
  sorted : s.taken.Pairwise (· < ·)
  /-- the buffer of the last snapshot has the data of its flip -/
  data : ∀ k, s.taken.getLast? = some k → s.flips[k - 1]? = some (s.buf (tbSnapIdx s.flags))

variable {s s' : TbSys α}

/-- The indices are different. -/
lemma TbInv.indices_ne (hI : TbInv s) : tbCleanIdx s.flags ≠ tbWriteIdx s.flags ∧
    tbCleanIdx s.flags ≠ tbSnapIdx s.flags ∧ tbWriteIdx s.flags ≠ tbSnapIdx s.flags := by
  have hnd : (tbIndices s.flags).Nodup := hI.perm.nodup_iff.2 (by decide)
  simpa [tbIndices, and_assoc] using hnd

/-- The index of the buffer to write to. -/
lemma TbInv.writeIdx (hI : TbInv s) :
    TbInv { s with writer := .out (some (tbWriteIdx s.flags)) } := by
  refine ⟨hI.perm, fun w hw => ?_, hI.reader, hI.tested, hI.fresh, hI.bound, hI.sorted, hI.data⟩
  exact (Option.some.inj (TbWriter.out.inj hw)).symm

/-- A write goes to the dirty buffer, where neither side looks. -/
lemma TbInv.write (hI : TbInv s) {w : BitVec 8} (hw : s.writer = .out (some w)) (v : α) :
    TbInv { s with buf := Function.update s.buf w v } := by
  obtain ⟨hcw, -, hws⟩ := hI.indices_ne
  rw [hI.writer w hw]
  refine ⟨hI.perm, hI.writer, hI.reader, hI.tested, ?_, hI.bound, hI.sorted, ?_⟩
  · simp only [Function.update_of_ne hcw]
    exact hI.fresh
  · simp only [Function.update_of_ne hws.symm]
    exact hI.data

/-- The start of a flip, its load and a failed compare-and-swap. -/
lemma TbInv.inFlip (hI : TbInv s) (flagsNow : Option (BitVec 8)) :
    TbInv { s with writer := .flip flagsNow } := by
  refine ⟨hI.perm, fun w hw => ?_, hI.reader, hI.tested, hI.fresh, hI.bound, hI.sorted, hI.data⟩
  cases hw

/-- A flip: what was written is the new data. -/
lemma TbInv.flip (hI : TbInv s) :
    TbInv { s with flags := tbFlipFlags s.flags
                   writer := .out none
                   flips := s.flips ++ [s.buf (tbWriteIdx s.flags)] } := by
  obtain ⟨hclean, hwrite, hsnap, hnew⟩ := tb_flip s.flags
  refine ⟨?_, fun w hw => ?_, ?_, hI.tested, fun _ => ⟨?_, fun k hk => ?_⟩, fun k hk => ?_,
    hI.sorted, fun k hk => ?_⟩
  · have hswap : (tbIndices (tbFlipFlags s.flags)).Perm (tbIndices s.flags) := by
      rw [tbIndices, tbIndices, hclean, hwrite, hsnap]
      exact List.Perm.swap _ _ _
    exact hswap.trans hI.perm
  · cases hw
  · rw [hsnap]
    exact hI.reader
  · rw [hclean]
    exact List.getLast?_concat
  · have hle := (hI.bound k hk).2
    rw [List.length_append, List.length_singleton]
    omega
  · obtain ⟨hpos, hle⟩ := hI.bound k hk
    rw [List.length_append]
    exact ⟨hpos, by omega⟩
  · have hmem : k ∈ s.taken := List.mem_of_getLast? hk
    obtain ⟨hpos, hle⟩ := hI.bound k hmem
    rw [hsnap, List.getElem?_append_left (by omega)]
    exact hI.data k hk

/-- The load of a snapshot that finds new data. -/
lemma TbInv.snapLoad (hI : TbInv s) {snap : Option (BitVec 8)} (hr : s.reader = .out snap)
    (hnew : tbNewData s.flags = true) : TbInv { s with reader := .snapshot snap s.flags } := by
  refine ⟨hI.perm, hI.writer, fun i hi => hI.reader i ?_, fun snap' f hf => ?_, hI.fresh, hI.bound,
    hI.sorted, hI.data⟩
  · rw [hr]
    exact hi
  · obtain ⟨-, rfl⟩ := TbReader.snapshot.inj hf
    exact hnew

/-- A snapshot: the consumer has the data of the last flip. -/
lemma TbInv.snapshot (hI : TbInv s) (hnew : tbNewData s.flags = true) :
    TbInv { s with flags := tbSnapshotFlags s.flags
                   reader := .out none
                   taken := s.taken ++ [s.flips.length] } ∧
      s.flips.getLast? = some (s.buf (tbSnapIdx (tbSnapshotFlags s.flags))) := by
  obtain ⟨hclean, hwrite, hsnap, hold⟩ := tb_snapshot s.flags
  obtain ⟨hlast, hlater⟩ := hI.fresh hnew
  have hpos : 0 < s.flips.length := by
    rw [List.length_pos_iff_ne_nil]
    rintro hnil
    rw [hnil] at hlast
    cases hlast
  refine ⟨⟨?_, ?_, fun i hi => ?_, fun snap f hf => ?_, fun hn => ?_, fun k hk => ?_, ?_,
    fun k hk => ?_⟩, by rw [hsnap]; exact hlast⟩
  · have hswap : (tbIndices (tbSnapshotFlags s.flags)).Perm (tbIndices s.flags) := by
      rw [tbIndices, tbIndices, hclean, hwrite, hsnap]
      exact List.reverse_perm [tbCleanIdx s.flags, tbWriteIdx s.flags, tbSnapIdx s.flags]
    exact hswap.trans hI.perm
  · rw [hwrite]
    exact hI.writer
  · cases hi
  · cases hf
  · rw [hold] at hn
    cases hn
  · rcases List.mem_append.1 hk with hk | hk
    · exact hI.bound k hk
    · obtain rfl := List.mem_singleton.1 hk
      exact ⟨hpos, le_refl _⟩
  · refine List.pairwise_append.2 ⟨hI.sorted, List.pairwise_singleton _ _, fun k hk j hj => ?_⟩
    obtain rfl := List.mem_singleton.1 hj
    exact hlater k hk
  · rw [List.getLast?_concat] at hk
    cases hk
    rw [hsnap, ← List.getLast?_eq_getElem?]
    exact hlast

/-- The index of the buffer to read from. -/
lemma TbInv.snapIdx (hI : TbInv s) :
    TbInv { s with reader := .out (some (tbSnapIdx s.flags)) } := by
  refine ⟨hI.perm, hI.writer, fun i hi => ?_, fun snap f hf => ?_, hI.fresh, hI.bound, hI.sorted,
    hI.data⟩
  · exact (Option.some.inj hi).symm
  · cases hf

/-- Every step keeps the invariant. -/
lemma TbInv.step (hI : TbInv s) {a : TbAct α} (hs : tbStep s a = some s') : TbInv s' := by
  cases a with
  | writeIdx =>
    rw [tbStep] at hs
    split at hs
    · cases hs
      exact hI.writeIdx
    · cases hs
  | write v =>
    rw [tbStep] at hs
    split at hs
    · next w hw =>
        cases hs
        exact hI.write hw v
    · cases hs
  | flipCall =>
    rw [tbStep] at hs
    split at hs
    · cases hs
      exact hI.inFlip none
    · cases hs
  | flipLoad =>
    rw [tbStep] at hs
    split at hs
    · cases hs
      exact hI.inFlip _
    · cases hs
  | flipCas =>
    rw [tbStep] at hs
    split at hs
    · next f hw =>
        split at hs
        · next hf =>
            cases hs
            subst hf
            exact hI.flip
        · cases hs
          exact hI.inFlip none
    · cases hs
  | snapLoad =>
    rw [tbStep] at hs
    split at hs
    · next snap hr =>
        split at hs
        · cases hs
          exact hI
        · next hnew =>
            cases hs
            exact hI.snapLoad hr (Bool.eq_true_of_not_eq_false hnew)
    · cases hs
  | snapCas =>
    rw [tbStep] at hs
    split at hs
    · next snap f hr =>
        split at hs
        · next hf =>
            cases hs
            subst hf
            exact (hI.snapshot (hI.tested snap _ hr)).1
        · cases hs
          exact hI
    · cases hs
  | snapIdx =>
    rw [tbStep] at hs
    split at hs
    · cases hs
      exact hI.snapIdx
    · cases hs

/-- There are no flips and no snapshots yet. -/
lemma TbInv.init (buf : BitVec 8 → α) : TbInv (TbSys.init buf) := by
  have hperm : (tbIndices tbInit).Perm [0, 1, 2] := by decide
  have hnone : tbNewData tbInit = false := by decide
  refine ⟨hperm, fun w hw => ?_, fun i hi => ?_, fun snap f hf => ?_, fun hn => ?_,
    fun k hk => ?_, List.Pairwise.nil, fun k hk => ?_⟩
  · cases hw
  · cases hi
  · cases hf
  · rw [show (TbSys.init buf).flags = tbInit from rfl, hnone] at hn
    cases hn
  · cases hk
  · cases hk

/-! ### The result -/

/-- **Triple buffer.** In every state reached the indices are a permutation, the consumer
does not read from the buffer that the producer writes to, what it reads since its last
snapshot is the data of the flip it took, and its snapshots are of ever later flips. A
compare-and-swap of `rtapi_tb_snapshot` that succeeds takes the last flip completed then. -/
theorem triple_buffer {buf : BitVec 8 → α}
    (hs : Reach tbStep (fun _ _ => True) (TbSys.init buf) s) :
    (tbIndices s.flags).Perm [0, 1, 2] ∧
    (∀ w i, s.writer = .out (some w) → s.reader = .out (some i) → w ≠ i) ∧
    (∀ i k, s.reader = .out (some i) → s.taken.getLast? = some k →
      s.flips[k - 1]? = some (s.buf i)) ∧
    s.taken.Pairwise (· < ·) ∧
    ∀ s', tbStep s .snapCas = some s' → s' ≠ s →
      s'.taken = s.taken ++ [s.flips.length] ∧
      s.flips.getLast? = some (s'.buf (tbSnapIdx s'.flags)) := by
  have hI : TbInv s := hs.invariant (P := TbInv) (.init buf) fun hI _ hs => hI.step hs
  refine ⟨hI.perm, fun w i hw hi => ?_, fun i k hi hk => ?_, hI.sorted, fun s' hs' hne => ?_⟩
  · obtain ⟨-, -, hws⟩ := hI.indices_ne
    rw [hI.writer w hw, hI.reader i (by rw [hi]; rfl)]
    exact hws
  · rw [hI.reader i (by rw [hi]; rfl)]
    exact hI.data k hk
  · rw [tbStep] at hs'
    split at hs'
    · next snap f hr =>
        split at hs'
        · next hf =>
            cases hs'
            subst hf
            exact ⟨rfl, (hI.snapshot (hI.tested snap _ hr)).2⟩
        · exact absurd (Option.some.inj hs').symm hne
    · cases hs'

/-- A flip, and another one between the load and the compare-and-swap of a snapshot, which
fails until a third flip has made the flags the same again. -/
def tbFlipsInSnapshot : List (TbAct ℕ) :=
  [.writeIdx, .write 7, .flipCall, .flipLoad, .flipCas, .snapLoad, .writeIdx, .write 8,
    .flipCall, .flipLoad, .flipCas, .snapCas, .writeIdx, .write 9, .flipCall, .flipLoad,
    .flipCas, .snapCas, .snapIdx, .writeIdx]

/-- The snapshot has the last flip. -/
theorem triple_buffer_flipsInSnapshot : ∃ s : TbSys ℕ, s.flips = [7, 8, 9] ∧ s.taken = [3] ∧
    ∃ i w, s.reader = .out (some i) ∧ s.writer = .out (some w) ∧ w ≠ i ∧
      s.flips[2]? = some (s.buf i) := by
  have hv : (run tbStep (fun _ _ => true) (TbSys.init fun _ => 0) tbFlipsInSnapshot).map
      (fun s => (s.flips, s.taken, s.reader, s.writer))
      = some ([7, 8, 9], [3], .out (some 0), .out (some 1)) := by decide
  obtain ⟨s, -, he, hreach⟩ := run_map hv
  obtain ⟨hflips, htaken, hr, hw⟩ : s.flips = [7, 8, 9] ∧ s.taken = [3] ∧
      s.reader = .out (some 0) ∧ s.writer = .out (some 1) := by
    simpa only [Prod.mk.injEq] using he
  obtain ⟨-, hne, hdata, -, -⟩ :=
    triple_buffer (hreach.mono fun _ => trivial)
  exact ⟨s, hflips, htaken, 0, 1, hr, hw, hne 1 0 hw hr, hdata 0 3 hr (by rw [htaken]; rfl)⟩

end MachinekitHal
