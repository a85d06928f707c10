import MachinekitHal.Components.Sampler

/-!
What the sampler delivers.

* `Holds`: an entry of the FIFO holds a sample. `storeRecord_holds`, `storeRecord_apart`: what
  `sample` stores.
* `Whole`, `Right`: the records that were printed are samples, each the whole of one, in order,
  and no sample is lost that was not discarded.
* `Pass`, `ReaderAt`, `Inv`: the invariant: the entry of the `k`-th sample is `k % depth`, and what
  the read loop knows of the entry it reads.
* `sampler_right`: every run whose steps are safe is right. The positions stay in range in any run.
-/

namespace MachinekitHal.Sampler

open Runs Turns

/-! ### Records -/

/-- A cell of the record of the `k`-th sample. -/
def CellOf (type : ℕ → HalType) (numPins k : ℕ) (values : ℕ → ShmemData) (i : ℕ)
    (cell : ShmemData) : Prop :=
  if i < numPins then member (type i) cell = pinValue (type i) (values i)
  else member .u32 cell = (BitVec.ofNat 32 k).setWidth 64

/-- The entry of the `k`-th sample holds it. -/
def Holds (fifo : Fifo) (k : ℕ) (values : ℕ → ShmemData) : Prop :=
  ∀ i ≤ fifo.numPins, CellOf fifo.type fifo.numPins k values i
    (fifo.data (k % fifo.depth * (fifo.numPins + 1) + i))

lemma pinValue_and_mask (type : HalType) (pin : ShmemData) :
    pinValue type pin &&& mask type = pinValue type pin := by
  cases type with
  | bit =>
    rw [pinValue]
    split_ifs <;> rfl
  | float | u32 | s32 => rw [pinValue, BitVec.and_assoc, BitVec.and_self]

/-- A value of a pin is printed as it is. -/
lemma pinValue_pinValue (type : HalType) (pin : ShmemData) :
    pinValue type (pinValue type pin) = pinValue type pin := by
  cases type with
  | bit =>
    rw [pinValue, pinValue_and_mask]
    rw [pinValue]
    split_ifs with hset hzero hzero
    · rfl
    · exact absurd (by decide : (1 : ShmemData) ≠ 0) hzero
    · exact absurd rfl hzero
    · rfl
  | float | u32 | s32 => exact pinValue_and_mask _ pin

/-- A value that is assigned reads back. -/
lemma member_assign (type : HalType) (old pin : ShmemData) :
    member type (assign type old (pinValue type pin)) = pinValue type pin := by
  have hread : assign type old (pinValue type pin) &&& mask type = pinValue type pin := by
    rw [assign, Word.store_and_mask, pinValue_and_mask]
  have hagain := pinValue_pinValue type pin
  cases type with
  | bit =>
    rw [member, pinValue, hread]
    rw [pinValue, pinValue_and_mask] at hagain
    exact hagain
  | float | u32 | s32 => exact hread

/-- The number of a sample is printed as it is. -/
lemma pinValue_number (num : BitVec 32) :
    pinValue .u32 (num.setWidth 64) = num.setWidth 64 := by
  have hmask : (mask .u32).toNat = 2 ^ 32 - 1 := rfl
  have hlt := num.isLt
  refine BitVec.eq_of_toNat_eq ?_
  rw [pinValue, BitVec.toNat_and, hmask, Nat.and_two_pow_sub_one_eq_mod, BitVec.toNat_setWidth]
  omega

variable {type : ℕ → HalType} {pins : ℕ → ShmemData} {dptr x : ℕ}

/-- Only the cells of the pins are stored to. -/
lemma copyPins_outside : ∀ (n : ℕ) (data : ℕ → ShmemData), x < dptr ∨ dptr + n ≤ x →
    copyPins type pins dptr n data x = data x
  | 0, _, _ => rfl
  | n + 1, data, hx => by
      rw [copyPins, Function.update_of_ne (by omega), copyPins_outside n data (by omega)]

lemma copyPins_inside {i : ℕ} : ∀ (n : ℕ) (data : ℕ → ShmemData), i < n →
    member (type i) (copyPins type pins dptr n data (dptr + i)) = pinValue (type i) (pins i)
  | 0, _, hi => absurd hi (Nat.not_lt_zero _)
  | n + 1, data, hi => by
      rw [copyPins]
      rcases Nat.lt_or_ge i n with hlt | hge
      · rw [Function.update_of_ne (by omega), copyPins_inside n data hlt]
      · obtain rfl : i = n := by omega
        rw [Function.update_self, member_assign]

/-- The record that `sample` stores. -/
lemma storeRecord_holds {fifo : Fifo} {values : ℕ → ShmemData} {k : ℕ} (num : BitVec 32)
    (hpos : fifo.inPos = k % fifo.depth) (hnum : num = BitVec.ofNat 32 k) :
    Holds { fifo with data := storeRecord fifo values num } k values := by
  intro i hi
  change i ≤ fifo.numPins at hi
  show CellOf fifo.type fifo.numPins k values i
    (storeRecord fifo values num (k % fifo.depth * (fifo.numPins + 1) + i))
  rw [CellOf, storeRecord, ← hpos]
  rcases Nat.lt_or_ge i fifo.numPins with hlt | hge
  · rw [if_pos hlt, Function.update_of_ne (by omega), copyPins_inside _ _ hlt]
  · obtain rfl : i = fifo.numPins := by omega
    have hword := pinValue_number num
    rw [if_neg (Nat.lt_irrefl _), Function.update_self, ← hword, member_assign, hword, hnum]

/-- The other entries keep their cells. -/
lemma storeRecord_apart {fifo : Fifo} {values : ℕ → ShmemData} {num : BitVec 32} {k i : ℕ}
    (hne : k % fifo.depth ≠ fifo.inPos) (hin : fifo.inPos < fifo.depth) (hi : i ≤ fifo.numPins) :
    storeRecord fifo values num (k % fifo.depth * (fifo.numPins + 1) + i)
      = fifo.data (k % fifo.depth * (fifo.numPins + 1) + i) := by
  have hapart : k % fifo.depth * (fifo.numPins + 1) + (fifo.numPins + 1)
        ≤ fifo.inPos * (fifo.numPins + 1) ∨
      fifo.inPos * (fifo.numPins + 1) + (fifo.numPins + 1)
        ≤ k % fifo.depth * (fifo.numPins + 1) := by
    have hmod : fifo.inPos % fifo.depth = fifo.inPos := Nat.mod_eq_of_lt hin
    rw [← hmod] at hne ⊢
    exact entries_apart hne
  rw [storeRecord]
  rw [Function.update_of_ne (by omega), copyPins_outside _ _ (by omega)]

/-! ### What is delivered -/

/-- The printed record is the whole `k`-th sample. -/
def Whole (fifo : Fifo) (stored : List (ℕ → ShmemData)) (rec : Delivered) (k : ℕ) : Prop :=
  ∃ values, stored[k]? = some values ∧ rec.number = k % 2 ^ 32 ∧
    rec.values = (List.range fifo.numPins).map fun n => pinValue (fifo.type n) (values n)

/-- The records are samples in the order in which they were stored, and every sample was
delivered, or discarded by `sample` and counted, or is one of those in the FIFO. -/
structure Right (s : SamplerSys) : Prop where
  delivered : ∃ ks : List ℕ, ks.Pairwise (· < ·) ∧
    List.Forall₂ (Whole s.fifo s.stored) s.delivered ks ∧
    ∀ k < s.stored.length, k ∈ ks ∨ k ∈ s.discarded ∨ s.stored.length ≤ k + s.held
  increasing : s.delivered.Pairwise fun r r' => r.number < r'.number
  overruns : s.pins.overruns = BitVec.ofNat 32 s.discarded.length

/-- The positions and the index of the data are in range. -/
structure InRange (s : SamplerSys) : Prop where
  inPos : s.fifo.inPos < s.fifo.depth
  outPos : s.fifo.outPos < s.fifo.depth
  index : ∀ (tmpout : ℕ) (buf : List ShmemData), s.reader = .loadData tmpout buf →
    tmpout * (s.fifo.numPins + 1) + buf.length < s.fifo.depth * (s.fifo.numPins + 1)

/-! ### The invariant -/

/-- What the read loop knows of the record it reads: its entry was the oldest one when `out` was
read, and each cell is of the sample that was in the entry at some time since the first cell. -/
structure Pass (s : SamplerSys) (ks : List ℕ) (oldest tmpout : ℕ) (buf : List ShmemData) :
    Prop where
  nonempty : oldest < s.stored.length
  entry : ∃ k ≤ oldest, k % s.fifo.depth = tmpout ∧ (∀ d ∈ ks, d < k) ∧ (buf ≠ [] → k < s.first)
  times : buf ≠ [] → s.first ≤ s.last ∧ s.last ≤ s.stored.length ∧
    s.first < oldest + s.fifo.depth
  cells : ∀ (i : ℕ) (cell : ShmemData), buf[i]? = some cell → ∃ (a k : ℕ) (values : ℕ → ShmemData),
    s.first ≤ a ∧ a ≤ s.last ∧ Latest s.fifo.depth tmpout a k ∧ s.stored[k]? = some values ∧
    CellOf s.fifo.type s.fifo.numPins k values i cell

/-- What holds at each access of the read loop. -/
inductive ReaderAt (s : SamplerSys) (ks : List ℕ) (oldest : ℕ) : Reader → Prop where
  | testIn : ReaderAt s ks oldest .testIn
  | testOut {tmpin : ℕ} (empty : oldest = s.stored.length → tmpin = s.fifo.inPos) :
      ReaderAt s ks oldest (.testOut tmpin)
  | loadOut (nonempty : oldest < s.stored.length) : ReaderAt s ks oldest .loadOut
  | loadData {tmpout : ℕ} {buf : List ShmemData} (pass : Pass s ks oldest tmpout buf)
      (length : buf.length ≤ s.fifo.numPins) : ReaderAt s ks oldest (.loadData tmpout buf)
  | check {tmpout : ℕ} {buf : List ShmemData} (pass : Pass s ks oldest tmpout buf)
      (length : buf.length = s.fifo.numPins + 1) : ReaderAt s ks oldest (.check tmpout buf)
  | storeOut {tmpout : ℕ} {buf : List ShmemData} (pass : Pass s ks oldest tmpout buf)
      (length : buf.length = s.fifo.numPins + 1) : ReaderAt s ks oldest (.storeOut tmpout buf)
  | done : ReaderAt s ks oldest .done

/-- The FIFO: it has the samples from `oldest` on. -/
structure Placed (s : SamplerSys) (oldest : ℕ) : Prop where
  depth : 2 ≤ s.fifo.depth
  inPos : s.fifo.inPos = s.stored.length % s.fifo.depth
  outPos : s.fifo.outPos = oldest % s.fifo.depth
  oldest_le : oldest ≤ s.stored.length
  lt_oldest : s.stored.length < oldest + s.fifo.depth
  holds : ∀ (k : ℕ) (values : ℕ → ShmemData), s.stored[k]? = some values →
    s.stored.length ≤ k + s.fifo.depth → Holds s.fifo k values
  sampleNum : s.pins.sampleNum = BitVec.ofNat 32 s.stored.length
  overruns : s.pins.overruns = BitVec.ofNat 32 s.discarded.length

/-- The samples: those in front of `oldest` are delivered or discarded. -/
structure Accounted (s : SamplerSys) (ks : List ℕ) (oldest : ℕ) : Prop where
  delivered : List.Forall₂ (Whole s.fifo s.stored) s.delivered ks
  increasing : ks.Pairwise (· < ·)
  behind : ∀ k ∈ ks, k < oldest
  accounted : ∀ k < oldest, k ∈ ks ∨ k ∈ s.discarded
  numbers : s.stored.length ≤ 2 ^ 32

/-- The invariant. -/
structure Inv (s : SamplerSys) (ks : List ℕ) (oldest : ℕ) : Prop where
  placed : Placed s oldest
  accounted : Accounted s ks oldest
  reader : ReaderAt s ks oldest s.reader

variable {s : SamplerSys} {ks : List ℕ} {oldest tmpout : ℕ} {buf : List ShmemData}

lemma Placed.pos (h : Placed s oldest) : 0 < s.fifo.depth := Nat.zero_lt_of_lt h.depth

lemma Placed.held (h : Placed s oldest) : s.held = s.stored.length - oldest := by
  rw [SamplerSys.held, h.inPos, h.outPos, held_mod h.oldest_le h.lt_oldest]

/-! ### Samples -/

/-- The FIFO is full if it has one sample less than entries. -/
lemma Placed.isFull (h : Placed s oldest) :
    s.fifo.isFull = true ↔ s.stored.length + 1 = oldest + s.fifo.depth := by
  have hle := h.oldest_le
  have hlt := h.lt_oldest
  rw [Fifo.isFull, decide_eq_true_iff, h.inPos, next_mod h.pos, h.outPos]
  constructor
  · intro heq
    by_contra hne
    exact mod_ne_of_lt (Nat.lt_succ_of_le hle) (by omega) heq.symm
  · intro heq
    rw [heq, Nat.add_mod_right]

/-- The oldest sample after a call of `sample`. -/
def oldestAfter (s : SamplerSys) (oldest : ℕ) : ℕ :=
  if s.fifo.isFull then oldest + 1 else oldest

/-- A sample is stored behind the others, or over the oldest one. -/
lemma Placed.sample (h : Placed s oldest) (values : ℕ → ShmemData) :
    Placed (s.sample true values) (oldestAfter s oldest) := by
  have hle := h.oldest_le
  have hlt := h.lt_oldest
  have hfull := h.isFull
  have hdepth := h.depth
  rw [SamplerSys.sample, if_pos rfl]
  refine ⟨h.depth, ?_, ?_, ?_, ?_, fun k pins hk hle => ?_, ?_, ?_⟩
  · show next s.fifo.depth s.fifo.inPos = _
    rw [h.inPos, next_mod h.pos, List.length_append]
    rfl
  · show s.fifo.makeRoom = _
    rw [Fifo.makeRoom, oldestAfter]
    split_ifs with hroom
    · rw [h.outPos, next_mod h.pos]
      rfl
    · exact h.outPos
  · rw [List.length_append, List.length_singleton, oldestAfter]
    split_ifs with hroom <;> omega
  · rw [List.length_append, List.length_singleton, oldestAfter]
    show s.stored.length + 1 < _ + s.fifo.depth
    split_ifs with hroom
    · omega
    · have hne : s.stored.length + 1 ≠ oldest + s.fifo.depth := fun heq => hroom (hfull.2 heq)
      omega
  · change (s.stored ++ [values])[k]? = some pins at hk
    change (s.stored ++ [values]).length ≤ k + s.fifo.depth at hle
    rw [List.length_append, List.length_singleton] at hle
    rcases Nat.lt_or_ge k s.stored.length with hold | hnew
    · rw [List.getElem?_append_left hold] at hk
      intro i hi
      have hne : k % s.fifo.depth ≠ s.fifo.inPos := by
        rw [h.inPos]
        exact mod_ne_of_lt hold (by omega)
      have hin : s.fifo.inPos < s.fifo.depth := h.inPos ▸ Nat.mod_lt _ h.pos
      have hstays : CellOf s.fifo.type s.fifo.numPins k pins i (storeRecord s.fifo values
          s.pins.sampleNum (k % s.fifo.depth * (s.fifo.numPins + 1) + i)) := by
        rw [storeRecord_apart hne hin hi]
        exact h.holds k pins hk (by omega) i hi
      exact hstays
    · obtain rfl : k = s.stored.length := by
        obtain ⟨hlen, -⟩ := List.getElem?_eq_some_iff.1 hk
        rw [List.length_append, List.length_singleton] at hlen
        omega
      obtain rfl : values = pins := by simpa using hk
      exact storeRecord_holds _ h.inPos h.sampleNum
  · show s.pins.sampleNum + 1 = _
    rw [h.sampleNum, List.length_append, List.length_singleton, BitVec.ofNat_add]
    rfl
  · show (if s.fifo.isFull then s.pins.overruns + 1 else s.pins.overruns)
      = BitVec.ofNat 32 (if s.fifo.isFull then _ else s.discarded).length
    split_ifs with hroom
    · rw [h.overruns, List.length_append, List.length_singleton, BitVec.ofNat_add]
      rfl
    · exact h.overruns

/-- A sample that is stored stays the same one. -/
lemma Whole.append {fifo : Fifo} {stored : List (ℕ → ShmemData)} {rec : Delivered} {k : ℕ}
    (h : Whole fifo stored rec k) (values : ℕ → ShmemData) :
    Whole fifo (stored ++ [values]) rec k := by
  obtain ⟨pins, hk, hnumber, hvalues⟩ := h
  obtain ⟨hlt, -⟩ := List.getElem?_eq_some_iff.1 hk
  exact ⟨pins, by rw [List.getElem?_append_left hlt, hk], hnumber, hvalues⟩

lemma le_oldestAfter (s : SamplerSys) (oldest : ℕ) : oldest ≤ oldestAfter s oldest := by
  rw [oldestAfter]
  split_ifs <;> omega

/-- A sample that is overwritten is counted as discarded. -/
lemma Accounted.sample (hp : Placed s oldest) (h : Accounted s ks oldest)
    (hnum : s.stored.length < 2 ^ 32) (values : ℕ → ShmemData) :
    Accounted (s.sample true values) ks (oldestAfter s oldest) := by
  rw [SamplerSys.sample, if_pos rfl]
  refine ⟨?_, h.increasing, fun k hk => (h.behind k hk).trans_le (le_oldestAfter s oldest),
    fun k hk => ?_, ?_⟩
  · exact h.delivered.imp fun rec k hwhole => hwhole.append values
  · rw [oldestAfter] at hk
    show k ∈ ks ∨ k ∈ (if s.fifo.isFull then s.discarded ++ [s.stored.length - s.held]
      else s.discarded)
    split_ifs at hk ⊢ with hfull
    · have hlast : s.stored.length - s.held = oldest := by
        rw [hp.held, Nat.sub_sub_self hp.oldest_le]
      rw [hlast, List.mem_append, List.mem_singleton]
      rcases Nat.lt_or_ge k oldest with hlt | hge
      · exact (h.accounted k hlt).imp_right .inl
      · exact .inr (.inr (by omega))
    · exact h.accounted k hk
  · rw [List.length_append, List.length_singleton]
    exact hnum

/-- The FIFO is not empty after a call of `sample`. -/
lemma Placed.nonempty_after (h : Placed s oldest) (values : ℕ → ShmemData) :
    oldestAfter s oldest < (s.sample true values).stored.length := by
  have hle := h.oldest_le
  have hdepth := h.depth
  have hfull := h.isFull
  rw [SamplerSys.sample, if_pos rfl, List.length_append, List.length_singleton, oldestAfter]
  split_ifs with hroom
  · have hlast := hfull.1 hroom
    omega
  · omega

/-- What was read stays what it was. -/
lemma Pass.sample (hp : Placed s oldest) (h : Pass s ks oldest tmpout buf)
    (values : ℕ → ShmemData) :
    Pass (s.sample true values) ks (oldestAfter s oldest) tmpout buf := by
  have hle := le_oldestAfter s oldest
  have hnonempty := hp.nonempty_after values
  rw [SamplerSys.sample, if_pos rfl] at hnonempty ⊢
  refine ⟨hnonempty, ?_, fun hbuf => ?_, fun i cell hcell => ?_⟩
  · obtain ⟨k, hk, hrest⟩ := h.entry
    exact ⟨k, hk.trans hle, hrest⟩
  · obtain ⟨hfirst, hlast, hlt⟩ := h.times hbuf
    refine ⟨hfirst, ?_, ?_⟩
    · rw [List.length_append]
      exact hlast.trans (Nat.le_add_right _ _)
    · exact hlt.trans_le (Nat.add_le_add_right hle _)
  · obtain ⟨a, k, pins, ha1, ha2, hlatest, hk, hof⟩ := h.cells i cell hcell
    obtain ⟨hklt, -⟩ := List.getElem?_eq_some_iff.1 hk
    exact ⟨a, k, pins, ha1, ha2, hlatest, (List.getElem?_append_left hklt).trans hk, hof⟩

/-- A call of `sample` keeps the invariant. -/
lemma Inv.sample (h : Inv s ks oldest) (hnum : s.stored.length < 2 ^ 32)
    (values : ℕ → ShmemData) : Inv (s.sample true values) ks (oldestAfter s oldest) := by
  have hnonempty := h.placed.nonempty_after values
  refine ⟨h.placed.sample values, h.accounted.sample h.placed hnum values, ?_⟩
  have hreader : (s.sample true values).reader = s.reader := rfl
  have hat := h.reader
  rw [hreader]
  generalize s.reader = reader at hat
  cases hat with
  | testIn => exact .testIn
  | testOut hempty => exact .testOut fun heq => absurd heq hnonempty.ne
  | loadOut => exact .loadOut hnonempty
  | loadData hpass hlen => exact .loadData (hpass.sample h.placed values) hlen
  | check hpass hlen => exact .check (hpass.sample h.placed values) hlen
  | storeOut hpass hlen => exact .storeOut (hpass.sample h.placed values) hlen
  | done => exact .done

/-! ### The read loop -/

/-- The sample in the entry that is read. -/
lemma Pass.exists_latest (hp : Placed s oldest) (h : Pass s ks oldest tmpout buf) :
    ∃ (k : ℕ) (values : ℕ → ShmemData), Latest s.fifo.depth tmpout s.stored.length k ∧
      s.stored[k]? = some values := by
  obtain ⟨k, hk, hentry, -⟩ := h.entry
  obtain ⟨j, hj, -⟩ := Turns.exists_latest hp.pos hentry (hk.trans_lt h.nonempty)
  have hlt := hj.lt
  exact ⟨j, s.stored[j], hj, List.getElem?_eq_getElem hlt⟩

/-- The next cell of the record. -/
lemma Pass.load (hp : Placed s oldest) (h : Pass s ks oldest tmpout buf)
    (hlen : buf.length ≤ s.fifo.numPins) :
    Pass { s with
        first := if buf.length = 0 then s.stored.length else s.first
        last := s.stored.length } ks oldest tmpout
      (buf ++ [s.fifo.data (tmpout * (s.fifo.numPins + 1) + buf.length)]) := by
  have hne : ∀ n, buf.length = n + 1 → buf ≠ [] := by
    rintro n hn rfl
    cases hn
  refine ⟨h.nonempty, ?_, fun _ => ?_, fun i cell hcell => ?_⟩
  · obtain ⟨k, hk, hentry, hbehind, hfirst⟩ := h.entry
    refine ⟨k, hk, hentry, hbehind, fun _ => ?_⟩
    show k < if buf.length = 0 then s.stored.length else s.first
    split_ifs with hzero
    · exact hk.trans_lt h.nonempty
    · exact hfirst fun hnil => hzero (hnil ▸ rfl)
  · show (if buf.length = 0 then s.stored.length else s.first) ≤ s.stored.length ∧
      s.stored.length ≤ s.stored.length ∧
      (if buf.length = 0 then s.stored.length else s.first) < oldest + s.fifo.depth
    split_ifs with hzero
    · exact ⟨Nat.le_refl _, Nat.le_refl _, hp.lt_oldest⟩
    · obtain ⟨hfirst, hlast, hlt⟩ := h.times fun hnil => hzero (hnil ▸ rfl)
      exact ⟨hfirst.trans hlast, Nat.le_refl _, hlt⟩
  · show ∃ (a k : ℕ) (values : ℕ → ShmemData),
      (if buf.length = 0 then s.stored.length else s.first) ≤ a ∧ a ≤ s.stored.length ∧
      Latest s.fifo.depth tmpout a k ∧ s.stored[k]? = some values ∧
      CellOf s.fifo.type s.fifo.numPins k values i cell
    rcases Nat.lt_or_ge i buf.length with hold | hnew
    · rw [List.getElem?_append_left hold] at hcell
      obtain ⟨a, k, values, ha1, ha2, hlatest, hk, hof⟩ := h.cells i cell hcell
      obtain ⟨-, hlast, -⟩ := h.times (List.ne_nil_of_length_pos (by omega))
      refine ⟨a, k, values, ?_, ha2.trans hlast, hlatest, hk, hof⟩
      rw [if_neg (by omega)]
      exact ha1
    · obtain rfl : i = buf.length := by
        obtain ⟨hlt, -⟩ := List.getElem?_eq_some_iff.1 hcell
        rw [List.length_append, List.length_singleton] at hlt
        omega
      obtain ⟨k, values, hlatest, hk⟩ := h.exists_latest hp
      have hhere : s.fifo.data (tmpout * (s.fifo.numPins + 1) + buf.length) = cell := by
        simpa using hcell
      refine ⟨s.stored.length, k, values, ?_, Nat.le_refl _, hlatest, hk, ?_⟩
      · split_ifs with hzero
        · exact Nat.le_refl _
        · obtain ⟨hfirst, hlast, -⟩ := h.times fun hnil => hzero (hnil ▸ rfl)
          exact hfirst.trans hlast
      · rw [← hhere, ← hlatest.entry]
        exact hp.holds k values hk hlatest.le _ hlen

/-- A record whose entry was not rewritten while it was read is the whole of one sample. -/
lemma Pass.exists_whole (hp : Placed s oldest) (h : Pass s ks oldest tmpout buf)
    (hlen : buf.length = s.fifo.numPins + 1) (hquiet : Quiet s.fifo.depth tmpout s.first s.last) :
    ∃ k, Latest s.fifo.depth tmpout s.first k ∧ (∀ d ∈ ks, d < k) ∧ k < s.stored.length ∧
      Whole s.fifo s.stored (printRecord s.fifo buf) k := by
  have hbuf : buf ≠ [] := List.ne_nil_of_length_pos (by omega)
  obtain ⟨hfirst, hlast, -⟩ := h.times hbuf
  obtain ⟨j, hj, hentry, hbehind, hjfirst⟩ := h.entry
  obtain ⟨k, hlatest, hjk⟩ := Turns.exists_latest hp.pos hentry (hjfirst hbuf)
  have hcells : ∀ i < buf.length, ∃ values, s.stored[k]? = some values ∧
      CellOf s.fifo.type s.fifo.numPins k values i (buf.getD i 0) := by
    intro i hi
    obtain ⟨a, k', values, ha1, ha2, hlatest', hk', hof⟩ :=
      h.cells i buf[i] (List.getElem?_eq_getElem hi)
    have hsame : k' = k :=
      hlatest'.unique (hlatest.of_quiet ha1 (hquiet.mono (Nat.le_refl _) ha2))
    rw [List.getD_eq_getElem?_getD, List.getElem?_eq_getElem hi, Option.getD_some]
    exact ⟨values, hsame ▸ hk', hsame ▸ hof⟩
  have hklt : k < s.stored.length := hlatest.lt.trans_le (hfirst.trans hlast)
  refine ⟨k, hlatest, fun d hd => (hbehind d hd).trans_le hjk, hklt, s.stored[k],
    List.getElem?_eq_getElem hklt, ?_, ?_⟩
  · obtain ⟨values, -, hof⟩ := hcells s.fifo.numPins (by omega)
    rw [CellOf, if_neg (Nat.lt_irrefl _)] at hof
    show (thisSample s.fifo buf).toNat = k % 2 ^ 32
    rw [thisSample, hof, BitVec.toNat_setWidth, BitVec.toNat_ofNat]
    exact Nat.mod_eq_of_lt ((Nat.mod_lt _ (by decide)).trans (by decide))
  · refine List.map_congr_left fun n hn => ?_
    have hn' := List.mem_range.1 hn
    obtain ⟨values, hk, hof⟩ := hcells n (by omega)
    rw [CellOf, if_pos hn'] at hof
    rw [hof, (List.getElem?_eq_some_iff.1 hk).2]

/-- A store of `out` behind the record: it was already there, or the record is the oldest sample. -/
lemma Pass.out_cases (hp : Placed s oldest) (h : Pass s ks oldest tmpout buf)
    (hbuf : buf ≠ []) {k : ℕ} (hk : Latest s.fifo.depth tmpout s.first k)
    (hquiet : Quiet s.fifo.depth tmpout s.first s.last)
    (hout : s.fifo.outPos = next s.fifo.depth tmpout ∨
      s.fifo.outPos = tmpout ∧ Quiet s.fifo.depth tmpout s.last s.stored.length) :
    (next s.fifo.depth tmpout = oldest % s.fifo.depth ∧ k < oldest) ∨
      (next s.fifo.depth tmpout = (oldest + 1) % s.fifo.depth ∧ k = oldest) := by
  obtain ⟨hfirst, hlast, hlt⟩ := h.times hbuf
  have hnext : next s.fifo.depth tmpout = (k + 1) % s.fifo.depth := by
    rw [← hk.entry, next_mod hp.pos]
  have hklt := hk.lt
  rcases hout with hbehind | ⟨hsame, hquiet'⟩
  · refine .inl ⟨by rw [← hbehind, hp.outPos], ?_⟩
    by_contra hge
    have hne : oldest % s.fifo.depth ≠ (k + 1) % s.fifo.depth :=
      mod_ne_of_lt (by omega) (by omega)
    exact hne (by rw [← hnext, ← hbehind, hp.outPos])
  · have hnow : Latest s.fifo.depth tmpout s.stored.length k :=
      hk.of_quiet (hfirst.trans hlast) (hquiet.trans hquiet')
    have hold : Latest s.fifo.depth tmpout s.stored.length oldest :=
      ⟨by rw [← hsame, hp.outPos], h.nonempty, hp.lt_oldest.le⟩
    obtain rfl : k = oldest := hnow.unique hold
    exact .inr ⟨hnext, rfl⟩

/-- The store of `out` keeps the invariant if it is safe. -/
lemma Inv.store (h : Inv s ks oldest) (hreader : s.reader = .storeOut tmpout buf)
    (hsafe : Quiet s.fifo.depth tmpout s.first s.last ∧
      (s.fifo.outPos = next s.fifo.depth tmpout ∨
        s.fifo.outPos = tmpout ∧ Quiet s.fifo.depth tmpout s.last s.stored.length))
    {t : SamplerSys} (ht : s.read = some t) : ∃ ks' oldest', Inv t ks' oldest' := by
  have hat := h.reader
  rw [hreader] at hat
  cases hat with
  | storeOut hpass hlen =>
    have hbuf : buf ≠ [] := List.ne_nil_of_length_pos (by omega)
    obtain ⟨k, hlatest, hbehind, hklt, hwhole⟩ :=
      hpass.exists_whole h.placed hlen hsafe.1
    rw [SamplerSys.read, hreader] at ht
    cases ht
    have hstart : ∀ s' oldest', ReaderAt s' (ks ++ [k]) oldest'
        (.start (countdown s.samples)) := by
      intro s' oldest'
      rw [Reader.start]
      split_ifs
      · exact .done
      · exact .testIn
    have hdelivered : List.Forall₂ (Whole s.fifo s.stored)
        (s.delivered ++ [printRecord s.fifo buf]) (ks ++ [k]) :=
      List.rel_append h.accounted.delivered (.cons hwhole .nil)
    have hincreasing : (ks ++ [k]).Pairwise (· < ·) := by
      refine List.pairwise_append.2 ⟨h.accounted.increasing, List.pairwise_singleton _ _, ?_⟩
      intro d hd e he
      rw [List.mem_singleton.1 he]
      exact hbehind d hd
    rcases hpass.out_cases h.placed hbuf hlatest hsafe.1 hsafe.2 with ⟨hout, hlt⟩ | ⟨hout, rfl⟩
    · refine ⟨ks ++ [k], oldest, { h.placed with outPos := hout },
        ⟨hdelivered, hincreasing, fun d hd => ?_, fun d hd => ?_, h.accounted.numbers⟩,
        hstart _ _⟩
      · rcases List.mem_append.1 hd with hold | hnew
        · exact h.accounted.behind d hold
        · exact List.mem_singleton.1 hnew ▸ hlt
      · exact (h.accounted.accounted d hd).imp_left (List.mem_append_left _)
    · refine ⟨ks ++ [k], k + 1, ?_, ⟨hdelivered, hincreasing, fun d hd => ?_, fun d hd => ?_,
        h.accounted.numbers⟩, hstart _ _⟩
      · have hlt := h.placed.lt_oldest
        exact { h.placed with
          outPos := hout
          oldest_le := hklt
          lt_oldest := show s.stored.length < k + 1 + s.fifo.depth by omega }
      · rcases List.mem_append.1 hd with hold | hnew
        · exact (h.accounted.behind d hold).trans (Nat.lt_succ_self k)
        · exact List.mem_singleton.1 hnew ▸ Nat.lt_succ_self k
      · rcases Nat.lt_or_ge d k with hlt | hge
        · exact (h.accounted.accounted d hlt).imp_left (List.mem_append_left _)
        · obtain rfl : d = k := by omega
          exact .inl (List.mem_append_right _ (List.mem_singleton_self d))

/-- The accesses that only read keep the invariant. -/
lemma Inv.load (h : Inv s ks oldest) (hreader : ∀ tmpout buf, s.reader ≠ .storeOut tmpout buf)
    {t : SamplerSys} (ht : s.read = some t) : Inv t ks oldest := by
  have hat := h.reader
  rw [SamplerSys.read] at ht
  generalize hr : s.reader = reader at hat ht
  cases hat with
  | testIn =>
    cases ht
    exact ⟨{ h.placed with }, { h.accounted with }, .testOut fun _ => rfl⟩
  | @testOut tmpin hempty =>
    cases ht
    refine ⟨{ h.placed with }, { h.accounted with }, ?_⟩
    show ReaderAt _ ks oldest (if tmpin = s.fifo.outPos then .testIn else .loadOut)
    split_ifs with hsame
    · exact .testIn
    · refine .loadOut (lt_of_le_of_ne h.placed.oldest_le fun heq => hsame ?_)
      rw [hempty heq, h.placed.inPos, h.placed.outPos, heq]
  | loadOut hnonempty =>
    cases ht
    refine ⟨{ h.placed with }, { h.accounted with }, .loadData ?_ (Nat.zero_le _)⟩
    exact {
      nonempty := hnonempty
      entry := ⟨oldest, Nat.le_refl _, h.placed.outPos.symm, h.accounted.behind,
        fun hnil => absurd rfl hnil⟩
      times := fun hnil => absurd rfl hnil
      cells := fun i cell hcell => by simp at hcell }
  | @loadData tmpout buf hpass hlen =>
    cases ht
    have hload := hpass.load h.placed hlen
    refine ⟨{ h.placed with }, { h.accounted with }, ?_⟩
    show ReaderAt _ ks oldest (if buf.length < s.fifo.numPins then .loadData tmpout _
      else .check tmpout _)
    by_cases hmore : buf.length < s.fifo.numPins
    · rw [if_pos hmore]
      refine .loadData { hload with } ?_
      rw [List.length_append, List.length_singleton]
      exact hmore
    · rw [if_neg hmore]
      refine .check { hload with } ?_
      rw [List.length_append, List.length_singleton]
      show buf.length + 1 = s.fifo.numPins + 1
      omega
  | @check tmpout buf hpass hlen =>
    cases ht
    refine ⟨{ h.placed with }, { h.accounted with }, ?_⟩
    show ReaderAt _ ks oldest (if s.fifo.outPos = tmpout then .storeOut tmpout buf else .testIn)
    split_ifs with hsame
    · exact .storeOut { hpass with } hlen
    · exact .testIn
  | storeOut hpass hlen => exact absurd hr (hreader _ _)
  | done => cases ht

/-! ### Runs -/

/-- A safe step keeps the invariant. -/
lemma Inv.step {t : SamplerSys} {op : SamplerSys.Op} (h : ∃ ks oldest, Inv s ks oldest)
    (hsafe : s.safeStep op = true) (ht : s.step op = some t) :
    ∃ ks oldest, Inv t ks oldest := by
  obtain ⟨ks, oldest, h⟩ := h
  cases op with
  | sample enable values =>
    obtain rfl : s.sample enable values = t := by simpa [SamplerSys.step] using ht
    cases enable with
    | true => exact ⟨ks, _, h.sample (of_decide_eq_true hsafe) values⟩
    | false => exact ⟨ks, oldest, h⟩
  | read =>
    by_cases hstore : ∃ tmpout buf, s.reader = .storeOut tmpout buf
    · obtain ⟨tmpout, buf, hreader⟩ := hstore
      rw [SamplerSys.safeStep, hreader, Bool.and_eq_true, Bool.or_eq_true, decide_eq_true_iff,
        decide_eq_true_iff, decide_eq_true_iff] at hsafe
      exact h.store hreader hsafe ht
    · exact ⟨ks, oldest, h.load (fun tmpout buf hr => hstore ⟨tmpout, buf, hr⟩) ht⟩

/-- The invariant at the start. -/
lemma inv_init {depth : ℕ} (numPins : ℕ) (type : ℕ → HalType) (data : ℕ → ShmemData)
    (samples : ℤ) (hdepth : 2 ≤ depth) :
    Inv (.init depth numPins type data samples) [] 0 := by
  refine ⟨⟨hdepth, (Nat.zero_mod _).symm, (Nat.zero_mod _).symm, Nat.le_refl _, ?_, ?_, rfl, rfl⟩,
    ⟨.nil, .nil, nofun, nofun, Nat.zero_le _⟩, ?_⟩
  · show 0 < 0 + depth
    omega
  · intro k values hk
    cases hk
  · show ReaderAt _ [] 0 (.start samples)
    rw [Reader.start]
    split_ifs
    · exact .done
    · exact .testIn

/-- An order of the one list is an order of the other. -/
lemma pairwise_of_forall₂ {α β : Type*} {R : α → β → Prop} {P : α → α → Prop}
    {Q : β → β → Prop} (hPQ : ∀ a b a' b', R a b → R a' b' → Q b b' → P a a')
    {as : List α} {bs : List β} (h : List.Forall₂ R as bs) (hbs : bs.Pairwise Q) :
    as.Pairwise P := by
  induction h with
  | nil => exact .nil
  | @cons a b as bs hab hrest ih =>
    rw [List.pairwise_cons] at hbs ⊢
    refine ⟨fun a' ha' => ?_, ih hbs.2⟩
    obtain ⟨i, hi, rfl⟩ := List.getElem_of_mem ha'
    have hi' : i < bs.length := hrest.length_eq ▸ hi
    exact hPQ a b _ bs[i] hab (hrest.get hi hi') (hbs.1 _ (List.getElem_mem hi'))

/-- Under the invariant the state is right. -/
lemma Inv.right (h : Inv s ks oldest) : Right s where
  delivered := by
    refine ⟨ks, h.accounted.increasing, h.accounted.delivered, fun k hk => ?_⟩
    have hle := h.placed.oldest_le
    rcases Nat.lt_or_ge k oldest with hlt | hge
    · exact (h.accounted.accounted k hlt).imp_right .inl
    · refine .inr (.inr ?_)
      rw [h.placed.held]
      omega
  increasing := by
    have hnum := h.accounted.numbers
    refine pairwise_of_forall₂ ?_ h.accounted.delivered h.accounted.increasing
    rintro rec k rec' k' ⟨_, hk, hnumber, -⟩ ⟨_, hk', hnumber', -⟩ hlt
    obtain ⟨hklt, -⟩ := List.getElem?_eq_some_iff.1 hk
    obtain ⟨hklt', -⟩ := List.getElem?_eq_some_iff.1 hk'
    rw [hnumber, hnumber', Nat.mod_eq_of_lt (by omega), Nat.mod_eq_of_lt (by omega)]
    exact hlt
  overruns := h.placed.overruns

/-- The ranges, which do not depend on how the steps follow each other. -/
structure Ranges (s : SamplerSys) : Prop where
  inPos : s.fifo.inPos < s.fifo.depth
  outPos : s.fifo.outPos < s.fifo.depth
  entry : ∀ (tmpout : ℕ) (buf : List ShmemData), s.reader = .loadData tmpout buf →
    tmpout < s.fifo.depth ∧ buf.length ≤ s.fifo.numPins

/-- Every step keeps the ranges. -/
lemma Ranges.step {t : SamplerSys} {op : SamplerSys.Op} (h : Ranges s)
    (ht : s.step op = some t) : Ranges t := by
  have hpos : 0 < s.fifo.depth := Nat.zero_lt_of_lt h.inPos
  cases op with
  | sample enable values =>
    obtain rfl : s.sample enable values = t := by simpa [SamplerSys.step] using ht
    cases enable with
    | false => exact h
    | true =>
      refine ⟨next_lt hpos, ?_, h.entry⟩
      show s.fifo.makeRoom < s.fifo.depth
      rw [Fifo.makeRoom]
      split_ifs
      · exact next_lt hpos
      · exact h.outPos
  | read =>
    rw [SamplerSys.step, SamplerSys.read] at ht
    cases hreader : s.reader with
    | testIn =>
      rw [hreader] at ht
      cases ht
      exact ⟨h.inPos, h.outPos, fun _ _ hr => by cases hr⟩
    | testOut tmpin =>
      rw [hreader] at ht
      cases ht
      refine ⟨h.inPos, h.outPos, fun _ _ hr => ?_⟩
      dsimp only at hr
      split_ifs at hr
    | loadOut =>
      rw [hreader] at ht
      cases ht
      refine ⟨h.inPos, h.outPos, fun _ _ hr => ?_⟩
      cases hr
      exact ⟨h.outPos, Nat.zero_le _⟩
    | loadData tmpout buf =>
      rw [hreader] at ht
      cases ht
      refine ⟨h.inPos, h.outPos, fun _ _ hr => ?_⟩
      dsimp only at hr
      split_ifs at hr with hmore
      cases hr
      refine ⟨(h.entry tmpout buf hreader).1, ?_⟩
      rw [List.length_append, List.length_singleton]
      exact hmore
    | check tmpout buf =>
      rw [hreader] at ht
      cases ht
      refine ⟨h.inPos, h.outPos, fun _ _ hr => ?_⟩
      dsimp only at hr
      split_ifs at hr
    | storeOut tmpout buf =>
      rw [hreader] at ht
      cases ht
      refine ⟨h.inPos, next_lt hpos, fun _ _ hr => ?_⟩
      dsimp only [Reader.start] at hr
      split_ifs at hr
    | done =>
      rw [hreader] at ht
      cases ht

lemma ranges_init {depth : ℕ} (numPins : ℕ) (type : ℕ → HalType) (data : ℕ → ShmemData)
    (samples : ℤ) (hdepth : 2 ≤ depth) : Ranges (.init depth numPins type data samples) := by
  have hpos : 0 < depth := Nat.zero_lt_of_lt hdepth
  refine ⟨hpos, hpos, fun _ _ hr => ?_⟩
  change Reader.start samples = _ at hr
  rw [Reader.start] at hr
  split_ifs at hr

lemma Ranges.inRange (h : Ranges s) : InRange s where
  inPos := h.inPos
  outPos := h.outPos
  index tmpout buf hreader := by
    obtain ⟨hentry, hlen⟩ := h.entry tmpout buf hreader
    have hle : (tmpout + 1) * (s.fifo.numPins + 1) ≤ s.fifo.depth * (s.fifo.numPins + 1) :=
      Nat.mul_le_mul_right _ hentry
    rw [Nat.add_mul, Nat.one_mul] at hle
    omega

/-- The positions and the index stay in range in every run, and every run whose steps are safe
delivers whole samples in order and loses none that was not discarded. -/
theorem sampler_right {depth : ℕ} (numPins : ℕ) (type : ℕ → HalType) (data : ℕ → ShmemData)
    (samples : ℤ) (hdepth : 2 ≤ depth) :
    (∀ s, Reach SamplerSys.step (fun _ _ => True) (.init depth numPins type data samples) s →
      InRange s) ∧
    ∀ s, Reach SamplerSys.step (fun s op => s.safeStep op = true)
      (.init depth numPins type data samples) s → Right s := by
  constructor
  · intro s hs
    have hranges : Ranges s :=
      hs.invariant (ranges_init numPins type data samples hdepth) fun h _ ht => h.step ht
    exact hranges.inRange
  · intro s hs
    have hinv := hs.invariant (P := fun s => ∃ ks oldest, Inv s ks oldest)
      ⟨[], 0, inv_init numPins type data samples hdepth⟩ fun h hsafe ht => Inv.step h hsafe ht
    obtain ⟨ks, oldest, h⟩ := hinv
    exact h.right

/-- A FIFO of two entries, with one pin: two samples, of which the first is overwritten, and the
second is delivered. -/
theorem sampler_right_two : ∃ t : SamplerSys,
    Reach SamplerSys.step (fun s op => s.safeStep op = true)
      (.init 2 1 (fun _ => .u32) (fun _ => 0) (-1)) t ∧
    t.delivered = [⟨true, 1, [7]⟩] ∧ t.discarded = [0] ∧ InRange t ∧ Right t := by
  have hrun : ∃ t, run SamplerSys.step SamplerSys.safeStep
      (.init 2 1 (fun _ => .u32) (fun _ => 0) (-1))
      [.sample true fun _ => 5, .sample true fun _ => 7, .read, .read, .read, .read, .read, .read,
        .read] = some t ∧
      t.delivered = [⟨true, 1, [7]⟩] ∧ t.discarded = [0] := ⟨_, rfl, rfl, rfl⟩
  obtain ⟨t, ht, hdelivered, hdiscarded⟩ := hrun
  have hreach := reach_of_run _ _ ht
  obtain ⟨hrange, hright⟩ := sampler_right 1 (fun _ => .u32) (fun _ => 0) (-1)
    (by decide : 2 ≤ 2)
  exact ⟨t, hreach, hdelivered, hdiscarded, hrange t (hreach.mono fun _ => trivial),
    hright t hreach⟩

/-- Two samples; the read loop reads the first one and finds `out` unchanged; `sample` overwrites
twice; then the read loop stores `out`. -/
def lateStore : List SamplerSys.Op :=
  let sample : SamplerSys.Op := .sample true fun _ => 0
  [sample, sample, .read, .read, .read, .read, .read, .read, sample, sample, .read]

/-- Then `out` is `in`: two samples are in none of the places. -/
theorem sampler_right_late : ¬ ∀ (depth numPins : ℕ) (type : ℕ → HalType) (data : ℕ → ShmemData)
    (samples : ℤ), 2 ≤ depth → ∀ s, Reach SamplerSys.step (fun _ _ => True)
      (.init depth numPins type data samples) s → Right s := by
  intro hright
  have hrun : ∃ t, run SamplerSys.step (fun _ _ => true)
      (.init 3 1 (fun _ => .u32) (fun _ => 0) (-1)) lateStore = some t ∧
      t.delivered.map (·.number) = [0] ∧ t.discarded = [0, 1] ∧ t.stored.length = 4 ∧
      t.held = 0 := ⟨_, rfl, rfl, rfl, rfl, rfl⟩
  obtain ⟨t, ht, hnumbers, hdiscarded, hstored, hheld⟩ := hrun
  have hreach : Reach SamplerSys.step (fun _ _ => True)
      (.init 3 1 (fun _ => .u32) (fun _ => 0) (-1)) t := (reach_of_run _ _ ht).mono fun _ => trivial
  obtain ⟨ks, -, hks, hall⟩ := (hright 3 1 _ _ (-1) (by decide) t hreach).delivered
  rcases hall 2 (by omega) with hdelivered | hlost | hin
  · obtain ⟨i, hi, htwo⟩ := List.getElem_of_mem hdelivered
    have hi' : i < t.delivered.length := hks.length_eq ▸ hi
    obtain ⟨_, -, hnumber, -⟩ := hks.get hi' hi
    have hmem : (t.delivered.get ⟨i, hi'⟩).number ∈ t.delivered.map (·.number) :=
      List.mem_map_of_mem (List.getElem_mem hi')
    have htwo' : ks.get ⟨i, hi⟩ = 2 := htwo
    rw [hnumbers, List.mem_singleton, hnumber, htwo'] at hmem
    cases hmem
  · rw [hdiscarded] at hlost
    simp at hlost
  · omega

end MachinekitHal.Sampler
