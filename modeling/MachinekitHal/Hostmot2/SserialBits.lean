import MachinekitHal.Hostmot2.SserialPorts

/-!
Reading the fields of the process data back.

* `ReadRegs`, `getbits`: the registers that are read, and a field of them.
* `getLsbD_getbits`: the bits of a field.
* `FieldValue`, `writeFields`, `readFields`: a row of fields at their running offsets.
* `getbits_setbits`: what is written is read back, and nothing else is changed.
-/

namespace MachinekitHal.Sserial

/-- The data registers that are read; a pointer is null if no bit is read from its register. -/
structure ReadRegs where
  reg0 : Option (BitVec 32)
  reg1 : Option (BitVec 32)
  reg2 : Option (BitVec 32)
  deriving DecidableEq

/-- `(reg == NULL) ? 0 : *reg`, as a `long long`. -/
def userWord (reg : Option (BitVec 32)) : BitVec 64 := (reg.getD 0).setWidth 64

/-- `getbits`. The words are signed, so they are shifted to the right arithmetically. -/
def getbits (regs : ReadRegs) (start len : ℕ) : BitVec 64 :=
  let user0 := userWord regs.reg0
  let user1 := userWord regs.reg1
  let user2 := userWord regs.reg2
  let mask := ones >>> (64 - len)
  if start + len ≤ 32 then user0.sshiftRight start &&& mask
  else if start + len ≤ 64 then
    if 32 ≤ start then user1.sshiftRight (start - 32) &&& mask
    else (user1 <<< 32 ||| user0).sshiftRight start &&& mask
  else if 64 ≤ start then user2.sshiftRight (start - 64) &&& mask
  else if 32 ≤ start then (user2 <<< 32 ||| user1).sshiftRight (start - 32) &&& mask
  else (user2 <<< (64 - start) ||| user1 <<< (32 - start) ||| user0.sshiftRight start) &&& mask

/-- The registers as `hm2_sserial_register_tram` registers them for that many bits. -/
def Regs.read (regs : Regs) (bits : ℕ) : ReadRegs where
  reg0 := if 0 < bits then some regs.reg0 else none
  reg1 := if 32 < bits then some regs.reg1 else none
  reg2 := if 64 < bits then some regs.reg2 else none

/-! ### Bits of a field -/

/-- Bit `p` of the registers that are read. -/
def ReadRegs.bit (regs : ReadRegs) (p : ℕ) : Bool :=
  if p < 32 then (regs.reg0.getD 0).getLsbD p
  else if p < 64 then (regs.reg1.getD 0).getLsbD (p - 32)
  else (regs.reg2.getD 0).getLsbD (p - 64)

lemma ReadRegs.bit_reg0 (regs : ReadRegs) {p : ℕ} (hp : p < 32) :
    regs.bit p = (regs.reg0.getD 0).getLsbD p := if_pos hp

lemma ReadRegs.bit_reg1 (regs : ReadRegs) {p : ℕ} (hp : 32 ≤ p) (hp' : p < 64) :
    regs.bit p = (regs.reg1.getD 0).getLsbD (p - 32) := by
  rw [ReadRegs.bit, if_neg (by omega), if_pos hp']

lemma ReadRegs.bit_reg2 (regs : ReadRegs) {p : ℕ} (hp : 64 ≤ p) :
    regs.bit p = (regs.reg2.getD 0).getLsbD (p - 64) := by
  rw [ReadRegs.bit, if_neg (by omega), if_neg (by omega)]

lemma getLsbD_userWord (reg : Option (BitVec 32)) (i : ℕ) :
    (userWord reg).getLsbD i = (reg.getD 0).getLsbD i := by
  rw [userWord, BitVec.getLsbD_setWidth]
  by_cases hi : i < 64
  · rw [decide_eq_true hi, Bool.true_and]
  · rw [decide_eq_false hi, Bool.false_and, BitVec.getLsbD_of_ge _ _ (by omega)]

/-- Two registers side by side. -/
lemma getLsbD_join (reg reg' : Option (BitVec 32)) {i : ℕ} (hi : i < 64) :
    (userWord reg' <<< 32 ||| userWord reg).getLsbD i
      = if i < 32 then (reg.getD 0).getLsbD i else (reg'.getD 0).getLsbD (i - 32) := by
  rw [BitVec.getLsbD_or, BitVec.getLsbD_shiftLeft, getLsbD_userWord, getLsbD_userWord,
    decide_eq_true hi, Bool.true_and]
  split_ifs with h32
  · rw [decide_eq_true h32, Bool.not_true, Bool.false_and, Bool.false_or]
  · rw [decide_eq_false h32, Bool.not_false, Bool.true_and,
      BitVec.getLsbD_of_ge (reg.getD 0) i (by omega), Bool.or_false]

/-- The mask keeps the copies of the sign out. -/
lemma getLsbD_masked (x : BitVec 64) {start len : ℕ} (h : start + len ≤ 64) (i : ℕ) :
    (x.sshiftRight start &&& ones >>> (64 - len)).getLsbD i
      = (decide (i < len) && x.getLsbD (start + i)) := by
  rw [BitVec.getLsbD_and, BitVec.getLsbD_sshiftRight, getLsbD_ones]
  by_cases hi : i < len
  · rw [decide_eq_true hi, decide_eq_false (by omega : ¬ 64 ≤ i), if_pos (by omega),
      decide_eq_true (by omega : i + (64 - len) < 64)]
    simp
  · rw [decide_eq_false hi, decide_eq_false (by omega : ¬ i + (64 - len) < 64), Bool.and_false,
      Bool.false_and]

/-- A field with a bit in each register. -/
lemma getLsbD_spread (regs : ReadRegs) {start len i : ℕ} (hstart : start < 32)
    (hlen : len ≤ 64) (hi : i < len) :
    (userWord regs.reg2 <<< (64 - start) ||| userWord regs.reg1 <<< (32 - start) |||
      (userWord regs.reg0).sshiftRight start).getLsbD i = regs.bit (start + i) := by
  simp only [BitVec.getLsbD_or, BitVec.getLsbD_shiftLeft, BitVec.getLsbD_sshiftRight,
    getLsbD_userWord, decide_eq_true (by omega : i < 64), decide_eq_false (by omega : ¬ 64 ≤ i),
    Bool.true_and, Bool.not_false]
  have hmsb : (userWord regs.reg0).msb = false := by
    rw [BitVec.msb_eq_getLsbD_last, getLsbD_userWord, BitVec.getLsbD_of_ge _ _ (by omega)]
  have hlow : (if start + i < 64 then (regs.reg0.getD 0).getLsbD (start + i)
      else (userWord regs.reg0).msb) = (regs.reg0.getD 0).getLsbD (start + i) := by
    split_ifs with h
    · rfl
    · rw [hmsb, BitVec.getLsbD_of_ge _ _ (by omega)]
  rw [hlow]
  by_cases h32 : start + i < 32
  · rw [regs.bit_reg0 h32, decide_eq_true (by omega : i < 64 - start),
      decide_eq_true (by omega : i < 32 - start)]
    simp
  · rw [decide_eq_false (by omega : ¬ i < 32 - start),
      BitVec.getLsbD_of_ge (regs.reg0.getD 0) (start + i) (by omega)]
    by_cases h64 : start + i < 64
    · rw [regs.bit_reg1 (by omega) h64, decide_eq_true (by omega : i < 64 - start),
        show i - (32 - start) = start + i - 32 by omega]
      simp
    · rw [regs.bit_reg2 (by omega), decide_eq_false (by omega : ¬ i < 64 - start),
        BitVec.getLsbD_of_ge (regs.reg1.getD 0) (i - (32 - start)) (by omega),
        show i - (64 - start) = start + i - 64 by omega]
      simp

/-- `getbits` reads the bits of the field and clears the others. -/
lemma getLsbD_getbits (regs : ReadRegs) {start len : ℕ} (hlen : len ≤ 64)
    (hend : start + len ≤ 96) (i : ℕ) :
    (getbits regs start len).getLsbD i = (decide (i < len) && regs.bit (start + i)) := by
  by_cases hi : i < len
  swap
  · have hmask : (ones >>> (64 - len)).getLsbD i = false := by
      rw [getLsbD_ones, decide_eq_false (by omega)]
    rw [getbits]
    split_ifs <;> rw [BitVec.getLsbD_and, hmask, Bool.and_false, decide_eq_false hi, Bool.false_and]
  rw [getbits]
  split_ifs with h1 h2 h3 h4 h5
  · rw [getLsbD_masked _ (by omega), getLsbD_userWord, regs.bit_reg0 (by omega)]
  · rw [getLsbD_masked _ (by omega), getLsbD_userWord, regs.bit_reg1 (by omega) (by omega),
      show start - 32 + i = start + i - 32 by omega]
  · rw [getLsbD_masked _ (by omega), getLsbD_join _ _ (by omega)]
    split_ifs with h32
    · rw [regs.bit_reg0 h32]
    · rw [regs.bit_reg1 (by omega) (by omega)]
  · rw [getLsbD_masked _ (by omega), getLsbD_userWord, regs.bit_reg2 (by omega),
      show start - 64 + i = start + i - 64 by omega]
  · rw [getLsbD_masked _ (by omega), getLsbD_join _ _ (by omega)]
    split_ifs with h32
    · rw [regs.bit_reg1 (by omega) (by omega), show start - 32 + i = start + i - 32 by omega]
    · rw [regs.bit_reg2 (by omega), show start - 32 + i - 32 = start + i - 64 by omega]
  · rw [BitVec.getLsbD_and, getLsbD_spread regs (by omega) hlen hi, getLsbD_ones,
      decide_eq_true (by omega : i + (64 - len) < 64), decide_eq_true hi, Bool.and_true,
      Bool.true_and]

/-- Registers that are not registered hold no field. -/
lemma bit_read (regs : Regs) {bits p : ℕ} (hp : p < bits) :
    (regs.read bits).bit p = regs.bit p := by
  rw [ReadRegs.bit, Regs.bit, Regs.read]
  split_ifs <;> first | rfl | omega

/-! ### Rows of fields -/

/-- A field and the value written to it. -/
structure FieldValue where
  len : ℕ
  val : BitVec 64
  len_pos : 1 ≤ len
  len_le : len ≤ 64

/-- The bits of a row. -/
def totalBits (fields : List FieldValue) : ℕ := (fields.map FieldValue.len).sum

/-- The fields are written one behind the other, from `bitcount` on. -/
def writeFields : List FieldValue → ℕ → Regs → Regs
  | [], _, regs => regs
  | f :: rest, bitcount, regs =>
    writeFields rest (bitcount + f.len) (setbits regs f.val bitcount f.len)

/-- The fields are read one behind the other. -/
def readFields (regs : ReadRegs) : List ℕ → ℕ → List (BitVec 64)
  | [], _ => []
  | len :: rest, bitcount => getbits regs bitcount len :: readFields regs rest (bitcount + len)

@[simp] lemma totalBits_nil : totalBits [] = 0 := rfl

@[simp] lemma totalBits_cons (f : FieldValue) (rest : List FieldValue) :
    totalBits (f :: rest) = f.len + totalBits rest := by
  simp [totalBits]

/-- Bits in front of a row stay. -/
lemma bit_writeFields_before {fields : List FieldValue} {bitcount p : ℕ} {regs : Regs}
    (hp : p < bitcount) (hp' : p < 96) : (writeFields fields bitcount regs).bit p = regs.bit p := by
  induction fields generalizing bitcount regs with
  | nil => rfl
  | cons f rest ih =>
    rw [writeFields, ih (by omega), bit_setbits_outside f.len_le hp' (Or.inl hp)]

/-- Bits behind a field are clear after it as they were before. -/
lemma clear_setbits {regs : Regs} {f : FieldValue} {bitcount : ℕ}
    (hclear : ∀ p, bitcount ≤ p → p < 96 → regs.bit p = false) :
    ∀ p, bitcount + f.len ≤ p → p < 96 → (setbits regs f.val bitcount f.len).bit p = false := by
  intro p hp hp'
  rw [bit_setbits_outside f.len_le hp' (Or.inr hp)]
  exact hclear p (by omega) hp'

/-- The bits of a field that was written to clear registers, whatever follows. -/
lemma getbits_writeFields {f : FieldValue} {rest : List FieldValue} {bitcount bits : ℕ}
    {regs : Regs}
    (hclear : ∀ p, bitcount ≤ p → p < 96 → regs.bit p = false)
    (hend : bitcount + f.len ≤ bits) (hbits : bits ≤ 96) :
    (getbits ((writeFields (f :: rest) bitcount regs).read bits) bitcount f.len).toNat
      = f.val.toNat % 2 ^ f.len := by
  rw [← BitVec.toNat_setWidth, ← BitVec.toNat_setWidth_of_le f.len_le]
  congr 1
  refine BitVec.eq_of_getLsbD_eq fun i hi => ?_
  rw [getLsbD_getbits _ f.len_le (by omega), BitVec.getLsbD_setWidth, BitVec.getLsbD_setWidth]
  by_cases hlen : i < f.len
  · rw [bit_read _ (by omega), writeFields, bit_writeFields_before (by omega) (by omega),
      bit_setbits_inside f.len_le (by omega) (by omega) (by omega)
        (hclear _ (by omega) (by omega)), Nat.add_sub_cancel_left]
    simp [hi, hlen]
  · simp [hlen]

lemma readFields_writeFields {fields : List FieldValue} {bitcount bits : ℕ} {regs : Regs}
    (hclear : ∀ p, bitcount ≤ p → p < 96 → regs.bit p = false)
    (hend : bitcount + totalBits fields ≤ bits) (hbits : bits ≤ 96) :
    (readFields ((writeFields fields bitcount regs).read bits) (fields.map FieldValue.len)
        bitcount).map BitVec.toNat = fields.map fun f => f.val.toNat % 2 ^ f.len := by
  induction fields generalizing bitcount regs with
  | nil => rfl
  | cons f rest ih =>
    rw [totalBits_cons] at hend
    rw [List.map_cons, readFields, List.map_cons, List.map_cons,
      getbits_writeFields hclear (by omega) hbits, writeFields,
      ih (clear_setbits hclear) (by omega)]

lemma bit_zero (p : ℕ) : (⟨0, 0, 0⟩ : Regs).bit p = false := by
  simp [Regs.bit]

/-- **Bit packing.** A row of fields of at most 96 bits, written to cleared registers, is read
back with every value modulo the length of its field; and writing a field changes no bit
outside it, whatever the registers hold. -/
theorem getbits_setbits (fields : List FieldValue) (htotal : totalBits fields ≤ 96) :
    (readFields ((writeFields fields 0 ⟨0, 0, 0⟩).read (totalBits fields))
        (fields.map FieldValue.len) 0).map BitVec.toNat
      = (fields.map fun f => f.val.toNat % 2 ^ f.len) ∧
    ∀ (regs : Regs) (f : FieldValue) (start : ℕ), start + f.len ≤ 96 →
      ∀ p < 96, p < start ∨ start + f.len ≤ p →
        (setbits regs f.val start f.len).bit p = regs.bit p :=
  ⟨readFields_writeFields (fun p _ _ => bit_zero p) (by omega) htotal,
    fun _ f _ _ _ hp hout => bit_setbits_outside f.len_le hp hout⟩

/-- Three fields, one of them in all three registers. -/
def spreadFields : List FieldValue :=
  [⟨20, 7, by decide, by decide⟩, ⟨64, ones, by decide, by decide⟩,
    ⟨12, 0x1fff, by decide, by decide⟩]

/-- The value of the last one is too long. -/
theorem getbits_setbits_spread :
    (readFields ((writeFields spreadFields 0 ⟨0, 0, 0⟩).read (totalBits spreadFields))
      (spreadFields.map FieldValue.len) 0).map BitVec.toNat = [7, 2 ^ 64 - 1, 0xfff] :=
  (getbits_setbits spreadFields (by decide)).1.trans (by decide)

end MachinekitHal.Sserial
