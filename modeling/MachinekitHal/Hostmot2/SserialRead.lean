import MachinekitHal.Hostmot2.SserialBits
import MachinekitHal.Lib.Word

/-!
The process data that is read from a smart-serial card or an absolute encoder.

* `ReadArith`: the floating-point arithmetic, and what shifts by too many bits leave.
* `InPins`, `InField`: the pins that are written, with the counter of an encoder.
* `grayDecode`, `signExtend`, `InPins.accumulate`, `InPins.index`, `InPins.count`: an encoder
  field.
* `Statics`, `readConf`: the static variables of the function, and one field.
* `readConfs`, `hm2SserialReadPins`: the fields of a channel.

Variables of 64 bits are integers that wrap.
-/

namespace MachinekitHal.Sserial

open Word

/-- The conversions to floating-point numbers, and the shifts that C does not define. -/
structure ReadArith (F : Type) where
  /-- `(buff * fullscale) / divisor` -/
  unsigned : BitVec 64 → F → BitVec 32 → F
  /-- `(buff32 / 2147483647.0) * fullscale` -/
  signed : BitVec 32 → F → F
  /-- `(double)n / fullscale` -/
  position : ℤ → F → F
  single : BitVec 32 → F
  double : BitVec 64 → F
  /-- `1 << n` -/
  undefOne : ℤ → BitVec 32
  /-- `x << n` -/
  undefShl : BitVec 64 → ℤ → BitVec 64

/-- `hm2_sserial_pins_t`: the pins of a field that is read, and its counter. -/
structure InPins (F : Type) where
  u32Pin : BitVec 32
  s32Pin : BitVec 32
  s32Pin2 : BitVec 32
  floatPin : F
  bitPins : ℕ → Bool
  bitPinsNot : ℕ → Bool
  /-- index-enable of an encoder -/
  boolean : Bool
  /-- reset of an encoder -/
  boolean2 : Bool
  fullscale : F
  /-- counts per revolution of an encoder -/
  u32Param : BitVec 32
  graycode : Bool
  oldval : ℤ
  accum : ℤ
  offset : ℤ

/-- Pins as they are created. -/
def InPins.start {F : Type} (zero fullscale : F) : InPins F where
  u32Pin := 0
  s32Pin := 0
  s32Pin2 := 0
  floatPin := zero
  bitPins _ := false
  bitPinsNot _ := false
  boolean := false
  boolean2 := false
  fullscale := fullscale
  u32Param := 256
  graycode := false
  oldval := 0
  accum := 0
  offset := 0

/-- A field with its pins. -/
abbrev InField (F : Type) := Conf × InPins F

/-- The field is read: `! (DataDir & 0x80)`. -/
def Conf.input (conf : Conf) : Bool := conf.dataDir ≠ .lbpOut

/-- `LBP_ENCODER_H`, which is not written. -/
@[match_pattern] abbrev DataType.encoderH : DataType := .other 0x18

/-- `LBP_ENCODER_L`. -/
@[match_pattern] abbrev DataType.encoderL : DataType := .other 0x28

variable {F : Type} (A : ReadArith F)

/-- `1 << n` of an `int`, and of an `unsigned`. -/
def ReadArith.one (n : ℤ) : BitVec 32 :=
  if 0 ≤ n ∧ n < 32 then (1 : BitVec 32) <<< n.toNat else A.undefOne n

/-- `x << n`. -/
def ReadArith.shl (x : BitVec 64) (n : ℤ) : BitVec 64 :=
  if 0 ≤ n ∧ n < 64 then x <<< n.toNat else A.undefShl x n

/-- Exact numbers, with some value of a division by zero. A float is not a number here. -/
def ReadArith.exact (undefOne : ℤ → BitVec 32) (undefShl : BitVec 64 → ℤ → BitVec 64)
    (undefQuot : ℚ) : ReadArith ℚ where
  unsigned buff fullscale divisor :=
    if divisor = 0 then undefQuot else buff.toNat * fullscale / divisor.toInt
  signed buff32 fullscale := buff32.toInt / 2147483647 * fullscale
  position n fullscale := n / fullscale
  single _ := 0
  double _ := 0
  undefOne := undefOne
  undefShl := undefShl

/-! ### Encoder fields -/

/-- The loop over `mask`, which is clear after 64 turns. -/
def grayLoop : ℕ → BitVec 64 → BitVec 64 → BitVec 64
  | 0, _, buff => buff
  | fuel + 1, mask, buff =>
    if mask = 0 then buff else grayLoop fuel (mask >>> 1) (buff ^^^ mask)

/-- The binary number of a Gray code. -/
def grayDecode (buff : BitVec 64) : BitVec 64 := grayLoop 64 (buff >>> 1) buff

/-- `buff`, decoded if the field is a Gray code. -/
def InPins.decoded (pin : InPins F) (buff : BitVec 64) : BitVec 64 :=
  if pin.graycode then grayDecode buff else buff

/-- `buff64`: the sign-extended field. -/
def signExtend (bitlength : ℕ) (buff : BitVec 64) : ℤ :=
  let buff64 := (A.one (bitlength - 1)).setWidth 64
  ((buff ^^^ buff64) - buff64).toInt

/-- The position, with the wraps of the field. -/
def InPins.accumulate (bitlength : ℕ) (buff64 : ℤ) (pin : InPins F) : InPins F :=
  let accum :=
    if wrapLong (buff64 - pin.oldval) > (A.one (bitlength - 2)).toInt then
      wrapLong (pin.accum - (A.one bitlength).toInt)
    else if wrapLong (pin.oldval - buff64) > (A.one (bitlength - 2)).toInt then
      wrapLong (pin.accum + (A.one bitlength).toInt)
    else pin.accum
  { pin with accum := wrapLong (accum + wrapLong (buff64 - pin.oldval)) }

/-- The remainder of `rtapi_div_s64_rem`, whose divisor is signed. -/
def divRem (dividend : ℤ) (divisor : BitVec 32) : ℤ := dividend.tmod divisor.toInt

/-- The move passes an index. -/
def indexed (ppr : BitVec 32) (rem1 rem2 : ℤ) : Prop :=
  ppr.toNat / 2 < (wrapInt (rem1 - rem2)).natAbs ∨ (0 ≤ rem1 ∧ rem2 < 0) ∨ (rem1 < 0 ∧ 0 ≤ rem2)
  deriving Decidable

/-- The position of the index. -/
def indexOffset (ppr : BitVec 32) (previous accum rem2 : ℤ) : ℤ :=
  if accum > previous then
    if accum > 0 then accum - rem2
    else if accum < 0 then accum - rem2
    else 0
  else
    if accum > 0 then wrapLong (accum - rem2 + ppr.toNat)
    else if accum < 0 then accum - rem2
    else 0

/-- Index-enable. -/
def InPins.index (previous : ℤ) (pin : InPins F) : InPins F :=
  let ppr := pin.u32Param
  if pin.boolean ∧ 0 < ppr.toNat then
    let rem1 := divRem previous ppr
    let rem2 := divRem pin.accum ppr
    if indexed ppr rem1 rem2 then
      { pin with offset := indexOffset ppr previous pin.accum rem2, boolean := false }
    else pin
  else pin

/-- The pins of the counter. -/
def InPins.publish (buff64 : ℤ) (pin : InPins F) : InPins F :=
  { pin with
    oldval := buff64
    s32Pin := BitVec.ofInt 32 (pin.accum - pin.offset)
    s32Pin2 := BitVec.ofInt 32 pin.accum
    floatPin := A.position (wrapLong (pin.accum - pin.offset)) pin.fullscale }

/-- `LBP_ENCODER`: the field as a counter of `bitlength` bits. -/
def InPins.count (bitlength : ℕ) (buff : BitVec 64) (pin : InPins F) : InPins F :=
  let buff64 := signExtend A bitlength (pin.decoded buff)
  let previous := pin.accum
  let pin := pin.accumulate A bitlength buff64
  let pin := if pin.boolean2 then { pin with offset := pin.accum } else pin
  (pin.index previous).publish A buff64

/-! ### Fields -/

/-- The static variables of the function: the "memory" for 2-part encoders. All channels share
them. -/
structure Statics where
  hFlag : ℕ
  lFlag : ℕ
  bitshift : ℕ
  buffStore : BitVec 64
  deriving DecidableEq

/-- Their initial values. -/
def Statics.start : Statics := ⟨0, 0, 1, 0⟩

/-- The high part is stored. -/
def Statics.high (len : ℕ) (buff : BitVec 64) (s : Statics) : Statics :=
  { s with hFlag := len, buffStore := s.buffStore ||| A.shl buff s.bitshift }

/-- The low part is stored. -/
def Statics.low (len : ℕ) (buff : BitVec 64) (s : Statics) : Statics :=
  { s with lFlag := len, bitshift := len, buffStore := s.buffStore ||| buff }

/-- Both parts are there: `h_flag && l_flag`. -/
def Statics.complete (s : Statics) : Bool := s.hFlag ≠ 0 && s.lFlag ≠ 0

/-- The parts are used. -/
def Statics.used (s : Statics) : Statics := { s with hFlag := 0, lFlag := 0, buffStore := 0 }

/-- One field; `none` if it uses pins that are not there. -/
def readConf (s : Statics) (conf : Conf) (pin : InPins F) (buff : BitVec 64) :
    Option (Statics × InPins F) :=
  let len := conf.dataLength
  match conf.dataType with
  | .pad => some (s, pin)
  | .bits =>
    some (s, { pin with
      bitPins := fun b => if b < len then buff.getLsbD b else pin.bitPins b
      bitPinsNot := fun b => if b < len then !buff.getLsbD b else pin.bitPinsNot b })
  | .unsigned =>
    some (s, { pin with
      floatPin := A.unsigned (pin.decoded buff) pin.fullscale (A.one len - 1) })
  | .signed =>
    let buff32 := (A.shl (buff &&& 0xFFFFFFFF) (32 - len)).setWidth 32
    some (s, { pin with floatPin := A.signed buff32 pin.fullscale })
  | .stream => some (s, { pin with u32Pin := (buff &&& ones >>> (64 - len)).setWidth 32 })
  | .boolean => some (s, { pin with boolean := buff ≠ 0, boolean2 := buff = 0 })
  | .encoderH =>
    let s := s.high A len buff
    if s.complete then some (s.used, pin.count A (s.hFlag + s.lFlag) s.buffStore)
    else some (s, pin)
  | .encoderL =>
    let s := s.low len buff
    -- a low part has no pins
    if s.complete then none else some (s, pin)
  | .encoder => some (s, pin.count A len buff)
  | .float =>
    if len = 32 then some (s, { pin with floatPin := A.single (buff.setWidth 32) })
    else if len = 64 then some (s, { pin with floatPin := A.double buff })
    else some (s, pin)
  | .other _ => some (s, pin)

/-- The fields of a channel, from the bit `bitcount` on. -/
def readConfs (regs : ReadRegs) : List (InField F) → ℕ → Statics →
    Option (Statics × List (InField F))
  | [], _, s => some (s, [])
  | (conf, pin) :: rest, bitcount, s =>
    if conf.input then do
      let (s, pin) ← readConf A s conf pin (getbits regs bitcount conf.dataLength)
      let (s, rest) ← readConfs regs rest (bitcount + conf.dataLength) s
      return (s, (conf.warned, pin) :: rest)
    else do
      let (s, rest) ← readConfs regs rest bitcount s
      return (s, (conf, pin) :: rest)

/-- `hm2_sserial_remote_t`, as far as it is read. -/
structure InRemote (F : Type) where
  status : BitVec 32
  confs : List (InField F)

/-- `hm2_sserial_read_pins`. `regCsRead` and `regs` are the registers of the channel. -/
def hm2SserialReadPins (regCsRead : BitVec 32) (regs : ReadRegs) (s : Statics)
    (chan : InRemote F) : Option (Statics × InRemote F) := do
  let (s, confs) ← readConfs A regs chan.confs 0 s
  return (s, { chan with status := regCsRead, confs := confs })

/-! ### Parts of an encoder field -/

lemma ReadArith.one_of_lt {n : ℤ} (h0 : 0 ≤ n) (hlt : n < 32) :
    A.one n = (1 : BitVec 32) <<< n.toNat :=
  if_pos ⟨h0, hlt⟩

/-- The index handling does not move the position. -/
@[simp] lemma InPins.index_accum (previous : ℤ) (pin : InPins F) :
    (pin.index previous).accum = pin.accum := by
  rw [InPins.index]
  dsimp only
  split_ifs <;> rfl

@[simp] lemma InPins.publish_accum (buff64 : ℤ) (pin : InPins F) :
    (pin.publish A buff64).accum = pin.accum := rfl

@[simp] lemma InPins.publish_oldval (buff64 : ℤ) (pin : InPins F) :
    (pin.publish A buff64).oldval = buff64 := rfl

/-- The position after a field. -/
lemma InPins.count_accum (bitlength : ℕ) (buff : BitVec 64) (pin : InPins F) :
    (pin.count A bitlength buff).accum
      = (pin.accumulate A bitlength (signExtend A bitlength (pin.decoded buff))).accum := by
  simp only [InPins.count, InPins.publish_accum, InPins.index_accum]
  split_ifs <;> rfl

section Types

variable {A} {s : Statics} {conf : Conf} {pin : InPins F} {buff : BitVec 64}

lemma readConf_unsigned (h : conf.dataType = .unsigned) : readConf A s conf pin buff =
    some (s, { pin with
      floatPin := A.unsigned (pin.decoded buff) pin.fullscale (A.one conf.dataLength - 1) }) := by
  rw [readConf, h]

lemma readConf_signed (h : conf.dataType = .signed) : readConf A s conf pin buff =
    some (s, { pin with
      floatPin := A.signed ((A.shl (buff &&& 0xFFFFFFFF) (32 - conf.dataLength)).setWidth 32)
        pin.fullscale }) := by
  rw [readConf, h]

lemma readConf_encoder (h : conf.dataType = .encoder) :
    readConf A s conf pin buff = some (s, pin.count A conf.dataLength buff) := by
  rw [readConf, h]

lemma readConf_high (h : conf.dataType = .encoderH) : readConf A s conf pin buff =
    if (s.high A conf.dataLength buff).complete then
      some ((s.high A conf.dataLength buff).used,
        pin.count A ((s.high A conf.dataLength buff).hFlag + (s.high A conf.dataLength buff).lFlag)
          (s.high A conf.dataLength buff).buffStore)
    else some (s.high A conf.dataLength buff, pin) := by
  rw [readConf, h]
  rfl

lemma readConf_low (h : conf.dataType = .encoderL) : readConf A s conf pin buff =
    if (s.low conf.dataLength buff).complete then none
    else some (s.low conf.dataLength buff, pin) := by
  rw [readConf, h]
  rfl

end Types

/-! ### Parts of a channel -/

/-- The bits that are read for some fields. -/
def numReadBits : List (InField F) → ℕ
  | [] => 0
  | (conf, _) :: rest => (if conf.input then conf.dataLength else 0) + numReadBits rest

section Fields

variable {A} {regs : ReadRegs} {s s' : Statics} {pre post fields fields' : List (InField F)}
  {conf : Conf} {pin : InPins F} {bitcount : ℕ}

lemma readConfs_length (h : readConfs A regs fields bitcount s = some (s', fields')) :
    fields'.length = fields.length := by
  induction fields generalizing bitcount s s' fields' with
  | nil =>
    cases h
    rfl
  | cons head rest ih =>
    rw [readConfs] at h
    split_ifs at h
    · obtain ⟨⟨s1, pin1⟩, -, h⟩ := Option.bind_eq_some_iff.1 h
      obtain ⟨⟨s2, rest2⟩, hrest, h⟩ := Option.bind_eq_some_iff.1 h
      cases h
      rw [List.length_cons, List.length_cons, ih hrest]
    · obtain ⟨⟨s2, rest2⟩, hrest, h⟩ := Option.bind_eq_some_iff.1 h
      cases h
      rw [List.length_cons, List.length_cons, ih hrest]

/-- The fields are read one after the other. -/
lemma readConfs_append
    (h : readConfs A regs (pre ++ post) bitcount s = some (s', fields')) :
    ∃ s1 pre' post', readConfs A regs pre bitcount s = some (s1, pre') ∧
      readConfs A regs post (bitcount + numReadBits pre) s1 = some (s', post') ∧
      fields' = pre' ++ post' := by
  induction pre generalizing bitcount s s' fields' with
  | nil => exact ⟨s, [], fields', rfl, h, rfl⟩
  | cons head rest ih =>
    obtain ⟨conf, pin⟩ := head
    rw [List.cons_append, readConfs] at h
    rw [readConfs, numReadBits]
    split_ifs at h ⊢
    · obtain ⟨⟨s1, pin1⟩, hconf, h⟩ := Option.bind_eq_some_iff.1 h
      obtain ⟨⟨s2, rest2⟩, hrest, h⟩ := Option.bind_eq_some_iff.1 h
      cases h
      obtain ⟨s3, pre', post', hpre, hpost, rfl⟩ := ih hrest
      refine ⟨s3, (conf.warned, pin1) :: pre', post', ?_, ?_, rfl⟩
      · simp [hconf, hpre]
      · rwa [← Nat.add_assoc]
    · obtain ⟨⟨s2, rest2⟩, hrest, h⟩ := Option.bind_eq_some_iff.1 h
      cases h
      obtain ⟨s3, pre', post', hpre, hpost, rfl⟩ := ih hrest
      refine ⟨s3, (conf, pin) :: pre', post', ?_, ?_, rfl⟩
      · simp [hpre]
      · rwa [Nat.zero_add]

/-- One field among the others. -/
lemma readConfs_field (hin : conf.input = true)
    (h : readConfs A regs (pre ++ (conf, pin) :: post) bitcount s = some (s', fields')) :
    ∃ s1 s2 pre' pin' post', readConfs A regs pre bitcount s = some (s1, pre') ∧
      readConf A s1 conf pin (getbits regs (bitcount + numReadBits pre) conf.dataLength)
        = some (s2, pin') ∧
      readConfs A regs post (bitcount + numReadBits pre + conf.dataLength) s2
        = some (s', post') ∧
      fields' = pre' ++ (conf.warned, pin') :: post' := by
  obtain ⟨s1, pre', rest', hpre, hrest, rfl⟩ := readConfs_append h
  rw [readConfs, if_pos hin] at hrest
  obtain ⟨⟨s2, pin'⟩, hconf, hrest⟩ := Option.bind_eq_some_iff.1 hrest
  obtain ⟨⟨s3, post'⟩, hpost, hrest⟩ := Option.bind_eq_some_iff.1 hrest
  cases hrest
  exact ⟨s1, s2, pre', pin', post', hpre, hconf, hpost, rfl⟩

/-- The same, by the index of the field. -/
lemma readConfs_getElem {i : ℕ} {conf' : Conf} {pin' : InPins F} (hin : conf.input = true)
    (h : readConfs A regs fields bitcount s = some (s', fields'))
    (hfield : fields[i]? = some (conf, pin)) (hfield' : fields'[i]? = some (conf', pin')) :
    ∃ s1 s2 buff, readConf A s1 conf pin buff = some (s2, pin') := by
  obtain ⟨hi, hget⟩ := List.getElem?_eq_some_iff.1 hfield
  have hsplit : fields = fields.take i ++ (conf, pin) :: fields.drop (i + 1) := by
    rw [← hget, List.cons_getElem_drop_succ, List.take_append_drop]
  rw [hsplit] at h
  obtain ⟨s1, s2, pre', pin2, post', hpre, hconf, -, rfl⟩ := readConfs_field hin h
  have hlen : pre'.length = i := by
    rw [readConfs_length hpre, List.length_take, Nat.min_eq_left hi.le]
  rw [List.getElem?_append_right (by omega), hlen, Nat.sub_self, List.getElem?_cons_zero]
    at hfield'
  cases hfield'
  exact ⟨s1, s2, _, hconf⟩

end Fields

end MachinekitHal.Sserial
