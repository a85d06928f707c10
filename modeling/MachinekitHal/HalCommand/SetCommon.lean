import MachinekitHal.HalCommand.Tokenize
import MachinekitHal.Hal.Values
import MachinekitHal.Lib.Numerals

/-!
`halcmd_commands.c`: the texts of values.

* `strtoll`, `strtoull`: the conversions; `long` has 64 bits too.
* `setCommon`, `dataValue2`: a value from its text, and the text of a value.
* `valueOf`: the number or truth value in the memory of a pin, param or signal.
* `ValueText`: the texts of a value.
* `SetsText`: the value of a text is stored, and no other.
-/

namespace MachinekitHal

open Numerals

/-- What a conversion returns, and the text at the end pointer. -/
structure Converted where
  value : BitVec 64
  rest : List UInt8

/-- `strtol` and `strtoll` with base `0`. Without a number, the end pointer is the text. -/
def strtoll (text : List UInt8) : Converted :=
  match scanNumber isspace text with
  | none => ⟨0, text⟩
  | some ((neg, n), rest) =>
    ⟨BitVec.ofInt 64 (max (-2 ^ 63) (min (2 ^ 63 - 1) (signed neg n))), rest⟩

/-- `strtoul` and `strtoull` with base `0`. -/
def strtoull (text : List UInt8) : Converted :=
  match scanNumber isspace text with
  | none => ⟨0, text⟩
  | some ((neg, n), rest) =>
    ⟨if 2 ^ 64 ≤ n then BitVec.ofInt 64 (2 ^ 64 - 1) else BitVec.ofInt 64 (signed neg n), rest⟩

/-- `strtod`, and `"%.7g"`. -/
structure FloatText where
  strtod : List UInt8 → Converted
  print : HalDataU → List UInt8

/-- `*cp == '\0' || isspace(*cp)`. -/
def atEnd (rest : List UInt8) : Bool := rest.head?.all isspace

/-- A character in lower case. -/
def lower (c : UInt8) : UInt8 := if 65 ≤ c ∧ c ≤ 90 then c + 32 else c

/-- `strcasecmp` finds no difference. -/
def sameText (a b : List UInt8) : Bool := a.map lower == b.map lower

/-- `"TRUE"`. -/
def trueText : List UInt8 := [84, 82, 85, 69]

/-- `"FALSE"`. -/
def falseText : List UInt8 := [70, 65, 76, 83, 69]

/-- A converted value is stored if the text ends with it, or a blank is next. -/
def storeConverted (c : Converted) (u w : HalDataU) : ℤ × HalDataU :=
  if atEnd c.rest then (0, w) else (-Errno.EINVAL.code, u)

/-- `set_common` on the value `u`. -/
def setCommon (ft : FloatText) (type : HalType) (u : HalDataU) (value : CText) : ℤ × HalDataU :=
  match type with
  | .halBit =>
    if value.bytes = [49] ∨ sameText trueText value.bytes then (0, setBitValue u 1)
    else if value.bytes = [48] ∨ sameText falseText value.bytes then (0, setBitValue u 0)
    else (-Errno.EINVAL.code, u)
  | .halFloat =>
    let c := ft.strtod value.bytes
    storeConverted c u c.value
  | .halS32 =>
    let c := strtoll value.bytes
    storeConverted c u (set32Value u c.value)
  | .halU32 =>
    let c := strtoull value.bytes
    storeConverted c u (set32Value u c.value)
  | .halS64 =>
    let c := strtoll value.bytes
    storeConverted c u c.value
  | .halU64 =>
    let c := strtoull value.bytes
    storeConverted c u c.value
  | _ => (-Errno.EINVAL.code, u)

/-- `"unknown_type"`. -/
def unknownTypeText : List UInt8 := [117, 110, 107, 110, 111, 119, 110, 95, 116, 121, 112, 101]

/-- `data_value2`. The buffer holds 13 characters, and there is no case for the 64-bit types. -/
def dataValue2 (ft : FloatText) (type : HalType) (u : HalDataU) : List UInt8 :=
  match type with
  | .halBit => if u.extractLsb' 0 8 = 0 then falseText else trueText
  | .halFloat => (ft.print u).take 13
  | .halS32 => (printInt (u.extractLsb' 0 32).toInt).take 13
  | .halU32 => (printInt (u.extractLsb' 0 32).toNat).take 13
  | _ => unknownTypeText

/-! ### Values and their texts -/

/-- The integers of a type, and the truth values as `0` and `1`. -/
def ValueRange : HalType → ℤ → Prop
  | .halBit, z => z = 0 ∨ z = 1
  | .halS32, z => -2 ^ 31 ≤ z ∧ z < 2 ^ 31
  | .halU32, z => 0 ≤ z ∧ z < 2 ^ 32
  | .halS64, z => -2 ^ 63 ≤ z ∧ z < 2 ^ 63
  | .halU64, z => 0 ≤ z ∧ z < 2 ^ 64
  | _, _ => False

/-- The value of a type in 64 bits of memory. -/
def valueOf (type : HalType) (u : HalDataU) : ℤ :=
  match type with
  | .halBit => if u.extractLsb' 0 8 = 0 then 0 else 1
  | .halS32 => (u.extractLsb' 0 32).toInt
  | .halU32 => (u.extractLsb' 0 32).toNat
  | .halS64 => u.toInt
  | _ => u.toNat

/-- The types with a range. -/
def HasRange (type : HalType) : Prop := ∃ z, ValueRange type z

/-- The texts of a value: a number, or for a bit `0`, `1`, `TRUE` or `FALSE`. -/
def ValueText (type : HalType) (text : List UInt8) (z : ℤ) : Prop :=
  if type = .halBit then
    (text = [49] ∨ sameText trueText text) ∧ z = 1 ∨
    (text = [48] ∨ sameText falseText text) ∧ z = 0
  else NumberText isspace text z

/-- A text that has a value of the type stores it; another text is refused, and leaves the old
value. -/
structure SetsText (ft : FloatText) (type : HalType) (u : HalDataU) (text : CText) : Prop where
  stored : ∀ z, ValueText type text.bytes z → ValueRange type z →
    ∃ w, setCommon ft type u text = (0, w) ∧ valueOf type w = z
  refused : (∀ z, ValueText type text.bytes z → ¬ ValueRange type z) →
    ∃ e < 0, setCommon ft type u text = (e, u)

/-- Where the conversions end. -/
def numberEnd (text : List UInt8) : List UInt8 := (scanNumber isspace text).elim text Prod.snd

/-- The conversion ends inside the text, or the text has a value of the type. -/
def Discerned (type : HalType) (text : List UInt8) : Prop :=
  type = .halBit ∨ atEnd (numberEnd text) = false ∨
    ∃ z, NumberText isspace text z ∧ ValueRange type z

section Conversion

variable {ft : FloatText} {type : HalType} {u w : HalDataU} {text : CText} {z : ℤ} {n : ℕ}
  {neg : Bool}

lemma strtoll_rest (l : List UInt8) : (strtoll l).rest = numberEnd l := by
  rw [strtoll, numberEnd]
  cases scanNumber isspace l <;> rfl

lemma strtoull_rest (l : List UInt8) : (strtoull l).rest = numberEnd l := by
  rw [strtoull, numberEnd]
  cases scanNumber isspace l <;> rfl

/-- No blank is a digit or a sign. -/
lemma isspace_blank (c : UInt8) (h : isspace c = true) :
    digitVal c = none ∧ c ≠ 43 ∧ c ≠ 45 := by
  have hc : c = 32 ∨ (9 ≤ c ∧ c ≤ 13) := by simpa [isspace] using h
  refine ⟨?_, ?_, ?_⟩
  · unfold digitVal
    rw [if_neg, if_neg, if_neg] <;> intro hd <;> obtain rfl | hc := hc <;> revert hd <;> grind
  · rintro rfl
    exact absurd h (by decide)
  · rintro rfl
    exact absurd h (by decide)

/-- The number of a text, and the blanks behind it. -/
lemma scan_of_text (h : NumberText isspace text.bytes z) : ∃ neg n post,
    scanNumber isspace text.bytes = some ((neg, n), post) ∧ atEnd post = true ∧
      z = signed neg n := by
  obtain ⟨neg, n, post, hscan, hpost, hz⟩ := scanNumber_text isspace_blank h
  refine ⟨neg, n, post, hscan, ?_, hz⟩
  cases post with
  | nil => rfl
  | cons c post => exact hpost c (by simp)

lemma atEnd_of_text (h : NumberText isspace text.bytes z) :
    atEnd (numberEnd text.bytes) = true := by
  obtain ⟨neg, n, post, hscan, hend, -⟩ := scan_of_text h
  rw [numberEnd, hscan]
  exact hend

lemma strtoll_of_text (h : NumberText isspace text.bytes z) (hlo : -2 ^ 63 ≤ z)
    (hhi : z < 2 ^ 63) : (strtoll text.bytes).value = BitVec.ofInt 64 z := by
  obtain ⟨neg, n, post, hscan, -, rfl⟩ := scan_of_text h
  rw [strtoll, hscan]
  dsimp only
  rw [min_eq_right (by omega), max_eq_right hlo]

lemma strtoull_of_text (h : NumberText isspace text.bytes z) (hlo : 0 ≤ z) (hhi : z < 2 ^ 64) :
    (strtoull text.bytes).value = BitVec.ofInt 64 z := by
  obtain ⟨neg, n, post, hscan, -, rfl⟩ := scan_of_text h
  have hn : n < 2 ^ 64 := by
    unfold signed at hlo hhi
    split_ifs at hlo hhi <;> omega
  rw [strtoull, hscan]
  dsimp only
  rw [if_neg (by omega)]

/-- The low four bytes are those of the value that is stored. -/
lemma extract_set32Value (u v : HalDataU) :
    (set32Value u v).extractLsb' 0 32 = v.extractLsb' 0 32 :=
  (BitVec.extractLsb'_append_eq_of_add_le (by decide)).trans BitVec.extractLsb'_eq_self

lemma extract_setBitValue (u v : HalDataU) :
    (setBitValue u v).extractLsb' 0 8 = v.extractLsb' 0 8 :=
  (BitVec.extractLsb'_append_eq_of_add_le (by decide)).trans BitVec.extractLsb'_eq_self

lemma extract_ofInt (z : ℤ) : (BitVec.ofInt 64 z).extractLsb' 0 32 = BitVec.ofInt 32 z := by
  apply BitVec.eq_of_toNat_eq
  rw [BitVec.extractLsb'_toNat, BitVec.toNat_ofInt, BitVec.toNat_ofInt, Nat.shiftRight_zero]
  omega

lemma storeConverted_end {c : Converted} (h : atEnd c.rest = true) (u w : HalDataU) :
    storeConverted c u w = (0, w) :=
  if_pos h

/-- **A number in the range** of the type is stored. -/
lemma setCommon_number (hbit : type ≠ .halBit) (h : NumberText isspace text.bytes z)
    (hz : ValueRange type z) : ∃ w, setCommon ft type u text = (0, w) ∧ valueOf type w = z := by
  have hend := atEnd_of_text h
  cases type with
  | halBit => exact absurd rfl hbit
  | halS32 =>
    obtain ⟨hlo, hhi⟩ := hz
    refine ⟨_, storeConverted_end (strtoll_rest _ ▸ hend) u
      (set32Value u (strtoll text.bytes).value), ?_⟩
    rw [valueOf, extract_set32Value, strtoll_of_text h (by omega) (by omega), extract_ofInt,
      BitVec.toInt_ofInt_eq_self (by decide) hlo hhi]
  | halU32 =>
    obtain ⟨hlo, hhi⟩ := hz
    refine ⟨_, storeConverted_end (strtoull_rest _ ▸ hend) u
      (set32Value u (strtoull text.bytes).value), ?_⟩
    rw [valueOf, extract_set32Value, strtoull_of_text h hlo (by omega), extract_ofInt,
      BitVec.toNat_ofInt]
    omega
  | halS64 =>
    obtain ⟨hlo, hhi⟩ := hz
    refine ⟨_, storeConverted_end (strtoll_rest _ ▸ hend) u (strtoll text.bytes).value, ?_⟩
    rw [valueOf, strtoll_of_text h hlo hhi, BitVec.toInt_ofInt_eq_self (by decide) hlo hhi]
  | halU64 =>
    obtain ⟨hlo, hhi⟩ := hz
    refine ⟨_, storeConverted_end (strtoull_rest _ ▸ hend) u (strtoull text.bytes).value, ?_⟩
    change ((strtoull text.bytes).value.toNat : ℤ) = z
    rw [strtoull_of_text h hlo hhi, BitVec.toNat_ofInt]
    omega
  | halFloat => exact hz.elim
  | halTypeUnspecified => exact hz.elim
  | halTypeUninitialized => exact hz.elim

/-- What the code returns for the integer types. -/
lemma setCommon_rc (hrange : HasRange type) (hbit : type ≠ .halBit) :
    (atEnd (numberEnd text.bytes) = true ∧ (setCommon ft type u text).1 = 0) ∨
      (atEnd (numberEnd text.bytes) = false ∧
        setCommon ft type u text = (-Errno.EINVAL.code, u)) := by
  obtain ⟨z, hz⟩ := hrange
  have hstore : ∀ c w, c.rest = numberEnd text.bytes →
      (atEnd (numberEnd text.bytes) = true ∧ (storeConverted c u w).1 = 0) ∨
      (atEnd (numberEnd text.bytes) = false ∧
        storeConverted c u w = (-Errno.EINVAL.code, u)) := by
    intro c w hc
    rw [storeConverted, hc]
    cases atEnd (numberEnd text.bytes) with
    | true => exact .inl ⟨rfl, rfl⟩
    | false => exact .inr ⟨rfl, rfl⟩
  cases type with
  | halBit => exact absurd rfl hbit
  | halS32 => exact hstore _ _ (strtoll_rest _)
  | halU32 => exact hstore _ _ (strtoull_rest _)
  | halS64 => exact hstore _ _ (strtoll_rest _)
  | halU64 => exact hstore _ _ (strtoull_rest _)
  | halFloat => exact hz.elim
  | halTypeUnspecified => exact hz.elim
  | halTypeUninitialized => exact hz.elim

/-- The texts of `1`. -/
def IsTrue (text : List UInt8) : Prop := text = [49] ∨ sameText trueText text = true

/-- The texts of `0`. -/
def IsFalse (text : List UInt8) : Prop := text = [48] ∨ sameText falseText text = true

lemma isTrue_not_isFalse {l : List UInt8} (ht : IsTrue l) (hf : IsFalse l) : False := by
  obtain rfl | ht := ht
  · obtain hf | hf := hf
    · exact absurd hf (by decide)
    · exact absurd hf (by decide)
  · obtain rfl | hf := hf
    · exact absurd ht (by decide)
    · have heq : trueText.map lower = falseText.map lower :=
        (beq_iff_eq.1 ht).trans (beq_iff_eq.1 hf).symm
      exact absurd heq (by decide)

lemma setCommon_true (h : IsTrue text.bytes) :
    setCommon ft .halBit u text = (0, setBitValue u 1) :=
  if_pos h

lemma setCommon_false (h : IsFalse text.bytes) :
    setCommon ft .halBit u text = (0, setBitValue u 0) :=
  (if_neg fun ht => isTrue_not_isFalse ht h).trans (if_pos h)

lemma setCommon_noBit (ht : ¬ IsTrue text.bytes) (hf : ¬ IsFalse text.bytes) :
    setCommon ft .halBit u text = (-Errno.EINVAL.code, u) :=
  (if_neg ht).trans (if_neg hf)

lemma setsText_bit : SetsText ft .halBit u text := by
  have htext : ∀ z, ValueText .halBit text.bytes z ↔
      IsTrue text.bytes ∧ z = 1 ∨ IsFalse text.bytes ∧ z = 0 := fun z => by
    rw [ValueText, if_pos rfl]
    rfl
  refine ⟨fun z ht _ => ?_, fun hno => ?_⟩
  · obtain ⟨h, rfl⟩ | ⟨h, rfl⟩ := (htext z).1 ht
    · exact ⟨_, setCommon_true h, by rw [valueOf, extract_setBitValue]; rfl⟩
    · exact ⟨_, setCommon_false h, by rw [valueOf, extract_setBitValue]; rfl⟩
  · refine ⟨_, by decide, setCommon_noBit (fun h => ?_) fun h => ?_⟩
    · exact hno 1 ((htext 1).2 (.inl ⟨h, rfl⟩)) (.inr rfl)
    · exact hno 0 ((htext 0).2 (.inr ⟨h, rfl⟩)) (.inl rfl)

/-- **A text is stored or refused** as it should be exactly if it is discerned. -/
lemma setsText_iff (hrange : HasRange type) :
    SetsText ft type u text ↔ Discerned type text.bytes := by
  by_cases hbit : type = .halBit
  · subst hbit
    exact ⟨fun _ => .inl rfl, fun _ => setsText_bit⟩
  have hvalue : ∀ z, ValueText type text.bytes z ↔ NumberText isspace text.bytes z :=
    fun z => by rw [ValueText, if_neg hbit]
  constructor
  · intro h
    obtain ⟨hend, hrc⟩ | ⟨hend, -⟩ := @setCommon_rc ft type u text hrange hbit
    · refine .inr (.inr ?_)
      by_contra hno
      obtain ⟨e, he, hset⟩ := h.refused fun z ht hz => hno ⟨z, (hvalue z).1 ht, hz⟩
      rw [hset] at hrc
      exact absurd hrc he.ne
    · exact .inr (.inl hend)
  · rintro (hb | hend | ⟨z, htext, hz⟩)
    · exact absurd hb hbit
    · obtain ⟨hend', -⟩ | ⟨-, hset⟩ := @setCommon_rc ft type u text hrange hbit
      · rw [hend] at hend'
        cases hend'
      refine ⟨fun z ht _ => ?_, fun _ => ⟨_, by decide, hset⟩⟩
      rw [atEnd_of_text ((hvalue z).1 ht)] at hend
      cases hend
    · refine ⟨fun z' ht hz' => setCommon_number hbit ((hvalue z').1 ht) hz', fun hno => ?_⟩
      exact absurd hz (hno z ((hvalue z).2 htext))

end Conversion

end MachinekitHal
