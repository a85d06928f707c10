import MachinekitHal.HalCommand.Options
import MachinekitHal.Hostmot2.Absenc

/-!
The format strings of the absolute encoders of hostmot2.

* `Conf`: the descriptor of a field.
* `Pass`, `pass`: one pass of the loop over the string.
* `hm2AbsencParseFormat`: all of them; a pass that goes on has a shorter string to go.
* `Elements`: the strings that the elements of a format make up.
* `Parses`, `Regular`, `Rejected`: what is asked of a call, and the strings for which it is so.
* `field_some`, `field_none`: what comes of a field.
-/

namespace MachinekitHal.Absenc

open Numerals

/-- `HM2_SSERIAL_MAX_STRING_LENGTH` -/
def maxStringLength : ℕ := 48

/-- `'%'` -/
def percent : UInt8 := 37

/-! ### Descriptors -/

/-- `DataType`, `ParmMin` and `ParmMax`. -/
structure Kind where
  dataType : UInt8
  parmMin : ℤ
  parmMax : ℤ
  deriving DecidableEq

/-- `hm2_sserial_data_t`; `kind` is missing until the type is known. -/
structure Conf where
  recordType : UInt8
  dataLength : UInt8
  kind : Option Kind
  dataDir : UInt8
  parmAddr : ℤ
  unitString : List UInt8
  nameString : List UInt8
  deriving DecidableEq

/-- The letters of the types, from `LBP_BOOLEAN` to `LBP_ENCODER_L`. -/
def kindOf (c : UInt8) : Option Kind :=
  match Char.ofNat c.toNat with
  | 'b' | 'B' => some ⟨0x07, 0, 0⟩
  | 'u' | 'U' => some ⟨0x02, 0, 1⟩
  | 's' | 'S' => some ⟨0x03, -1, 1⟩
  | 'f' | 'F' => some ⟨0x01, 0, 0⟩
  | 'p' | 'P' => some ⟨0x00, 0, 0⟩
  | 'e' | 'E' => some ⟨0x08, 0, 1⟩
  | 'h' | 'H' => some ⟨0x18, 0, 1⟩
  | 'l' | 'L' => some ⟨0x28, 0, 1⟩
  | _ => none

/-- `'g'` and `'G'`. -/
def isGray (c : UInt8) : Bool := c == 103 || c == 71

/-- The letters among which `strchr` looks. -/
def specifiers : List UInt8 := ascii "bBuUsSeEfFpPgGhHlL"

/-- `UnitString`. -/
def unitText (gray : Bool) : List UInt8 := ascii (if gray then "gray" else "none")

/-! ### The loop -/

/-- What comes of a call: it returns with these descriptors, it writes behind the end of the name
buffer, or it reads behind the end of the string. -/
inductive Outcome where
  | ret (r : ℤ) (confs : List Conf)
  | overflow
  | beyond
  deriving DecidableEq

/-- A pass ends the call, or goes on with the rest of the string. -/
inductive Pass where
  | ends (outcome : Outcome)
  | goes (text name : List UInt8) (confs : List Conf)

/-- `q`. -/
def intOf (number : Converted) : BitVec 32 := number.value.setWidth 32

/-- A descriptor, but for the type. -/
def newConf (name : List UInt8) (number : Converted) (gray : Bool) : Conf where
  recordType := 0xA0
  dataLength := ⟨number.value.setWidth 8⟩
  kind := none
  dataDir := 0x00
  parmAddr := 0
  unitString := unitText gray
  nameString := name

/-- The pass at a `'%'`, from the number behind it. Behind a length of 0 a character is skipped,
which may be the end of the string. `strchr` finds the end of the string too. -/
def field (name : List UInt8) (confs : List Conf) (number : Converted) : Pass :=
  if intOf number = 0 then
    match number.rest with
    | [] => .ends .beyond
    | _ :: text => .goes text [] confs
  else if number.rest.head?.all (specifiers.contains ·) then
    let gray := number.rest.head?.any isGray
    let text := if gray then number.rest.tail else number.rest
    let conf := newConf name number gray
    match text.head?.bind kindOf with
    | none => .ends (.ret (-Errno.EINVAL.code) (confs ++ [conf]))
    | some kind => .goes text.tail [] (confs ++ [{ conf with kind := some kind }])
  else .ends (.ret (-Errno.EINVAL.code) confs)

/-- One pass. The string is what is in front of its end. -/
def pass (text name : List UInt8) (confs : List Conf) : Pass :=
  match text with
  | [] => .ends (.ret 0 confs)
  | c :: text =>
    if c = percent then field name confs (strtoll text)
    else if name.length < maxStringLength then .goes text (name ++ [c]) confs
    else .ends .overflow

lemma length_strtoll_le (text : List UInt8) : (strtoll text).rest.length ≤ text.length := by
  rw [strtoll_rest, numberEnd]
  cases hscan : Numerals.scanNumber isspace text with
  | none => exact le_rfl
  | some found => exact length_scanNumber_le hscan

/-- A pass that goes on comes closer to the end. -/
lemma pass_shorter {text name text' name' : List UInt8} {confs confs' : List Conf}
    (h : pass text name confs = .goes text' name' confs') : text'.length < text.length := by
  cases text with
  | nil => cases h
  | cons c text =>
    rw [pass] at h
    split_ifs at h with hc hroom
    · have hrest := length_strtoll_le text
      refine Nat.lt_succ_of_le (le_trans ?_ hrest)
      rw [field] at h
      split_ifs at h with hint hset
      · cases hnumber : (strtoll text).rest with
        | nil =>
          rw [hnumber] at h
          cases h
        | cons d rest =>
          rw [hnumber] at h
          cases h
          exact Nat.le_succ _
      · dsimp only at h
        split at h
        · cases h
        · cases h
          refine (List.tail_suffix _).length_le.trans ?_
          split_ifs
          · exact (List.tail_suffix _).length_le
          · exact le_rfl
    · cases h
      exact Nat.lt_succ_self _

/-- The passes from one on. -/
def parseFrom (text name : List UInt8) (confs : List Conf) : Outcome :=
  match h : pass text name confs with
  | .ends outcome => outcome
  | .goes text' name' confs' =>
    have := pass_shorter h
    parseFrom text' name' confs'
termination_by text.length

/-- The alias on Fanuc channels, which `strncmp` looks for. -/
def aa64 : List UInt8 :=
  ascii "%5pbatt_fail%1b%2ppos_invalid%1b%9plow%16l%2pencoder%16h%2pcomm%10u%7pcrc%5u"

/-- The string that is parsed. -/
def formatOf (myinst : Gtag) (string : List UInt8) : List UInt8 :=
  if myinst = .fabs ∧ string.take 4 = ascii "AA64" then aa64 else string

/-- `hm2_absenc_parse_format`. -/
def hm2AbsencParseFormat (myinst : Gtag) (string : List UInt8) (confs : List Conf) : Outcome :=
  parseFrom (formatOf myinst string) [] confs

/-! ### Formats -/

/-- An element of a format. -/
structure Element where
  name : List UInt8
  length : ℕ
  gray : Bool
  kind : Kind

/-- The specifier behind a length: whether the value is in gray code, its kind, and the rest. -/
def specifier : List UInt8 → Option ((Bool × Kind) × List UInt8)
  | [] => none
  | c :: text =>
    if isGray c then (text.head?.bind kindOf).map fun kind => ((true, kind), text.tail)
    else (kindOf c).map fun kind => ((false, kind), text)

/-- A string is made up of these elements and the text behind the last of them. An element is a
name without a `'%'` that fits the buffer, the `'%'`, a positive number and a specifier. -/
inductive Elements : List UInt8 → List Element → List UInt8 → Prop
  | text {trail : List UInt8} (htrail : percent ∉ trail) : Elements trail [] trail
  | element {name number text rest trail : List UInt8} {n : ℕ} {gray : Bool} {kind : Kind}
      {es : List Element} (hname : percent ∉ name) (hfits : name.length ≤ maxStringLength)
      (hnumber : Numerals.scanNumber isspace number = some ((false, n), text)) (hpos : 0 < n)
      (hspecifier : specifier text = some ((gray, kind), rest)) (hrest : Elements rest es trail) :
      Elements (name ++ percent :: number) (⟨name, n, gray, kind⟩ :: es) trail

/-- The descriptor of an element. -/
structure Describes (e : Element) (conf : Conf) : Prop where
  name : conf.nameString = e.name
  length : conf.dataLength.toNat = e.length
  gray : conf.unitString = unitText e.gray
  kind : conf.kind = some e.kind

/-- The call returns, and that with 0 exactly if the string is made up of elements; it has then
appended their descriptors. -/
def Parses (text : List UInt8) (confs : List Conf) (outcome : Outcome) : Prop :=
  ∃ r new, outcome = .ret r (confs ++ new) ∧
    ((∃ es trail, Elements text es trail) → r = 0) ∧
    (r = 0 → ∃ es trail, Elements text es trail ∧ List.Forall₂ Describes es new)

/-- A string of elements whose lengths fit a byte, with a text behind them that fits the buffer. -/
def Regular (text : List UInt8) : Prop :=
  ∃ es trail, Elements text es trail ∧ (∀ e ∈ es, e.length < 256) ∧
    trail.length ≤ maxStringLength

/-- A string with a length that has no specifier, and names in front of it that fit, the first one
with so many characters. Behind a length of 0 one character is passed over. -/
inductive Rejected : ℕ → List UInt8 → Prop
  | malformed {room : ℕ} {name number : List UInt8} (hname : percent ∉ name)
      (hfits : name.length ≤ room) (hint : intOf (strtoll number) ≠ 0)
      (hspecifier : specifier (strtoll number).rest = none) :
      Rejected room (name ++ percent :: number)
  | behind {room : ℕ} {name number rest : List UInt8} {gray : Bool} {kind : Kind}
      (hname : percent ∉ name) (hfits : name.length ≤ room)
      (hint : intOf (strtoll number) ≠ 0)
      (hspecifier : specifier (strtoll number).rest = some ((gray, kind), rest))
      (hrest : Rejected maxStringLength rest) : Rejected room (name ++ percent :: number)
  | skipped {room : ℕ} {name number rest : List UInt8} {c : UInt8} (hname : percent ∉ name)
      (hfits : name.length ≤ room) (hint : intOf (strtoll number) = 0)
      (hskip : (strtoll number).rest = c :: rest) (hrest : Rejected maxStringLength rest) :
      Rejected room (name ++ percent :: number)

/-! ### Fields -/

lemma ofNat_char (c : UInt8) : UInt8.ofNat (Char.ofNat c.toNat).toNat = c := by
  have hvalid : c.toNat.isValidChar := .inl (c.toNat_lt.trans (by decide))
  have hchar : (Char.ofNat c.toNat).toNat = c.toNat := by
    rw [Char.ofNat, dif_pos hvalid]
    rfl
  rw [hchar, UInt8.ofNat_toNat]

/-- `strchr` finds the letters of the types. -/
lemma kindOf_specifiers {c : UInt8} (h : (kindOf c).isSome = true) : c ∈ specifiers := by
  rw [kindOf] at h
  rw [← ofNat_char c]
  split at h
  case h_17 => cases h
  all_goals
    rename_i hc
    rw [hc]
    decide

lemma isGray_specifiers {c : UInt8} (h : isGray c = true) : c ∈ specifiers := by
  rcases Bool.or_eq_true_iff.1 h with hc | hc
  · rw [beq_iff_eq.1 hc]
    decide
  · rw [beq_iff_eq.1 hc]
    decide

variable {name rest : List UInt8} {confs : List Conf} {number : Converted} {gray : Bool}
  {kind : Kind}

/-- A field with a specifier. -/
lemma field_some (hint : intOf number ≠ 0)
    (h : specifier number.rest = some ((gray, kind), rest)) : field name confs number
      = .goes rest [] (confs ++ [{ newConf name number gray with kind := some kind }]) := by
  rw [field, if_neg hint]
  cases htext : number.rest with
  | nil =>
    rw [htext] at h
    cases h
  | cons c text =>
    rw [htext, specifier] at h
    rw [List.head?_cons, Option.any_some, Option.all_some]
    cases hgray : isGray c with
    | true =>
      rw [hgray, if_pos rfl] at h
      obtain ⟨k, hk, hrest⟩ := Option.map_eq_some_iff.1 h
      cases hrest
      rw [if_pos (List.contains_iff_mem.2 (isGray_specifiers hgray))]
      dsimp only
      rw [if_pos rfl, List.tail_cons, hk]
    | false =>
      rw [hgray, if_neg Bool.false_ne_true] at h
      obtain ⟨k, hk, hrest⟩ := Option.map_eq_some_iff.1 h
      cases hrest
      have hset := kindOf_specifiers (Option.isSome_iff_exists.2 ⟨_, hk⟩)
      rw [if_pos (List.contains_iff_mem.2 hset)]
      dsimp only
      rw [if_neg Bool.false_ne_true, List.head?_cons, Option.bind_some, hk]
      rfl

lemma field_none (hint : intOf number ≠ 0) (h : specifier number.rest = none) :
    ∃ new, field name confs number = .ends (.ret (-Errno.EINVAL.code) (confs ++ new)) := by
  rw [field, if_neg hint]
  split_ifs with hset
  · cases htext : number.rest with
    | nil => exact ⟨[newConf name number false], rfl⟩
    | cons c text =>
      rw [htext, specifier] at h
      rw [List.head?_cons, Option.any_some]
      cases hgray : isGray c with
      | true =>
        rw [hgray, if_pos rfl] at h
        refine ⟨[newConf name number true], ?_⟩
        dsimp only
        rw [if_pos rfl, List.tail_cons, Option.map_eq_none_iff.1 h]
      | false =>
        rw [hgray, if_neg Bool.false_ne_true] at h
        refine ⟨[newConf name number false], ?_⟩
        dsimp only
        rw [if_neg Bool.false_ne_true, List.head?_cons, Option.bind_some,
          Option.map_eq_none_iff.1 h]
  · exact ⟨[], by rw [List.append_nil]⟩

end MachinekitHal.Absenc
