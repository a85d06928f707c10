import MachinekitHal.Hal.Data

/-!
`hal_priv.h`, `halpb.hh`: values by type, and as a message carries them.

* `getBitValue`, `get32Value`: the getters, with what the setters leave in them.
* `toPb`: the value in a message; `halPin2pb` and `halSig2pb` set it.
-/

namespace MachinekitHal

/-- `get_bit_value`. -/
def getBitValue (u : HalDataU) : HalDataU := (u.extractLsb' 0 8).setWidth 64

/-- `get_s32_value`, `get_u32_value`. -/
def get32Value (u : HalDataU) : HalDataU := (u.extractLsb' 0 32).setWidth 64

@[simp] lemma getBitValue_set (u v : HalDataU) : getBitValue (setBitValue u v) = getBitValue v := by
  have hlow : (setBitValue u v).extractLsb' 0 8 = v.extractLsb' 0 8 :=
    (BitVec.extractLsb'_append_eq_of_add_le (by decide)).trans BitVec.extractLsb'_eq_self
  rw [getBitValue, getBitValue, hlow]

@[simp] lemma get32Value_set (u v : HalDataU) : get32Value (set32Value u v) = get32Value v := by
  have hlow : (set32Value u v).extractLsb' 0 32 = v.extractLsb' 0 32 :=
    (BitVec.extractLsb'_append_eq_of_add_le (by decide)).trans BitVec.extractLsb'_eq_self
  rw [get32Value, get32Value, hlow]

/-- The value a message carries for a type; there is no field for the others. -/
def toPb (type : HalType) (u : HalDataU) : Option HalDataU :=
  match type with
  | .halBit => some (getBitValue u)
  | .halFloat => some u
  | .halS32 | .halU32 => some (get32Value u)
  | _ => none

/-- Whether a type has a field depends on the type only. -/
lemma toPb_isSome (type : HalType) (u v : HalDataU) :
    (toPb type u).isSome = (toPb type v).isSome := by
  cases type <;> rfl

/-- `hal_pin2pb`. -/
def halPin2pb (type : HalType) (u : HalDataU) : Option HalDataU := toPb type u

/-- `hal_sig2pb`. -/
def halSig2pb (type : HalType) (u : HalDataU) : Option HalDataU := toPb type u

end MachinekitHal
