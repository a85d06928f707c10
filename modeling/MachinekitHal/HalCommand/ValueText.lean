import MachinekitHal.HalCommand.SetCommon
import MachinekitHal.Hal.ParamCreation
import MachinekitHal.Hal.WiringRuns
import MachinekitHal.Hal.Bumpless

/-!
`halcmd_commands.c`: `setp`, `getp`, `sets` and `gets`.

* `ValueHal`: the segment with the values of its params.
* `doSetpCmd`, `doGetpCmd`, `doSetsCmd`, `doGetsCmd`: the commands. There is no result when a
  missing component is read.
* `place`: where a command sets a value, if it is not refused.
* `RoundTrip`: what is printed sets the same value again.
* `value_text`: this holds except for the 64-bit types; and a text is stored or refused as it
  should be exactly if it is discerned.
-/

namespace MachinekitHal

open Store Numerals

/-- The place of a value. -/
inductive ValueRef where
  | param (p : ParamPtr)
  | data (ref : DataRef)

/-- The segment with the values of the params. Descriptors have their own memory, and a pin that
is not linked has no signal. -/
structure ValueHal extends ParamHal where
  paramValue : ParamPtr → HalDataU
  pinOffs : (pins.map Obj.off).Nodup
  sigOffs : (sigs.map Obj.off).Nodup
  unlinked : ∀ pin ∈ pins, pinIsLinked pin = false → pin.body.signal = 0

/-- A write through a data pointer changes the values of pins only. -/
lemma writeRef_pins {h : Hal} {ref : DataRef} {u : HalDataU} {pin : Obj Pin}
    (hp : pin ∈ (h.writeRef ref u).pins) : ∃ pin' ∈ h.pins, pin.hdr = pin'.hdr ∧
      pin.off = pin'.off ∧ pin.body = { pin'.body with dummysig := pin.body.dummysig } := by
  cases ref with
  | value off => exact ⟨pin, hp, rfl, rfl, rfl⟩
  | dummysig off =>
    obtain ⟨pin', hp', rfl⟩ := mem_modify.1 hp
    refine ⟨pin', hp', ?_⟩
    split_ifs <;> exact ⟨rfl, rfl, rfl⟩

lemma writeRef_pinOffs (h : Hal) (ref : DataRef) (u : HalDataU) :
    (h.writeRef ref u).pins.map Obj.off = h.pins.map Obj.off := by
  cases ref with
  | value off => rfl
  | dummysig off => exact keys_modify fun _ => rfl

lemma writeRef_sigOffs (h : Hal) (ref : DataRef) (u : HalDataU) :
    (h.writeRef ref u).sigs.map Obj.off = h.sigs.map Obj.off := by
  cases ref with
  | value off => exact keys_modify fun _ => rfl
  | dummysig off => rfl

namespace ValueHal

variable (s : ValueHal)

/-- `*d_ptr`. -/
def read : ValueRef → HalDataU
  | .param p => s.paramValue p
  | .data ref => s.refValue ref

/-- `*d_ptr = u`. -/
def write (ref : ValueRef) (u : HalDataU) : ValueHal :=
  match ref with
  | .param p => { s with paramValue := Function.update s.paramValue p u }
  | .data ref =>
    { s with
      toHal := s.toHal.writeRef ref u
      pinOffs := (writeRef_pinOffs s.toHal ref u).symm ▸ s.pinOffs
      sigOffs := (writeRef_sigOffs s.toHal ref u).symm ▸ s.sigOffs
      unlinked := fun pin hp hl => by
        obtain ⟨pin', hp', -, hoff, hbody⟩ := writeRef_pins hp
        rw [hbody]
        refine s.unlinked pin' hp' ?_
        rwa [pinIsLinked, hbody, hoff] at hl }

/-- `set_common` on a value in the segment. -/
def setCommonAt (ft : FloatText) (type : HalType) (ref : ValueRef) (value : CText) :
    ℤ × ValueHal :=
  let r := setCommon ft type (s.read ref) value
  (r.1, s.write ref r.2)

/-- `(pin->dir == HAL_OUT) && (comp->state != COMP_UNBOUND)`. -/
def notWritable (pin : Obj Pin) : Option Bool :=
  if pin.body.dir = .halOut then
    (s.findOwningComp pin.hdr.ownerId.toInt).map fun comp =>
      decide (comp.body.state ≠ .compUnbound)
  else some false

/-- `do_setp_cmd`. -/
def doSetpCmd (ft : FloatText) (name : String) (value : CText) : Option (ℤ × ValueHal) :=
  match findByName name s.params with
  | some param =>
    if param.body.dir = halRo then some (-Errno.EINVAL.code, s)
    else some (s.setCommonAt ft param.body.type (.param param.body.dataPtr) value)
  | none =>
    match findByName name s.pins with
    | none => some (-Errno.EINVAL.code, s)
    | some pin =>
      (s.notWritable pin).map fun refused =>
      if refused = true ∨ pinIsLinked pin = true then (-Errno.EINVAL.code, s)
      else s.setCommonAt ft pin.body.type (.data (.dummysig pin.off)) value

/-- `do_getp_cmd`, with the text it prints. -/
def doGetpCmd (ft : FloatText) (name : String) : ℤ × Option (List UInt8) :=
  match findByName name s.params with
  | some param => (0, some (dataValue2 ft param.body.type (s.paramValue param.body.dataPtr)))
  | none =>
    match findByName name s.pins with
    | none => (-Errno.EINVAL.code, none)
    | some pin => (0, some (dataValue2 ft pin.body.type (s.pinValue pin)))

/-- `do_sets_cmd`. -/
def doSetsCmd (ft : FloatText) (name : String) (value : CText) : ℤ × ValueHal :=
  match findByName name s.sigs with
  | none => (-Errno.EINVAL.code, s)
  | some sig =>
    if 0 < sig.body.writers then (-Errno.EINVAL.code, s)
    else s.setCommonAt ft sig.body.type (.data (.value sig.off)) value

/-- `do_gets_cmd`, with the text it prints. -/
def doGetsCmd (ft : FloatText) (name : String) : ℤ × Option (List UInt8) :=
  match findByName name s.sigs with
  | none => (-Errno.EINVAL.code, none)
  | some sig => (0, some (dataValue2 ft sig.body.type sig.body.value))

/-! ### Places -/

/-- The commands for params and pins, and those for signals. -/
inductive ValueCmd where
  | p | s

/-- `setp` or `sets`. -/
def doSet (ft : FloatText) (name : String) (value : CText) : ValueCmd → Option (ℤ × ValueHal)
  | .p => s.doSetpCmd ft name value
  | .s => some (s.doSetsCmd ft name value)

/-- `getp` or `gets`. -/
def doGet (ft : FloatText) (name : String) : ValueCmd → ℤ × Option (List UInt8)
  | .p => s.doGetpCmd ft name
  | .s => s.doGetsCmd ft name

/-- The type and the place of the value that a command sets, if it is not refused: the param is
not read-only, the pin is not linked, and not an output unless its component is unbound, the
signal has no writer. -/
def place (name : String) : ValueCmd → Option (HalType × ValueRef)
  | .p =>
    match findByName name s.params with
    | some param =>
      if param.body.dir = halRo then none
      else some (param.body.type, .param param.body.dataPtr)
    | none =>
      (findByName name s.pins).bind fun pin =>
      if s.notWritable pin = some false ∧ pinIsLinked pin = false then
        some (pin.body.type, .data (.dummysig pin.off))
      else none
  | .s =>
    (findByName name s.sigs).bind fun sig =>
    if 0 < sig.body.writers then none else some (sig.body.type, .data (.value sig.off))

/-- The text that is printed for a value sets it again, whatever is there then. -/
def RoundTrip (ft : FloatText) (name : String) (cmd : ValueCmd) : Prop :=
  ∀ type ref, s.place name cmd = some (type, ref) → HasRange type →
    ∃ text : CText, s.doGet ft name cmd = (0, some text.bytes) ∧
      ∀ u, ∃ s', (s.write ref u).doSet ft name text cmd = some (0, s') ∧
        valueOf type (s'.read ref) = valueOf type (s.read ref)

/-! ### Reading and writing -/

variable {s} {ref : ValueRef} {type : HalType} {name : String} {cmd : ValueCmd}
  {ft : FloatText} {text : CText}

/-- A descriptor that is found by name is found by its offset. -/
lemma pinAt_found {pin : Obj Pin} (h : findByName name s.pins = some pin) :
    s.pinAt pin.off = some pin :=
  (at?_eq_some s.pinOffs).2 ⟨List.mem_of_find?_eq_some h, rfl⟩

lemma sigAt_found {sig : Obj Sig} (h : findByName name s.sigs = some sig) :
    s.sigAt sig.off = some sig :=
  (at?_eq_some s.sigOffs).2 ⟨List.mem_of_find?_eq_some h, rfl⟩

lemma place_cases (h : s.place name cmd = some (type, ref)) :
    (∃ param, cmd = .p ∧ findByName name s.params = some param ∧ param.body.dir ≠ halRo ∧
      type = param.body.type ∧ ref = .param param.body.dataPtr) ∨
    (∃ pin, cmd = .p ∧ findByName name s.params = none ∧ findByName name s.pins = some pin ∧
      s.notWritable pin = some false ∧ pinIsLinked pin = false ∧ type = pin.body.type ∧
      ref = .data (.dummysig pin.off)) ∨
    (∃ sig, cmd = .s ∧ findByName name s.sigs = some sig ∧ ¬ 0 < sig.body.writers ∧
      type = sig.body.type ∧ ref = .data (.value sig.off)) := by
  cases cmd with
  | p =>
    rw [place] at h
    cases hparam : findByName name s.params with
    | some param =>
      rw [hparam] at h
      dsimp only at h
      split_ifs at h with hro
      cases h
      exact .inl ⟨param, rfl, rfl, hro, rfl, rfl⟩
    | none =>
      rw [hparam] at h
      obtain ⟨pin, hpin, h⟩ := Option.bind_eq_some_iff.1 h
      split_ifs at h with hok
      cases h
      exact .inr (.inl ⟨pin, rfl, rfl, hpin, hok.1, hok.2, rfl, rfl⟩)
  | s =>
    rw [place] at h
    obtain ⟨sig, hsig, h⟩ := Option.bind_eq_some_iff.1 h
    split_ifs at h with hw
    cases h
    exact .inr (.inr ⟨sig, rfl, hsig, hw, rfl, rfl⟩)

/-- At a place, the command sets the value. -/
lemma doSet_place (h : s.place name cmd = some (type, ref)) :
    s.doSet ft name text cmd = some (s.setCommonAt ft type ref text) := by
  obtain ⟨param, rfl, hparam, hro, rfl, rfl⟩ |
    ⟨pin, rfl, hparam, hpin, hw, hl, rfl, rfl⟩ | ⟨sig, rfl, hsig, hw, rfl, rfl⟩ := place_cases h
  · rw [doSet, doSetpCmd, hparam]
    exact if_neg hro
  · rw [doSet, doSetpCmd, hparam]
    dsimp only
    rw [hpin]
    dsimp only
    rw [hw, Option.map_some, if_neg (by simp [hl])]
  · rw [doSet, doSetsCmd, hsig]
    dsimp only
    rw [if_neg hw]

/-- At a place, the value is printed. -/
lemma doGet_place (h : s.place name cmd = some (type, ref)) :
    s.doGet ft name cmd = (0, some (dataValue2 ft type (s.read ref))) := by
  obtain ⟨param, rfl, hparam, hro, rfl, rfl⟩ |
    ⟨pin, rfl, hparam, hpin, hw, hl, rfl, rfl⟩ | ⟨sig, rfl, hsig, hw, rfl, rfl⟩ := place_cases h
  · rw [doGet, doGetpCmd, hparam]
    rfl
  · rw [doGet, doGetpCmd, hparam]
    dsimp only
    rw [hpin]
    dsimp only
    have hsignal := s.unlinked pin (List.mem_of_find?_eq_some hpin) hl
    rw [Hal.pinValue, if_neg (not_not.2 hsignal), read, Hal.refValue, pinAt_found hpin]
  · rw [doGet, doGetsCmd, hsig]
    dsimp only
    rw [read, Hal.refValue, sigAt_found hsig]

/-- A value that is written is read again. -/
lemma read_write (h : s.place name cmd = some (type, ref)) (u : HalDataU) :
    (s.write ref u).read ref = u := by
  obtain ⟨param, rfl, hparam, hro, rfl, rfl⟩ |
    ⟨pin, rfl, hparam, hpin, hw, hl, rfl, rfl⟩ | ⟨sig, rfl, hsig, hw, rfl, rfl⟩ := place_cases h
  · exact Function.update_self ..
  · change (s.toHal.writeRef (.dummysig pin.off) u).refValue (.dummysig pin.off) = u
    rw [Hal.writeRef, Hal.refValue, Hal.modifyPin_pinAt, pinAt_found hpin, Option.map_some,
      if_pos rfl]
  · change (s.toHal.writeRef (.value sig.off) u).refValue (.value sig.off) = u
    rw [Hal.writeRef, Hal.refValue, Hal.modifySig_sigAt, sigAt_found hsig, Option.map_some,
      if_pos rfl]

/-- A descriptor is found by its name after a write to one. -/
lemma findByName_modify {α : Type} {f : Obj α → Obj α} (hf : ∀ o, (f o).hdr = o.hdr)
    (off : ℕ) (l : List (Obj α)) : findByName name (Store.modify Obj.off off f l) =
      (findByName name l).map fun o => if o.off = off then f o else o := by
  rw [findByName, Store.modify, List.find?_map]
  congr 1
  refine congrArg (fun p => List.find? p l) (funext fun o => ?_)
  rw [Function.comp_apply]
  split_ifs with ho
  · rw [hf]
  · rfl

/-- **A write moves no place.** -/
lemma place_write (h : s.place name cmd = some (type, ref)) (u : HalDataU) :
    (s.write ref u).place name cmd = some (type, ref) := by
  obtain ⟨param, rfl, hparam, hro, rfl, rfl⟩ |
    ⟨pin, rfl, hparam, hpin, hw, hl, rfl, rfl⟩ | ⟨sig, rfl, hsig, hw, rfl, rfl⟩ := place_cases h
  · exact h
  · have hpin' : findByName name (s.write (.data (.dummysig pin.off)) u).pins =
        some { pin with body := { pin.body with dummysig := u } } := by
      change findByName name (Store.modify Obj.off pin.off _ s.pins) = _
      rw [findByName_modify (by exact fun _ => rfl), hpin, Option.map_some, if_pos rfl]
    have hparam' : findByName name (s.write (.data (.dummysig pin.off)) u).params = none := hparam
    rw [place, hparam']
    dsimp only
    rw [hpin', Option.bind_some]
    exact if_pos ⟨hw, hl⟩
  · have hsig' : findByName name (s.write (.data (.value sig.off)) u).sigs =
        some { sig with body := { sig.body with value := u } } := by
      change findByName name (Store.modify Obj.off sig.off _ s.sigs) = _
      rw [findByName_modify (by exact fun _ => rfl), hsig, Option.map_some, if_pos rfl]
    rw [place, hsig', Option.bind_some]
    exact if_neg hw

/-! ### Texts -/

/-- No number is printed with a terminator in it. -/
lemma noNul_printInt (z : ℤ) : (0 : UInt8) ∉ printInt z := by
  intro h
  obtain h | ⟨d, hd, h⟩ := mem_printInt h
  · exact absurd h (by decide)
  · interval_cases d <;> exact absurd h (by decide)

/-- A number of 32 bits is printed whole. -/
lemma take_printInt {z : ℤ} (hz : z.natAbs < 10 ^ 10) : (printInt z).take 13 = printInt z :=
  List.take_of_length_le ((length_printInt (by decide) hz).trans (by decide))

/-- A printed number sets the number. -/
lemma printInt_sets (hbit : type ≠ .halBit) {z : ℤ} (hz : ValueRange type z) :
    ∃ text : CText, text.bytes = printInt z ∧
      ∀ u, ∃ w, setCommon ft type u text = (0, w) ∧ valueOf type w = z :=
  ⟨⟨printInt z, noNul_printInt z⟩, rfl, fun _ =>
    setCommon_number hbit (numberText_printInt z) hz⟩

/-- **A printed value** sets the value. -/
lemma dataValue2_sets (hrange : HasRange type) (hs : type ≠ .halS64) (hu : type ≠ .halU64)
    (v : HalDataU) : ∃ text : CText, text.bytes = dataValue2 ft type v ∧
      ∀ u, ∃ w, setCommon ft type u text = (0, w) ∧ valueOf type w = valueOf type v := by
  obtain ⟨z, hz⟩ := hrange
  cases type with
  | halBit =>
    by_cases hv : v.extractLsb' 0 8 = 0
    · refine ⟨⟨falseText, by decide⟩, by rw [dataValue2, if_pos hv], fun u => ?_⟩
      refine ⟨_, setCommon_false (.inr (by decide)), ?_⟩
      rw [valueOf, extract_setBitValue, valueOf, if_pos hv]
      rfl
    · refine ⟨⟨trueText, by decide⟩, by rw [dataValue2, if_neg hv], fun u => ?_⟩
      refine ⟨_, setCommon_true (.inr (by decide)), ?_⟩
      rw [valueOf, extract_setBitValue, valueOf, if_neg hv]
      rfl
  | halS32 =>
    have hlo := BitVec.le_toInt (v.extractLsb' 0 32)
    have hhi := BitVec.toInt_lt (x := v.extractLsb' 0 32)
    rw [dataValue2, take_printInt (by omega)]
    exact printInt_sets (by decide) ⟨hlo, hhi⟩
  | halU32 =>
    have hlt := (v.extractLsb' 0 32).isLt
    rw [dataValue2, take_printInt (by omega)]
    exact printInt_sets (by decide) ⟨by omega, by omega⟩
  | halS64 => exact absurd rfl hs
  | halU64 => exact absurd rfl hu
  | halFloat => exact hz.elim
  | halTypeUnspecified => exact hz.elim
  | halTypeUninitialized => exact hz.elim

lemma hasRange_wide (h : type = .halS64 ∨ type = .halU64) : HasRange type := by
  obtain rfl | rfl := h
  · exact ⟨0, by simp [ValueRange]⟩
  · exact ⟨0, by simp [ValueRange]⟩

/-- The text of the 64-bit types is refused. -/
lemma setCommon_unknown (h : type = .halS64 ∨ type = .halU64) (u : HalDataU)
    (htext : text.bytes = unknownTypeText) :
    setCommon ft type u text = (-Errno.EINVAL.code, u) := by
  have hend : atEnd (numberEnd text.bytes) = false := by
    rw [htext]
    decide
  obtain ⟨hend', -⟩ | ⟨-, hset⟩ := @setCommon_rc ft type u text (hasRange_wide h) (by
    obtain rfl | rfl := h <;> decide)
  · rw [hend] at hend'
    cases hend'
  · exact hset

/-- **What is printed sets the same value** again, except for the 64-bit types. -/
lemma roundTrip_setCommon : s.RoundTrip ft name cmd ↔
    ∀ type ref, s.place name cmd = some (type, ref) → type ≠ .halS64 ∧ type ≠ .halU64 := by
  constructor
  · intro h type ref hplace
    by_contra hno
    have htype : type = .halS64 ∨ type = .halU64 := by
      by_contra hor
      exact hno (not_or.1 hor)
    obtain ⟨text, hget, hset⟩ := h type ref hplace (hasRange_wide htype)
    rw [doGet_place hplace] at hget
    have htext : text.bytes = unknownTypeText := by
      obtain rfl | rfl := htype
      · exact (Option.some.inj (Prod.mk.inj hget).2).symm
      · exact (Option.some.inj (Prod.mk.inj hget).2).symm
    obtain ⟨s', hset, -⟩ := hset 0
    rw [doSet_place (place_write hplace 0), setCommonAt, setCommon_unknown htype _ htext] at hset
    cases hset
  · intro h type ref hplace hrange
    obtain ⟨hs, hu⟩ := h type ref hplace
    obtain ⟨text, htext, hset⟩ := @dataValue2_sets type ft hrange hs hu (s.read ref)
    refine ⟨text, by rw [doGet_place hplace, htext], fun u => ?_⟩
    obtain ⟨w, hw, hvalue⟩ := hset u
    have hplace' := place_write hplace u
    refine ⟨(s.write ref u).write ref w, ?_, ?_⟩
    · rw [doSet_place hplace', setCommonAt, read_write hplace u, hw]
    · rw [read_write hplace', hvalue]

end ValueHal

/-- **The texts of values**: a printed value sets the same value exactly if its type is not one
of the 64-bit types; and a text is stored or refused as it should be exactly if the conversion
ends inside it, or it has a value of the type. -/
theorem value_text (ft : FloatText) (s : ValueHal) (name : String) (cmd : ValueHal.ValueCmd)
    {type : HalType} (hrange : HasRange type) (u : HalDataU) (text : CText) :
    (s.RoundTrip ft name cmd ↔
      ∀ type ref, s.place name cmd = some (type, ref) → type ≠ .halS64 ∧ type ≠ .halU64) ∧
    (SetsText ft type u text ↔ Discerned type text.bytes) :=
  ⟨ValueHal.roundTrip_setCommon, setsText_iff hrange⟩

/-- A component with an unlinked pin of type s64, and a signal of type s32 without writers. -/
def counterHal : ValueHal :=
  { lock := 0, halSize := 65536
    comps := [⟨48, ⟨60, 0, "counter", 0, false, true, false, false⟩, ⟨.typeUser, .compReady, 0⟩⟩]
    insts := []
    pins := [⟨56, ⟨65, 60, "counter.count", 0, false, true, false, false⟩,
      ⟨none, .dummysig 56, 0, 5, .halS64, .halIn⟩⟩]
    sigs := [⟨64, ⟨70, 0, "count", 0, false, true, false, false⟩, ⟨.halS32, 5, 0, 0, 0⟩⟩]
    functs := [], threads := [], functEntryFree := [], cells := fun _ => none
    attached := true, params := [], halerrno := 0, paramValue := fun _ => 0
    pinOffs := by simp, sigOffs := by simp, unlinked := by simp }

/-- The signal is set to what is printed for it, and an s32 to `-7`. -/
theorem value_text_signal :
    counterHal.RoundTrip ⟨fun l => ⟨0, l⟩, fun _ => []⟩ "count" .s ∧
      SetsText ⟨fun l => ⟨0, l⟩, fun _ => []⟩ .halS32 5 ⟨[45, 55], by decide⟩ := by
  have hrange : HasRange .halS32 := ⟨0, by simp [ValueRange]⟩
  have htext := value_text ⟨fun l => ⟨0, l⟩, fun _ => []⟩ counterHal "count" .s hrange 5
    ⟨[45, 55], by decide⟩
  refine ⟨htext.1.2 fun type ref hplace => ?_, htext.2.2 (.inr (.inr ⟨-7, ?_, ?_⟩))⟩
  · cases hplace
    decide
  · exact numberText_printInt (-7)
  · simp [ValueRange]

/-- The text `4294967296`. -/
def wideText : CText := ⟨[52, 50, 57, 52, 57, 54, 55, 50, 57, 54], by decide⟩

/-- An s64 pin cannot be set to what is printed for it, and the text `4294967296` sets an s32
to `0`. -/
theorem value_text_fails :
    (¬ ∀ (ft : FloatText) (s : ValueHal) name cmd, s.RoundTrip ft name cmd) ∧
    ¬ ∀ (ft : FloatText) type, HasRange type → ∀ u text, SetsText ft type u text := by
  constructor
  · intro h
    have hround := h ⟨fun l => ⟨0, l⟩, fun _ => []⟩ counterHal "counter.count" .p
    exact (ValueHal.roundTrip_setCommon.1 hround .halS64 (.data (.dummysig 56)) rfl).1 rfl
  · intro h
    have hsets := h ⟨fun l => ⟨0, l⟩, fun _ => []⟩ .halS32 ⟨0, by simp [ValueRange]⟩ 5 wideText
    obtain ⟨e, he, hset⟩ := hsets.refused fun z htext hz => by
      obtain ⟨neg, n, post, hscan, -, hval⟩ := scan_of_text htext
      have hwide : scanNumber isspace wideText.bytes = some ((false, 4294967296), []) := by decide
      rw [hwide, Option.some.injEq, Prod.mk.injEq, Prod.mk.injEq] at hscan
      obtain ⟨⟨rfl, rfl⟩, -⟩ := hscan
      rw [hval] at hz
      exact absurd hz.2 (by decide)
    have hzero : e = 0 := (Prod.mk.inj hset).1.symm
    exact absurd hzero he.ne

end MachinekitHal
