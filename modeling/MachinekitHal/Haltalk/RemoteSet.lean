import MachinekitHal.Hal.SignalLinkage
import MachinekitHal.Hal.Values

/-!
`haltalk_command.cc`, `halpb.hh`: pins and signals set by message.

A set request lists pins and signals, each by handle or by name. Handles are looked up in
the `items` of the server, which hold the pins and signals described to a client so far.
A name has its object described, which adds it to the items, and sets nothing. Of the
reply, the messages in it that describe objects are given as these objects.

* `PbObject`, `SetRequest`: the request.
* `Htself`: the server; `describePinByName`, `describeSignalByName` describe an object.
* `pinEntry`, `signalEntry`, `processSet`: what the request does.
* `drives`: whether a pin entry writes to a signal; `drivers` are the entries that do.
* `process_set_respects_writers`: a signal with a writer is written by these only.
-/

namespace MachinekitHal

open Store

/-- `machinetalk::ValueType`. -/
inductive ValueType where
  | halBit | halFloat | halS32 | halU32 | halS64 | halU64 | string | bytes | int32 | uint32
  | int64 | uint64 | double | bool | cartesian | legacyCartesian | pose | legacyPose
  deriving DecidableEq

/-- The number of a type in a message. -/
def ValueType.code : ValueType → ℤ
  | .halBit => 1
  | .halFloat => 2
  | .halS32 => 3
  | .halU32 => 4
  | .halS64 => 5
  | .halU64 => 6
  | .string => 7
  | .bytes => 8
  | .int32 => 20
  | .uint32 => 30
  | .int64 => 40
  | .uint64 => 50
  | .double => 60
  | .bool => 80
  | .cartesian => 100
  | .legacyCartesian => 110
  | .pose => 120
  | .legacyPose => 130

/-- The number of a `hal_type_t`. -/
def HalType.code : HalType → ℤ
  | .halTypeUnspecified => -1
  | .halTypeUninitialized => 0
  | .halBit => 1
  | .halFloat => 2
  | .halS32 => 3
  | .halU32 => 4
  | .halS64 => 5
  | .halU64 => 6

/-- The fields of `machinetalk::Pin` and `machinetalk::Signal` a set request is read for. -/
structure PbObject where
  type : Option ValueType
  name : Option String
  handle : Option UInt32
  halbit : Option Bool
  halfloat : Option (BitVec 64)
  hals32 : Option (BitVec 32)
  halu32 : Option (BitVec 32)

/-- `machinetalk::Pin`. -/
abbrev PbPin := PbObject

/-- `machinetalk::Signal`. -/
abbrev PbSignal := PbObject

namespace PbObject

variable (p : PbObject)

/-- Whether a value is present, of whatever type. -/
def hasValue : Bool :=
  p.halfloat.isSome || p.halbit.isSome || p.halu32.isSome || p.hals32.isSome

/-- The handle, an `int` in the server. -/
def handleInt : Option ℤ := p.handle.map fun n => n.toInt32.toInt

/-- The assignment of the value by the type of the message. A field that is missing reads
as its default. -/
def toU (u : HalDataU) : Option HalDataU :=
  match p.type.getD .halBit with
  | .halBit => some (setBitValue u (if p.halbit.getD false then 1 else 0))
  | .halFloat => some (p.halfloat.getD 0)
  | .halS32 => some (set32Value u ((p.hals32.getD 0).setWidth 64))
  | .halU32 => some (set32Value u ((p.halu32.getD 0).setWidth 64))
  | _ => none

/-- The value after the assignment, if there is a case for the type. -/
def write (u : HalDataU) : HalDataU := (p.toU u).getD u

end PbObject

/-- `hal_pbpin2u`. -/
def halPbpin2u (p : PbPin) (u : HalDataU) : Option HalDataU := p.toU u

/-- `hal_pbsig2u`. -/
def halPbsig2u (s : PbSignal) (u : HalDataU) : Option HalDataU := s.toU u

/-- A set request. -/
structure SetRequest where
  pin : List PbPin
  signal : List PbSignal
  replyRequired : Option Bool

/-- The container types of the replies. -/
inductive SetReply where
  | mtHalrcompSetReject | mtHalrcommandSetReject | mtHalrcompAck | mtHalrcommandAck
  deriving DecidableEq

/-- An entry of the items: an object by its type and offset. -/
inductive HaltalkItem where
  | pin (off : ℕ)
  | signal (off : ℕ)
  deriving DecidableEq

/-- What a set request uses of `htself_t`: the HAL, the items and the reply `tx`. An object
is described with its value. `aborted` says that an assertion failed. -/
structure Htself where
  hal : Hal
  items : ℤ → Option HaltalkItem
  note : List String
  pin : List (Obj Pin × HalDataU)
  signal : List (Obj Sig × Option HalDataU)
  aborted : Bool

/-- Write to the value behind a pin, `*pin_value(pin)`. -/
def Hal.setPinValue (h : Hal) (pin : Obj Pin) (v : HalDataU) : Hal :=
  if pin.body.signal ≠ 0 then h.modifySig pin.body.signal fun g => { g with value := v }
  else h.modifyPin pin.off fun p => { p with dummysig := v }

/-- The signal with another value. -/
def Obj.withValue (sig : Obj Sig) (v : HalDataU) : Obj Sig :=
  { sig with body := { sig.body with value := v } }

namespace Htself

variable (s : Htself)

/-- `note_printf`, the text before it is cut to the size of its buffer. -/
def notePrintf (text : String) : Htself := { s with note := s.note ++ [text] }

/-- Add an item if the handle is not yet present. -/
def addItem (handle : ℤ) (item : HaltalkItem) : Htself :=
  if (s.items handle).isSome then s
  else { s with items := Function.update s.items handle (some item) }

/-- `describe_pin_by_name`. -/
def describePinByName (name : String) : Htself :=
  match findByName name s.hal.pins with
  | none => s.notePrintf s!"no such pin: '{name}'"
  | some hp =>
    let s := s.addItem hp.hdr.id.toInt (.pin hp.off)
    match halPin2pb hp.body.type (s.hal.pinValue hp) with
    | some v => { s with pin := s.pin ++ [(hp, v)] }
    -- assert(hal_pin2pb(pin, pbpin) == 0)
    | none => { s with aborted := true }

/-- `describe_signal_by_name`. -/
def describeSignalByName (name : String) : Htself :=
  match findByName name s.hal.sigs with
  | none => s.notePrintf s!"no such signal: '{name}'"
  | some hs =>
    let s := s.addItem hs.hdr.id.toInt (.signal hs.off)
    { s with signal := s.signal ++ [(hs, halSig2pb hs.body.type hs.body.value)] }

/-- A pin entry by handle. The type of an object that has been freed is not valid. -/
def setPin (halrcomp : Bool) (p : PbPin) (type : ValueType) (handle : ℤ) : Htself :=
  match s.items handle with
  | none => s.notePrintf s!"no such handle: {handle}"
  | some (.signal _) =>
    s.notePrintf s!"handle type mismatch - not a pin: handle={handle} type=SIGNAL"
  | some (.pin off) =>
  match s.hal.pinAt off with
  | none => s.notePrintf s!"handle type mismatch - not a pin: handle={handle} type=**invalid**"
  | some pin =>
  let name := pin.hdr.name
  let pb := type.code
  let hal := pin.body.type.code
  if halrcomp ∧ pin.body.dir = .halIn then
    s.notePrintf s!"HALrcomp cant write a HAL_IN pin: handle={handle} name={name}"
  else if ¬halrcomp ∧ pin.body.dir = .halOut then
    s.notePrintf s!"HALrcommand: cant set an HAL_OUT pin: handle={handle} name={name}"
  else if hal ≠ pb then
    s.notePrintf s!"pin type mismatch: pb={pb}/hal={hal}, handle={handle} name={name}"
  else
  match halPbpin2u p (s.hal.pinValue pin) with
  | none => s.notePrintf s!"bad pin type {pb} name={name}"
  | some v => { s with hal := s.hal.setPinValue pin v }

/-- One pin of the request. -/
def pinEntry (halrcomp : Bool) (p : PbPin) : Htself :=
  if s.aborted then s else
  let handle := p.handleInt.getD 0
  match p.type with
  | none => s.notePrintf s!"type missing in pin: handle={handle}"
  | some type =>
  if !p.hasValue then s.notePrintf s!"value missing in pin: handle={handle}" else
  match p.handleInt, p.name with
  | some handle, _ => s.setPin halrcomp p type handle
  -- no handle given, try slow path via name, and add item
  | none, none => s.notePrintf "pin: no name and no handle!"
  | none, some name => s.describePinByName name

/-- A signal entry by handle. -/
def setSignal (p : PbSignal) (type : ValueType) (handle : ℤ) : Htself :=
  match s.items handle with
  | none => s.notePrintf s!"no such handle: {handle}"
  | some (.pin _) =>
    s.notePrintf s!"handle type mismatch - not a signal: handle={handle} type=PIN"
  | some (.signal off) =>
  match s.hal.sigAt off with
  | none =>
    s.notePrintf s!"handle type mismatch - not a signal: handle={handle} type=**invalid**"
  | some sig =>
  let name := sig.hdr.name
  let pb := type.code
  let hal := sig.body.type.code
  let writers := sig.body.writers
  if hal ≠ pb then
    s.notePrintf s!"signal type mismatch: pb={pb}/hal={hal}, handle={handle} name={name}"
  else if 0 < writers then
    s.notePrintf s!"cannot update signal '{name}'  - {writers} output pin(s) linked"
  else
  match halPbsig2u p sig.body.value with
  | none => s.notePrintf s!"bad signal type {pb} name={name}"
  | some v => { s with hal := s.hal.modifySig off fun g => { g with value := v } }

/-- One signal of the request. -/
def signalEntry (p : PbSignal) : Htself :=
  if s.aborted then s else
  let handle := p.handleInt.getD 0
  match p.type with
  | none => s.notePrintf s!"type missing in signal: handle={handle}"
  | some type =>
  if !p.hasValue then s.notePrintf s!"value missing in signal: handle={handle}" else
  match p.handleInt, p.name with
  | some handle, _ => s.setSignal p type handle
  -- no handle given, try slow path via name, and add item
  | none, none => s.notePrintf "signal: no name and no handle!"
  | none, some name => s.describeSignalByName name

/-- The server after all entries of the request. -/
def setEntries (halrcomp : Bool) (rx : SetRequest) : Htself :=
  rx.signal.foldl signalEntry (rx.pin.foldl (fun s p => s.pinEntry halrcomp p) s)

/-- The reply to a set request, if one is sent. -/
def setReply (halrcomp : Bool) (rx : SetRequest) : Option SetReply :=
  if s.aborted then none
  else if s.note ≠ [] then
    some (if halrcomp then .mtHalrcompSetReject else .mtHalrcommandSetReject)
  else if rx.replyRequired = some true then
    some (if halrcomp then .mtHalrcompAck else .mtHalrcommandAck)
  else none

/-- `process_set`, for `MT_HALRCOMP_SET` if `halrcomp` and else for
`MT_HALRCOMMAND_SET`. -/
def processSet (halrcomp : Bool) (rx : SetRequest) : Option SetReply × Htself :=
  let s := s.setEntries halrcomp rx
  (s.setReply halrcomp rx, s)

/-! ### The writes of an entry -/

/-- The direction of the pins that a request does not write: a remote component must not
write its inputs, and a command must not write outputs. -/
def unwritable (halrcomp : Bool) : HalPinDir := if halrcomp then .halIn else .halOut

/-- A pin entry writes to the signal at `off`: it gives a value and the handle of a pin of
its type that is linked to the signal and may be written. -/
def drives (halrcomp : Bool) (off : ℕ) (p : PbPin) : Bool :=
  match p.type, p.handleInt.bind s.items with
  | some type, some (.pin o) =>
    !s.aborted && p.hasValue && (s.hal.pinAt o).any fun pin =>
      pin.body.signal ≠ 0 && pin.body.signal == off && pin.body.dir ≠ unwritable halrcomp &&
        pin.body.type.code == type.code
  | _, _ => false

/-- The entries of a list of pins that write to the signal at `off`, each in the server that
the entries before it leave. -/
def drivers (halrcomp : Bool) (off : ℕ) : Htself → List PbPin → List PbPin
  | _, [] => []
  | s, p :: ps =>
    (if s.drives halrcomp off p then [p] else []) ++
      drivers halrcomp off (s.pinEntry halrcomp p) ps

end Htself

variable {h : Hal} {s : Htself} {off : ℕ} {sig : Obj Sig}

/-- A write behind a pin, read back in a signal. -/
lemma Hal.setPinValue_sigAt (pin : Obj Pin) (v : HalDataU) :
    (h.setPinValue pin v).sigAt off =
      if pin.body.signal ≠ 0 ∧ pin.body.signal = off then (h.sigAt off).map (·.withValue v)
      else h.sigAt off := by
  by_cases h0 : pin.body.signal = 0
  · simp [Hal.setPinValue, h0, Hal.sigAt, Hal.modifyPin]
  · rw [Hal.setPinValue, if_pos h0, Hal.modifySig_sigAt]
    simp [h0, Obj.withValue]

namespace Htself

@[simp] lemma notePrintf_hal (text : String) : (s.notePrintf text).hal = s.hal := rfl

@[simp] lemma addItem_hal (handle : ℤ) (item : HaltalkItem) :
    (s.addItem handle item).hal = s.hal := by
  rw [addItem]
  split <;> rfl

@[simp] lemma addItem_note (handle : ℤ) (item : HaltalkItem) :
    (s.addItem handle item).note = s.note := by
  rw [addItem]
  split <;> rfl

/-- Describing a pin writes nothing. -/
@[simp] lemma describePinByName_hal (name : String) : (s.describePinByName name).hal = s.hal := by
  rw [describePinByName]
  split
  · rfl
  · next hp _ =>
      dsimp only
      split <;> simp

/-- Describing a signal writes nothing. -/
@[simp] lemma describeSignalByName_hal (name : String) :
    (s.describeSignalByName name).hal = s.hal := by
  rw [describeSignalByName]
  split
  · rfl
  · simp

/-- A pin entry by handle, of a pin that is there. -/
lemma drives_pin {halrcomp : Bool} {p : PbPin} {type : ValueType} {handle : ℤ} {o : ℕ}
    {pin : Obj Pin} (ha : s.aborted = false) (ht : p.type = some type) (hv : p.hasValue = true)
    (hh : p.handleInt = some handle) (hi : s.items handle = some (.pin o))
    (hp : s.hal.pinAt o = some pin) :
    s.drives halrcomp off p = true ↔ (pin.body.signal ≠ 0 ∧ pin.body.signal = off) ∧
      pin.body.dir ≠ unwritable halrcomp ∧ pin.body.type.code = type.code := by
  simp [drives, ht, hh, hi, hp, ha, hv, and_assoc]

/-- The checks on the direction. -/
lemma unwritable_iff (halrcomp : Bool) (dir : HalPinDir) :
    dir = unwritable halrcomp ↔
      halrcomp = true ∧ dir = .halIn ∨ ¬halrcomp = true ∧ dir = .halOut := by
  cases halrcomp <;> simp [unwritable]

/-- A pin entry by handle changes the signal at `off` exactly if it drives it. -/
lemma setPin_sigAt {halrcomp : Bool} {p : PbPin} {type : ValueType} {handle : ℤ}
    (ha : s.aborted = false) (ht : p.type = some type) (hv : p.hasValue = true)
    (hh : p.handleInt = some handle) :
    (s.setPin halrcomp p type handle).hal.sigAt off =
      if s.drives halrcomp off p then
        (s.hal.sigAt off).map fun g => g.withValue (p.write g.body.value)
      else s.hal.sigAt off := by
  cases hi : s.items handle with
  | none => simp [setPin, drives, ht, hh, hi]
  | some item =>
  cases item with
  | signal o => simp [setPin, drives, ht, hh, hi]
  | pin o =>
  cases hp : s.hal.pinAt o with
  | none => simp [setPin, drives, ht, hh, hi, hp]
  | some pin =>
  have hd : s.drives halrcomp off p = true ↔ _ := drives_pin ha ht hv hh hi hp
  simp only [setPin, hi, hp]
  split
  · next hin =>
      have hun := (unwritable_iff halrcomp pin.body.dir).2 (.inl hin)
      rw [if_neg fun h => (hd.1 h).2.1 hun, notePrintf_hal]
  next hin =>
  split
  · next hout =>
      have hun := (unwritable_iff halrcomp pin.body.dir).2 (.inr hout)
      rw [if_neg fun h => (hd.1 h).2.1 hun, notePrintf_hal]
  next hout =>
  have hdir : pin.body.dir ≠ unwritable halrcomp := fun h =>
    ((unwritable_iff halrcomp pin.body.dir).1 h).elim hin hout
  split
  · next hty => rw [if_neg fun h => hty (hd.1 h).2.2, notePrintf_hal]
  next hty =>
  have hiff : s.drives halrcomp off p = true ↔ pin.body.signal ≠ 0 ∧ pin.body.signal = off := by
    rw [hd]
    exact and_iff_left ⟨hdir, not_not.1 hty⟩
  -- the value behind a linked pin is that of its signal
  have hval : ∀ g, pin.body.signal ≠ 0 ∧ pin.body.signal = off → s.hal.sigAt off = some g →
      s.hal.pinValue pin = g.body.value := by
    rintro g ⟨h0, rfl⟩ hg
    simp [Hal.pinValue, h0, hg]
  cases hw : halPbpin2u p (s.hal.pinValue pin) with
  | none =>
    simp only [notePrintf_hal]
    split_ifs with h
    · cases hg : s.hal.sigAt off with
      | none => rfl
      | some g =>
        rw [hval g (hiff.1 h) hg, halPbpin2u] at hw
        simp [PbObject.write, hw, Obj.withValue]
    · rfl
  | some v =>
    simp only [Hal.setPinValue_sigAt, ← hiff]
    split_ifs with h
    · cases hg : s.hal.sigAt off with
      | none => rfl
      | some g =>
        rw [hval g (hiff.1 h) hg, halPbpin2u] at hw
        simp [PbObject.write, hw]
    · rfl

/-- A pin entry changes the signal at `off` exactly if it drives it. -/
lemma pinEntry_sigAt (halrcomp : Bool) (p : PbPin) :
    (s.pinEntry halrcomp p).hal.sigAt off =
      if s.drives halrcomp off p then
        (s.hal.sigAt off).map fun g => g.withValue (p.write g.body.value)
      else s.hal.sigAt off := by
  cases ha : s.aborted with
  | true =>
    have hd : s.drives halrcomp off p = false := by
      rw [drives]
      split <;> simp [ha]
    simp [pinEntry, ha, hd]
  | false =>
  cases ht : p.type with
  | none => simp [pinEntry, drives, ha, ht]
  | some type =>
  cases hv : p.hasValue with
  | false =>
    have hd : s.drives halrcomp off p = false := by
      rw [drives]
      split <;> simp [hv]
    simp [pinEntry, ha, ht, hv, hd]
  | true =>
  cases hh : p.handleInt with
  | some handle =>
    rw [← setPin_sigAt ha ht hv hh]
    simp [pinEntry, ha, ht, hv, hh]
  | none =>
    cases hn : p.name <;> simp [pinEntry, drives, ha, ht, hv, hh, hn]

/-- All pin entries: the signal at `off` has the values of those that drive it written to
it, in their order. -/
lemma pinEntries_sigAt (halrcomp : Bool) (ps : List PbPin) (hsig : s.hal.sigAt off = some sig) :
    (ps.foldl (fun s p => s.pinEntry halrcomp p) s).hal.sigAt off =
      some (sig.withValue
        ((drivers halrcomp off s ps).foldl (fun v p => p.write v) sig.body.value)) := by
  induction ps generalizing s sig with
  | nil => exact hsig
  | cons p ps ih =>
    have hstep := @pinEntry_sigAt s off halrcomp p
    rw [List.foldl_cons, drivers, List.foldl_append]
    rw [hsig] at hstep
    split_ifs at hstep ⊢ with hd
    · exact ih hstep
    · exact ih hstep

/-- A signal entry leaves a signal with a writer alone. -/
lemma signalEntry_sigAt (p : PbSignal) (hsig : s.hal.sigAt off = some sig)
    (hw : 0 < sig.body.writers) : (s.signalEntry p).hal.sigAt off = some sig := by
  rw [signalEntry]
  split
  · exact hsig
  split
  · exact hsig
  split
  · exact hsig
  next type _ _ =>
  split
  · next handle _ _ =>
      rw [setSignal]
      split
      · exact hsig
      · exact hsig
      next off' _ =>
      split
      · exact hsig
      next sig' hsig' =>
      dsimp only
      split
      · exact hsig
      split
      · exact hsig
      next hw' =>
      split
      · exact hsig
      · have hne : off' ≠ off := by
          rintro rfl
          rw [hsig] at hsig'
          exact hw' (Option.some.inj hsig' ▸ hw)
        simpa only [Hal.modifySig_sigAt, if_neg hne] using hsig
  · exact hsig
  · simpa using hsig

/-- All signal entries leave a signal with a writer alone. -/
lemma signalEntries_sigAt (ps : List PbSignal) (hsig : s.hal.sigAt off = some sig)
    (hw : 0 < sig.body.writers) : (ps.foldl signalEntry s).hal.sigAt off = some sig := by
  induction ps generalizing s with
  | nil => exact hsig
  | cons p ps ih => exact ih (signalEntry_sigAt p hsig hw)

/-- What a set request does to a signal with a writer. -/
lemma setEntries_sigAt (halrcomp : Bool) (rx : SetRequest) (hsig : s.hal.sigAt off = some sig)
    (hw : 0 < sig.body.writers) :
    (s.setEntries halrcomp rx).hal.sigAt off =
      some (sig.withValue
        ((drivers halrcomp off s rx.pin).foldl (fun v p => p.write v) sig.body.value)) :=
  signalEntries_sigAt rx.signal (pinEntries_sigAt halrcomp rx.pin hsig) hw

/-- **Sets respect writers.** A signal with a writer is left alone by the signals of a
request and by its entries by name. It is unchanged if no pin entry has the handle of a pin
linked to it that the request may write; and after a set by a remote component, which may
write its output pins, it has the values of these entries written to it. -/
theorem process_set_respects_writers (halrcomp : Bool) (rx : SetRequest)
    (hsig : s.hal.sigAt off = some sig) (hw : 0 < sig.body.writers) :
    (drivers halrcomp off s rx.pin = [] →
      (s.processSet halrcomp rx).2.hal.sigAt off = some sig) ∧
    (halrcomp = true → (s.processSet halrcomp rx).2.hal.sigAt off = some (sig.withValue
      ((drivers true off s rx.pin).foldl (fun v p => p.write v) sig.body.value))) := by
  have hset := setEntries_sigAt halrcomp rx hsig hw
  refine ⟨fun hno => ?_, fun hr => ?_⟩
  · rw [hno] at hset
    exact hset
  · subst hr
    exact hset

end Htself

open Runs

/-- A HAL with a remote component. -/
def remoteComp : Hal :=
  { oneComp with
    comps := [⟨64, ⟨1, 0, "panel", 0, false, true, false, false⟩, ⟨.typeRemote, .compBound, 0⟩⟩] }

/-- An output and an input pin of the component are linked to one signal. -/
def panelWires : List LinkAct :=
  [.pinNew (some ⟨128, 2⟩) .halS32 .halOut none 1 7 "panel.out",
    .pinNew (some ⟨256, 3⟩) .halS32 .halIn none 1 0 "panel.in",
    .signalNew (some ⟨384, 4⟩) "sig" .halS32, .link "panel.out" "sig", .link "panel.in" "sig"]

/-- A server that has described both pins and the signal. -/
def panelServer : Htself :=
  { hal := (run linkStep linkOwnCell remoteComp panelWires).getD remoteComp
    items := fun n => if n = 2 then some (.pin 128) else if n = 3 then some (.pin 256)
      else if n = 4 then some (.signal 384) else none
    note := [], pin := [], signal := [], aborted := false }

/-- The request to set the `HAL_S32` object with a handle to 9. -/
def setS32 (handle : UInt32) : PbObject :=
  { type := some .halS32, name := none, handle := some handle, halbit := none, halfloat := none
    hals32 := some 9, halu32 := none }

/-- A command to set the signal and the output pin is rejected. -/
theorem process_set_respects_writers_panel :
    (panelServer.hal.sigAt 384).map (fun g => (g.body.value, g.body.writers)) = some (7, 1) ∧
    ((panelServer.processSet false ⟨[setS32 2], [setS32 4], none⟩).2.hal.sigAt 384).map
      (fun g => g.body.value) = some 7 := by
  have hv : (panelServer.hal.sigAt 384).map (fun g => (g.body.value, g.body.writers))
      = some (7, 1) := by decide
  obtain ⟨sig, hsig, hsv⟩ := Option.map_eq_some_iff.mp hv
  obtain ⟨hval, hwr⟩ := Prod.mk.inj hsv
  have hno : Htself.drivers false 384 panelServer [setS32 2] = [] := by decide
  have hset := (Htself.process_set_respects_writers false ⟨[setS32 2], [setS32 4], none⟩ hsig
    (by omega)).1 hno
  rw [hset, Option.map_some, hval]
  exact ⟨hv, rfl⟩

/-- A signal with a writer is changed through an output pin of a remote component, and by a
command through an input pin. -/
theorem process_set_respects_writers_linked : ∃ s : Htself, ∃ sig : Obj Sig,
    s.hal.sigAt 384 = some sig ∧ 0 < sig.body.writers ∧ sig.body.value = 7 ∧
    ((s.processSet true ⟨[setS32 2], [], none⟩).2.hal.sigAt 384).map (fun g => g.body.value)
      = some 9 ∧
    ((s.processSet false ⟨[setS32 3], [], none⟩).2.hal.sigAt 384).map (fun g => g.body.value)
      = some 9 := by
  have hv : (panelServer.hal.sigAt 384).map (fun g => (g.body.value, g.body.writers))
      = some (7, 1) := by decide
  obtain ⟨sig, hsig, hsv⟩ := Option.map_eq_some_iff.mp hv
  obtain ⟨hval, hwr⟩ := Prod.mk.inj hsv
  exact ⟨panelServer, sig, hsig, by omega, hval, by decide, by decide⟩

end MachinekitHal
