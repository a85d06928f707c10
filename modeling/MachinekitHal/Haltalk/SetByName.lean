import MachinekitHal.Lib.Folds
import MachinekitHal.Hal.Bumpless
import MachinekitHal.Haltalk.RemoteSet

/-!
What a set request without a reject has set.

A handle sets the pin or signal the server has for it, a name sets nothing.

* `SetEntry`, `Htself.doEntry`: the entries of a request, pins and then signals, in one list.
* `SetTarget`: what an entry addresses; `SetEntry.Written`: its value is there after its turn,
  whatever was there before; `SetEntry.NameAsHandle`: a name does what the handle does.
* `SetEntry.Named`: the entry has a value and the name of an object, but no handle.
* `SetEntry.place`: where an entry that is not refused writes; `doEntry_cases`: all it can do.
* `remote_set_applies`: a request without a reject has been applied and names do what handles do,
  exactly if no entry is named, and the values and handles of the entries are good.
-/

namespace MachinekitHal

open Store Runs Folds

/-! ### Entries and what they address -/

/-- The kinds of entries; pins are set for a remote component or by a command. -/
inductive EntryKind where
  | pin (halrcomp : Bool)
  | signal

/-- An entry of a request. -/
structure SetEntry where
  kind : EntryKind
  msg : PbObject

/-- The entries of a request in the order in which they are worked. -/
def SetRequest.entries (rx : SetRequest) (halrcomp : Bool) : List SetEntry :=
  rx.pin.map (⟨.pin halrcomp, ·⟩) ++ rx.signal.map (⟨.signal, ·⟩)

/-- The work on one entry. -/
def Htself.doEntry (s : Htself) (e : SetEntry) : Htself :=
  match e.kind with
  | .pin halrcomp => s.pinEntry halrcomp e.msg
  | .signal => s.signalEntry e.msg

/-- The value of a message, in the field of its type. -/
def PbObject.value (p : PbObject) : Option HalDataU :=
  match p.type with
  | some .halBit => p.halbit.map fun b => if b then 1 else 0
  | some .halFloat => p.halfloat
  | some .halS32 => p.hals32.map fun n => n.setWidth 64
  | some .halU32 => p.halu32.map fun n => n.setWidth 64
  | _ => none

/-- Whether the assignment has a case for the type of a message. -/
def PbObject.hasCase (p : PbObject) : Bool := (p.toU 0).isSome

/-- A pin or signal as an entry addresses it. -/
structure SetTarget where
  handle : Int16
  item : HaltalkItem
  type : HalType
  ref : DataRef

/-- A pin, with the value read through its data pointer. -/
def Obj.pinTarget (pin : Obj Pin) : SetTarget :=
  ⟨pin.hdr.id, .pin pin.off, pin.body.type, pin.body.dataPtr⟩

/-- A signal. -/
def Obj.sigTarget (sig : Obj Sig) : SetTarget :=
  ⟨sig.hdr.id, .signal sig.off, sig.body.type, .value sig.off⟩

/-- The value read there, by the getter of the type. -/
def Hal.readTarget (h : Hal) (t : SetTarget) : HalDataU := typedValue t.type (h.refValue t.ref)

/-- A valid object with the handle. -/
def Halhdr.hasHandle (hh : Halhdr) (handle : ℤ) : Bool := hh.valid && hh.id.toInt == handle

/-- The value that `pin_value` designates. -/
def Obj.pinRef (pin : Obj Pin) : DataRef :=
  if pin.body.signal ≠ 0 then .value pin.body.signal else .dummysig pin.off

/-- The checks on the object of a handle; its type, and the place of its value. -/
def EntryKind.settable (h : Hal) (type : ValueType) (item : HaltalkItem) :
    EntryKind → Option (HalType × DataRef)
  | .pin halrcomp =>
    match item with
    | .pin off =>
      ((h.pinAt off).filter fun pin =>
        pin.body.dir ≠ Htself.unwritable halrcomp && pin.body.type.code == type.code).map
        fun pin => (pin.body.type, pin.pinRef)
    | .signal _ => none
  | .signal =>
    match item with
    | .signal off =>
      ((h.sigAt off).filter fun sig =>
        sig.body.type.code == type.code && decide (sig.body.writers ≤ 0)).map
        fun sig => (sig.body.type, .value sig.off)
    | .pin _ => none

/-- The object of a name. -/
def EntryKind.byName (h : Hal) (name : String) : EntryKind → Option SetTarget
  | .pin _ => (findByName name h.pins).map Obj.pinTarget
  | .signal => (findByName name h.sigs).map Obj.sigTarget

namespace Htself

variable (s : Htself)

/-- The object of a handle, as far as the server has the object for it that has it. -/
def byHandle (handle : ℤ) : EntryKind → Option SetTarget
  | .pin _ =>
    match s.items handle with
    | some (.pin off) =>
      ((s.hal.pinAt off).filter fun pin => pin.hdr.hasHandle handle).map Obj.pinTarget
    | _ => none
  | .signal =>
    match s.items handle with
    | some (.signal off) =>
      ((s.hal.sigAt off).filter fun sig => sig.hdr.hasHandle handle).map Obj.sigTarget
    | _ => none

/-- The server with another value in a place. -/
def hold (ref : DataRef) (u : HalDataU) : Htself := { s with hal := s.hal.writeRef ref u }

/-- The server with a target among its items. -/
def knows (t : SetTarget) : Htself :=
  { s with items := Function.update s.items t.handle.toInt (some t.item) }

/-- The request is answered without a reject, or not answered because no reply is required. -/
def Accepts (halrcomp : Bool) (rx : SetRequest) : Prop :=
  (s.processSet halrcomp rx).2.aborted = false ∧
    (s.processSet halrcomp rx).1 ≠ some .mtHalrcompSetReject ∧
    (s.processSet halrcomp rx).1 ≠ some .mtHalrcommandSetReject

end Htself

/-- Two ways to go on from a state have the same effect on the HAL, and refuse the same. -/
structure SameEffect (s t t' : Htself) : Prop where
  hal : t.hal = t'.hal
  refused : t.note = s.note ↔ t'.note = s.note
  aborted : t.aborted = t'.aborted

namespace SetEntry

variable (e : SetEntry) (s : Htself)

/-- The object an entry addresses, by handle and else by name. -/
def addressed : Option SetTarget :=
  match e.msg.handleInt with
  | some handle => s.byHandle handle e.kind
  | none => e.msg.name.bind fun name => e.kind.byName s.hal name

/-- The value of the entry is written at its turn: whatever was there, it is read there after. -/
def Written : Prop :=
  ∃ t v, e.addressed s = some t ∧ e.msg.value = some v ∧
    ∀ u, ((s.hold t.ref u).doEntry e).hal.readTarget t = v

/-- The entry with a handle. -/
def withHandle (handle : Int16) : SetEntry :=
  { e with msg := { e.msg with handle := some handle.toInt32.toUInt32 } }

/-- If the entry has a name and no handle, it does what the entry with the handle does in a
server that has the object, whatever its value. -/
def NameAsHandle : Prop :=
  ∀ name t, e.msg.handle = none → e.msg.name = some name → e.kind.byName s.hal name = some t →
    ∀ u, SameEffect (s.hold t.ref u) ((s.hold t.ref u).doEntry e)
      (((s.hold t.ref u).knows t).doEntry (e.withHandle t.handle))

/-- The entry gives a type and a value, and the name of an object instead of a handle. -/
def Named : Prop :=
  e.msg.type.isSome = true ∧ e.msg.hasValue = true ∧ e.msg.handle = none ∧
    ∃ name, e.msg.name = some name ∧ (e.kind.byName s.hal name).isSome = true

/-- The type and the place of the value that the entry may write: it gives a type, a value, and
the handle of an item that may be set. -/
def place : Option (HalType × DataRef) :=
  match e.msg.type, e.msg.handleInt.bind s.items with
  | some type, some item =>
    if e.msg.hasValue = true ∧ e.msg.hasCase = true then e.kind.settable s.hal type item
    else none
  | _, _ => none

/-- The value is in the field of the type, and the object is there that has the handle. -/
def Current : Prop := e.msg.value.isSome = true ∧ (e.addressed s).isSome = true

end SetEntry

namespace Htself

variable (s : Htself) (halrcomp : Bool) (rx : SetRequest)

/-- A request without a reject has been applied, and names do what handles do. -/
structure SetApplies : Prop where
  written : s.Accepts halrcomp rx → ∀ x ∈ turns doEntry s (rx.entries halrcomp),
    x.2.msg.hasValue = true → x.2.Written x.1
  names : ∀ x ∈ turns doEntry s (rx.entries halrcomp), x.2.NameAsHandle x.1

/-- No entry is named; and unless one is refused, the values are in the fields of the types and
the handles are those of the objects. -/
structure SetByHandle : Prop where
  unnamed : ∀ e ∈ rx.entries halrcomp, ¬ e.Named s
  current : (∀ e ∈ rx.entries halrcomp, (e.place s).isSome = true) →
    ∀ e ∈ rx.entries halrcomp, e.Current s

end Htself

/-! ### What the checks do not see -/

variable {h : Hal} {s t : Htself} {e : SetEntry} {p : PbObject} {tg : SetTarget}
  {ref : DataRef}

/-- The pin without its value. -/
def Obj.still (pin : Obj Pin) : Obj Pin := { pin with body := { pin.body with dummysig := 0 } }

/-- The HAL without the values of its pins and signals. -/
def Hal.still (h : Hal) : Hal :=
  { h with pins := h.pins.map Obj.still, sigs := h.sigs.map fun sig => sig.withValue 0 }

@[simp] lemma still_writeRef (ref : DataRef) (u : HalDataU) :
    (h.writeRef ref u).still = h.still := by
  cases ref with
  | value off =>
    simp only [Hal.writeRef, Hal.modifySig, Hal.still, Store.modify, List.map_map,
      Hal.mk.injEq, true_and, and_true]
    refine List.map_congr_left fun sig _ => ?_
    by_cases hk : sig.off = off <;> simp [hk, Obj.withValue]
  | dummysig off =>
    simp only [Hal.writeRef, Hal.modifyPin, Hal.still, Store.modify, List.map_map,
      Hal.mk.injEq, true_and, and_true]
    refine List.map_congr_left fun pin _ => ?_
    by_cases hk : pin.off = off <;> simp [hk, Obj.still]

/-- A lookup that does not depend on what `g` changes. -/
lemma find?_still {α β : Type} {g : α → α} {c : α → Bool} {F : α → β} {l l' : List α}
    (he : l'.map g = l.map g) (hc : ∀ a, c (g a) = c a) (hF : ∀ a, F (g a) = F a) :
    (l'.find? c).map F = (l.find? c).map F := by
  have hfind : ∀ l : List α, (l.find? c).map F = ((l.map g).find? c).map F := by
    intro l
    have hcg : c ∘ g = c := funext hc
    have hFg : F ∘ g = F := funext hF
    rw [List.find?_map, hcg, Option.map_map, hFg]
  rw [hfind l', he, ← hfind l]

/-- The same, with a check on what was found. -/
lemma at?_still {α β : Type} {g : Obj α → Obj α} {c : Obj α → Bool} {F : Obj α → β}
    {l l' : List (Obj α)} (he : l'.map g = l.map g) (ho : ∀ a, (g a).off = a.off)
    (hc : ∀ a, c (g a) = c a) (hF : ∀ a, F (g a) = F a) (off : ℕ) :
    ((at? Obj.off off l').filter c).map F = ((at? Obj.off off l).filter c).map F := by
  have hbind : ∀ l : List (Obj α), ((at? Obj.off off l).filter c).map F =
      ((l.find? fun a => a.off = off).map fun a => if c a then some (F a) else none).join := by
    intro l
    rw [at?]
    cases l.find? fun a => a.off = off with
    | none => rfl
    | some a => cases hca : c a <;> simp [Option.filter, hca]
  rw [hbind, hbind, find?_still he (fun a => by rw [ho]) fun a => by rw [hc, hF]]

/-- The servers know the same items, and their HALs differ in values only. -/
structure Alike (s t : Htself) : Prop where
  items : t.items = s.items
  aborted : t.aborted = s.aborted
  still : t.hal.still = s.hal.still

namespace Alike

lemma refl (s : Htself) : Alike s s := ⟨rfl, rfl, rfl⟩

lemma trans {r : Htself} (ha : Alike s t) (hb : Alike t r) : Alike s r :=
  ⟨hb.items.trans ha.items, hb.aborted.trans ha.aborted, hb.still.trans ha.still⟩

lemma hold (s : Htself) (ref : DataRef) (u : HalDataU) : Alike s (s.hold ref u) :=
  ⟨rfl, rfl, still_writeRef ref u⟩

lemma notePrintf (s : Htself) (text : String) : Alike s (s.notePrintf text) := ⟨rfl, rfl, rfl⟩

lemma pins (ha : Alike s t) : t.hal.pins.map Obj.still = s.hal.pins.map Obj.still :=
  congrArg Hal.pins ha.still

lemma sigs (ha : Alike s t) :
    (t.hal.sigs.map fun sig => sig.withValue 0) = s.hal.sigs.map fun sig => sig.withValue 0 :=
  congrArg Hal.sigs ha.still

lemma byName (ha : Alike s t) (k : EntryKind) (name : String) :
    k.byName t.hal name = k.byName s.hal name := by
  cases k with
  | pin halrcomp => exact find?_still ha.pins (fun _ => rfl) fun _ => rfl
  | signal => exact find?_still ha.sigs (fun _ => rfl) fun _ => rfl

lemma byHandle (ha : Alike s t) (k : EntryKind) (handle : ℤ) :
    t.byHandle handle k = s.byHandle handle k := by
  cases k with
  | pin halrcomp =>
    simp only [Htself.byHandle, ha.items]
    split
    · exact at?_still ha.pins (fun _ => rfl) (fun _ => rfl) (fun _ => rfl) _
    · rfl
  | signal =>
    simp only [Htself.byHandle, ha.items]
    split
    · exact at?_still ha.sigs (fun _ => rfl) (fun _ => rfl) (fun _ => rfl) _
    · rfl

lemma settable (ha : Alike s t) (k : EntryKind) (type : ValueType) (item : HaltalkItem) :
    k.settable t.hal type item = k.settable s.hal type item := by
  cases k <;> cases item
  · exact at?_still ha.pins (fun _ => rfl) (fun _ => rfl) (fun _ => rfl) _
  · rfl
  · rfl
  · exact at?_still ha.sigs (fun _ => rfl) (fun _ => rfl) (fun _ => rfl) _

lemma place (ha : Alike s t) (e : SetEntry) : e.place t = e.place s := by
  simp only [SetEntry.place, ha.items, ha.settable]

lemma addressed (ha : Alike s t) (e : SetEntry) : e.addressed t = e.addressed s := by
  simp only [SetEntry.addressed, ha.byHandle, ha.byName]

lemma named (ha : Alike s t) (e : SetEntry) : e.Named t ↔ e.Named s := by
  simp only [SetEntry.Named, ha.byName]

lemma current (ha : Alike s t) (e : SetEntry) : e.Current t ↔ e.Current s := by
  rw [SetEntry.Current, SetEntry.Current, ha.addressed]

/-- The links are in order in both. -/
lemma linkage (ha : Alike s t) (hL : Linkage s.hal.asV2) : Linkage t.hal.asV2 := by
  have hstill : ∀ h : Hal, SameWiring h h.still := by
    intro h
    refine ⟨?_, ?_, fun _ => rfl, rfl⟩
    · rw [wiring, wiring, Hal.still, List.map_map]
      rfl
    · rw [wiring, wiring, Hal.still, List.map_map]
      rfl
  have hs : SameWiring s.hal t.hal.still := ha.still ▸ hstill s.hal
  have ht := hstill t.hal
  have hst : SameWiring s.hal t.hal :=
    hs.trans ⟨ht.pins.symm, ht.sigs.symm, fun i => (ht.owner i).symm, ht.cells.symm⟩
  exact hL.sameWiring hst.asV2

end Alike

/-! ### One entry -/

/-- An entry that may write gives all that is needed. -/
lemma SetEntry.place_some {ty : HalType} (hp : e.place s = some (ty, ref)) :
    ∃ type n item, e.msg.type = some type ∧ ty.code = type.code ∧ e.msg.hasValue = true ∧
      e.msg.hasCase = true ∧ e.msg.handleInt = some n ∧ s.items n = some item ∧
      e.kind.settable s.hal type item = some (ty, ref) := by
  rw [place] at hp
  split at hp
  · next type item ht hi =>
      split_ifs at hp with hv
      obtain ⟨n, hn, hi⟩ := Option.bind_eq_some_iff.mp hi
      refine ⟨type, n, item, ht, ?_, hv.1, hv.2, hn, hi, hp⟩
      obtain ⟨k, m⟩ := e
      cases k <;> cases item <;> simp [EntryKind.settable, Option.filter_eq_some_iff] at hp
      · obtain ⟨pin, ⟨-, -, hc⟩, rfl, -⟩ := hp
        exact hc
      · obtain ⟨sig, ⟨-, hc, -⟩, rfl, -⟩ := hp
        exact hc
  · simp at hp

/-- The assignment, by whether there is a case for the type. -/
lemma PbObject.toU_cases (p : PbObject) (u : HalDataU) :
    p.hasCase = false ∧ p.toU u = none ∨ p.hasCase = true ∧ p.toU u = some (p.write u) := by
  have hsome : (p.toU u).isSome = p.hasCase := by
    rw [hasCase, toU, toU]
    cases p.type.getD .halBit <;> simp only [Option.isSome_some, Option.isSome_none]
  cases hw : p.toU u with
  | none => exact .inl ⟨by rw [← hsome, hw]; rfl, rfl⟩
  | some v => exact .inr ⟨by rw [← hsome, hw]; rfl, by rw [PbObject.write, hw]; rfl⟩

/-- Writing to the value behind a pin. -/
lemma Hal.setPinValue_eq (pin : Obj Pin) (v : HalDataU) :
    h.setPinValue pin v = h.writeRef pin.pinRef v := by
  rw [Hal.setPinValue, Obj.pinRef]
  split <;> rfl

/-- The value behind a pin that is there. -/
lemma Hal.pinValue_eq {pin : Obj Pin} {off : ℕ} (hp : h.pinAt off = some pin) :
    h.pinValue pin = h.refValue pin.pinRef := by
  have hoff : pin.off = off := by simpa using List.find?_some hp
  rw [Hal.pinValue, Obj.pinRef]
  split
  · rfl
  · rw [Hal.refValue, hoff, hp]

/-- A pin entry with a handle is refused or writes. -/
lemma setPin_cases {halrcomp : Bool} {type : ValueType} {n : ℤ} (ht : p.type = some type)
    (hv : p.hasValue = true) (hn : p.handleInt = some n) :
    (SetEntry.place ⟨.pin halrcomp, p⟩ s = none ∧
        ∃ text, s.setPin halrcomp p type n = s.notePrintf text) ∨
      ∃ ty ref, SetEntry.place ⟨.pin halrcomp, p⟩ s = some (ty, ref) ∧
        s.setPin halrcomp p type n = s.hold ref (p.write (s.hal.refValue ref)) := by
  simp only [SetEntry.place, Htself.setPin, ht, hn, Option.bind_some, hv, true_and]
  cases hi : s.items n with
  | none => exact .inl ⟨rfl, _, rfl⟩
  | some item =>
  cases item with
  | signal off => exact .inl ⟨by simp [EntryKind.settable], _, rfl⟩
  | pin off =>
  cases hp : s.hal.pinAt off with
  | none => exact .inl ⟨by simp [EntryKind.settable, hp], _, by simp only [hp]; rfl⟩
  | some pin =>
  have hdir := Htself.unwritable_iff halrcomp pin.body.dir
  simp only [EntryKind.settable, hp, Option.filter_some]
  by_cases hd : pin.body.dir = Htself.unwritable halrcomp
  · refine .inl ⟨by simp [hd], ?_⟩
    rcases hdir.mp hd with hin | hout
    · rw [if_pos hin]
      exact ⟨_, rfl⟩
    · rw [if_neg fun hin => hout.1 hin.1, if_pos hout]
      exact ⟨_, rfl⟩
  rw [if_neg fun hin => hd (hdir.mpr (.inl hin)), if_neg fun hout => hd (hdir.mpr (.inr hout))]
  by_cases hty : pin.body.type.code = type.code
  · rw [if_neg (not_not.mpr hty)]
    rw [Hal.pinValue_eq hp]
    rcases p.toU_cases (s.hal.refValue pin.pinRef) with ⟨hc, hw⟩ | ⟨hc, hw⟩
    · exact .inl ⟨by simp [hc], _, by simp only [halPbpin2u, hw]; rfl⟩
    · refine .inr ⟨pin.body.type, pin.pinRef, by simp [hc, hd, hty], ?_⟩
      simp only [halPbpin2u, hw, Hal.setPinValue_eq]
      rfl
  · refine .inl ⟨by simp [hty], ?_⟩
    rw [if_pos hty]
    exact ⟨_, rfl⟩

/-- A signal entry with a handle is refused or writes. -/
lemma setSignal_cases {type : ValueType} {n : ℤ} (ht : p.type = some type)
    (hv : p.hasValue = true) (hn : p.handleInt = some n) :
    (SetEntry.place ⟨.signal, p⟩ s = none ∧ ∃ text, s.setSignal p type n = s.notePrintf text) ∨
      ∃ ty ref, SetEntry.place ⟨.signal, p⟩ s = some (ty, ref) ∧
        s.setSignal p type n = s.hold ref (p.write (s.hal.refValue ref)) := by
  simp only [SetEntry.place, Htself.setSignal, ht, hn, Option.bind_some, hv, true_and]
  cases hi : s.items n with
  | none => exact .inl ⟨rfl, _, rfl⟩
  | some item =>
  cases item with
  | pin off => exact .inl ⟨by simp [EntryKind.settable], _, rfl⟩
  | signal off =>
  cases hg : s.hal.sigAt off with
  | none => exact .inl ⟨by simp [EntryKind.settable, hg], _, by simp only [hg]; rfl⟩
  | some sig =>
  simp only [EntryKind.settable, hg, Option.filter_some]
  by_cases hty : sig.body.type.code = type.code
  · rw [if_neg (not_not.mpr hty)]
    by_cases hw : 0 < sig.body.writers
    · refine .inl ⟨by simp [hw], ?_⟩
      rw [if_pos hw]
      exact ⟨_, rfl⟩
    rw [if_neg hw]
    have hoff : sig.off = off := by simpa using List.find?_some hg
    rcases p.toU_cases sig.body.value with ⟨hc, hv⟩ | ⟨hc, hv⟩
    · exact .inl ⟨by simp [hc], _, by simp only [halPbsig2u, hv]; rfl⟩
    · have hle : sig.body.writers ≤ 0 := not_lt.mp hw
      refine .inr ⟨sig.body.type, .value off, by simp [hc, hty, hoff, hle], ?_⟩
      simp only [halPbsig2u, hv, Hal.refValue, hg]
      rfl
  · refine .inl ⟨by simp [hty], ?_⟩
    rw [if_pos hty]
    exact ⟨_, rfl⟩

/-- An entry without a type, a value or a handle writes nothing. -/
lemma SetEntry.place_eq_none
    (hp : e.msg.type = none ∨ e.msg.hasValue = false ∨ e.msg.handleInt = none) :
    e.place s = none := by
  cases hpl : e.place s with
  | none => rfl
  | some pl =>
    obtain ⟨type, n, -, ht, -, hv, -, hn, -⟩ := place_some hpl
    simp [ht, hv, hn] at hp

/-- An entry without a type or a value is refused. -/
lemma doEntry_bare (ha : s.aborted = false) (hp : e.msg.type = none ∨ e.msg.hasValue = false) :
    ∃ text, s.doEntry e = s.notePrintf text := by
  obtain ⟨k, p⟩ := e
  dsimp only at hp
  cases ht : p.type with
  | none =>
    cases k <;> simp only [Htself.doEntry, Htself.pinEntry, Htself.signalEntry, ha, ht] <;>
      exact ⟨_, rfl⟩
  | some type =>
    have hv : p.hasValue = false := hp.resolve_left (by simp [ht])
    cases k <;> simp only [Htself.doEntry, Htself.pinEntry, Htself.signalEntry, ha, ht, hv] <;>
      exact ⟨_, rfl⟩

/-- An entry with a type, a value and a handle is refused or writes. -/
lemma doEntry_handle (ha : s.aborted = false) {type : ValueType} {n : ℤ}
    (ht : e.msg.type = some type) (hv : e.msg.hasValue = true) (hn : e.msg.handleInt = some n) :
    (e.place s = none ∧ ∃ text, s.doEntry e = s.notePrintf text) ∨
      ∃ ty ref, e.place s = some (ty, ref) ∧
        s.doEntry e = s.hold ref (e.msg.write (s.hal.refValue ref)) := by
  obtain ⟨k, p⟩ := e
  dsimp only at ht hv hn ⊢
  cases k with
  | pin halrcomp =>
    have he : s.doEntry ⟨.pin halrcomp, p⟩ = s.setPin halrcomp p type n := by
      simp [Htself.doEntry, Htself.pinEntry, ha, ht, hv, hn]
    exact he ▸ setPin_cases ht hv hn
  | signal =>
    have he : s.doEntry ⟨.signal, p⟩ = s.setSignal p type n := by
      simp [Htself.doEntry, Htself.signalEntry, ha, ht, hv, hn]
    exact he ▸ setSignal_cases ht hv hn

/-- An entry with a type, a value and no handle is refused, or has the name of an object and
writes nothing. -/
lemma doEntry_name (ha : s.aborted = false) {type : ValueType} (ht : e.msg.type = some type)
    (hv : e.msg.hasValue = true) (hn : e.msg.handle = none) :
    (e.Named s ∧ (s.doEntry e).hal = s.hal ∧ (s.doEntry e).note = s.note) ∨
      (¬ e.Named s ∧ ∃ text, s.doEntry e = s.notePrintf text) := by
  have hint : e.msg.handleInt = none := by rw [PbObject.handleInt, hn, Option.map_none]
  obtain ⟨k, p⟩ := e
  dsimp only at ht hv hn hint
  have hnamed : SetEntry.Named ⟨k, p⟩ s ↔
      ∃ name, p.name = some name ∧ (k.byName s.hal name).isSome = true := by
    simp [SetEntry.Named, ht, hv, hn]
  cases hname : p.name with
  | none =>
    refine .inr ⟨by simp [hnamed, hname], ?_⟩
    cases k <;>
      simp only [Htself.doEntry, Htself.pinEntry, Htself.signalEntry, ha, ht, hv, hint, hname] <;>
      exact ⟨_, rfl⟩
  | some name =>
  cases k with
  | pin halrcomp =>
    have he : s.doEntry ⟨.pin halrcomp, p⟩ = s.describePinByName name := by
      simp [Htself.doEntry, Htself.pinEntry, ha, ht, hv, hint, hname]
    rw [he, hnamed]
    cases hf : findByName name s.hal.pins with
    | none =>
      exact .inr ⟨by simp [hname, EntryKind.byName, hf], _,
        by rw [Htself.describePinByName, hf]⟩
    | some pin =>
      refine .inl ⟨⟨name, hname, by simp [EntryKind.byName, hf]⟩, by simp, ?_⟩
      simp only [Htself.describePinByName, hf]
      split <;> simp
  | signal =>
    have he : s.doEntry ⟨.signal, p⟩ = s.describeSignalByName name := by
      simp [Htself.doEntry, Htself.signalEntry, ha, ht, hv, hint, hname]
    rw [he, hnamed]
    cases hf : findByName name s.hal.sigs with
    | none =>
      exact .inr ⟨by simp [hname, EntryKind.byName, hf], _,
        by rw [Htself.describeSignalByName, hf]⟩
    | some sig =>
      refine .inl ⟨⟨name, hname, by simp [EntryKind.byName, hf]⟩, by simp, ?_⟩
      simp [Htself.describeSignalByName, hf]

/-- All an entry can do: a named one writes nothing, without a note; any other is refused with a
note, or writes its value to its place. -/
lemma doEntry_cases (ha : s.aborted = false) (e : SetEntry) :
    (e.Named s ∧ (s.doEntry e).hal = s.hal ∧ (s.doEntry e).note = s.note) ∨
      (¬ e.Named s ∧ e.place s = none ∧ ∃ text, s.doEntry e = s.notePrintf text) ∨
      ∃ ty ref, ¬ e.Named s ∧ e.place s = some (ty, ref) ∧
        s.doEntry e = s.hold ref (e.msg.write (s.hal.refValue ref)) := by
  by_cases hbare : e.msg.type = none ∨ e.msg.hasValue = false
  · refine .inr (.inl ⟨?_, SetEntry.place_eq_none (hbare.imp_right .inl), doEntry_bare ha hbare⟩)
    rintro ⟨hty, hv, -⟩
    rcases hbare with h | h
    · simp [h] at hty
    · simp [h] at hv
  obtain ⟨hty, hv⟩ := not_or.mp hbare
  obtain ⟨type, ht⟩ := Option.ne_none_iff_exists'.mp hty
  rw [Bool.not_eq_false] at hv
  cases hh : e.msg.handle with
  | none =>
    have hplace : e.place s = none :=
      SetEntry.place_eq_none (.inr (.inr (by rw [PbObject.handleInt, hh, Option.map_none])))
    rcases doEntry_name ha ht hv hh with hN | ⟨hN, hnote⟩
    · exact .inl hN
    · exact .inr (.inl ⟨hN, hplace, hnote⟩)
  | some handle =>
    have hN : ¬ e.Named s := fun hN => by simp [hN.2.2.1] at hh
    rcases doEntry_handle ha ht hv (by rw [PbObject.handleInt, hh, Option.map_some]) with
      hno | ⟨ty, ref, hplace, hw⟩
    · exact .inr (.inl ⟨hN, hno⟩)
    · exact .inr (.inr ⟨ty, ref, hN, hplace, hw⟩)

/-! ### What is read after a write -/

/-- What an entry leaves is read as its value, whatever was there. -/
lemma PbObject.typedValue_write {ty : HalType} {type : ValueType} (ht : p.type = some type)
    (hc : ty.code = type.code) (hcase : p.hasCase = true) (u : HalDataU) :
    typedValue ty (p.write u) = p.value.getD 0 := by
  have hwide : ∀ n : BitVec 32, get32Value (n.setWidth 64) = n.setWidth 64 := by
    intro n
    rw [get32Value, BitVec.extractLsb'_setWidth_of_le (by decide), BitVec.extractLsb'_eq_self]
  have hzero : get32Value 0 = 0 := by decide
  have hbit : ∀ b : Bool, getBitValue (if b then 1 else 0) = if b then 1 else 0 := by decide
  cases type <;> simp only [hasCase, toU, ht, Option.getD_some, Option.isSome_none,
    Bool.false_eq_true] at hcase
  case halBit =>
    obtain rfl : ty = .halBit := by cases ty <;> simp_all [HalType.code, ValueType.code]
    simp only [write, toU, value, typedValue, ht, Option.getD_some, getBitValue_set, hbit]
    cases p.halbit <;> rfl
  case halFloat =>
    obtain rfl : ty = .halFloat := by cases ty <;> simp_all [HalType.code, ValueType.code]
    simp only [write, toU, value, typedValue, ht, Option.getD_some]
  case halS32 =>
    obtain rfl : ty = .halS32 := by cases ty <;> simp_all [HalType.code, ValueType.code]
    simp only [write, toU, value, typedValue, ht, Option.getD_some, get32Value_set, hwide]
    cases p.hals32 <;> rfl
  case halU32 =>
    obtain rfl : ty = .halU32 := by cases ty <;> simp_all [HalType.code, ValueType.code]
    simp only [write, toU, value, typedValue, ht, Option.getD_some, get32Value_set, hwide]
    cases p.halu32 <;> rfl

/-- Every type has more than one value. -/
lemma typedValue_zero_ne_one (ty : HalType) : typedValue ty 0 ≠ typedValue ty 1 := by
  cases ty <;> decide

/-- There is an object with the place. -/
def Hal.has (h : Hal) : DataRef → Bool
  | .value off => (h.sigAt off).isSome
  | .dummysig off => (h.pinAt off).isSome

/-- A write to a place that is there, read back. -/
lemma refValue_writeRef (hh : h.has ref = true) (u : HalDataU) :
    (h.writeRef ref u).refValue ref = u := by
  cases ref with
  | value off =>
    obtain ⟨g, hg⟩ := Option.isSome_iff_exists.mp hh
    simp [Hal.writeRef, Hal.refValue, Hal.modifySig_sigAt, hg]
  | dummysig off =>
    obtain ⟨q, hq⟩ := Option.isSome_iff_exists.mp hh
    simp [Hal.writeRef, Hal.refValue, Hal.modifyPin_pinAt, hq]

/-! ### Entries and objects -/

/-- The pin a server has for a handle. -/
lemma byHandle_pin {halrcomp : Bool} {n : ℤ} (hb : s.byHandle n (.pin halrcomp) = some tg) :
    ∃ pin, s.items n = some (.pin pin.off) ∧ s.hal.pinAt pin.off = some pin ∧
      pin.hdr.valid = true ∧ tg = pin.pinTarget := by
  rw [Htself.byHandle] at hb
  split at hb
  · next off hi =>
      obtain ⟨pin, hpin, rfl⟩ := Option.map_eq_some_iff.mp hb
      obtain ⟨hat, hhas⟩ := Option.filter_eq_some_iff.mp hpin
      obtain rfl : pin.off = off := by simpa using List.find?_some hat
      exact ⟨pin, hi, hat, (Bool.and_eq_true_iff.mp hhas).1, rfl⟩
  · simp at hb

/-- The signal a server has for a handle. -/
lemma byHandle_signal {n : ℤ} (hb : s.byHandle n .signal = some tg) :
    ∃ sig, s.items n = some (.signal sig.off) ∧ s.hal.sigAt sig.off = some sig ∧
      tg = sig.sigTarget := by
  rw [Htself.byHandle] at hb
  split at hb
  · next off hi =>
      obtain ⟨sig, hsig, rfl⟩ := Option.map_eq_some_iff.mp hb
      have hat := (Option.filter_eq_some_iff.mp hsig).1
      obtain rfl : sig.off = off := by simpa using List.find?_some hat
      exact ⟨sig, hi, hat, rfl⟩
  · simp at hb

/-- The data pointer of a pin points to the value that `pin_value` designates. -/
lemma Linkage.pinRef_eq (hL : Linkage h.asV2) {pin : Obj Pin} {off : ℕ}
    (hat : h.pinAt off = some pin) (hv : pin.hdr.valid = true) :
    pin.body.dataPtr = pin.pinRef := by
  rw [Obj.pinRef]
  rcases hL.pinLink (List.mem_of_find?_eq_some hat) hv with ⟨h0, hd⟩ | ⟨g, hg, -, hgo, -, hd⟩
  · rw [if_neg (not_not.mpr h0), hd]
  · have hne : g.off ≠ 0 := hL.sigNe g hg
    rw [← hgo, if_pos hne, hd]

/-- What the server has for a handle is there, and its value in the place it is read from. -/
lemma byHandle_has (hL : Linkage s.hal.asV2) {k : EntryKind} {n : ℤ}
    (hb : s.byHandle n k = some tg) : s.hal.has tg.ref = true := by
  cases k with
  | pin halrcomp =>
    obtain ⟨pin, -, hat, hv, rfl⟩ := byHandle_pin hb
    rcases hL.pinLink (List.mem_of_find?_eq_some hat) hv with ⟨-, hd⟩ | ⟨g, hg, -, -, -, hd⟩
    · simp [Obj.pinTarget, hd, Hal.has, hat]
    · have hsig : s.hal.sigAt g.off = some g := (at?_eq_some hL.sigKeys).2 ⟨hg, rfl⟩
      simp [Obj.pinTarget, hd, Hal.has, hsig]
  | signal =>
    obtain ⟨sig, -, hat, rfl⟩ := byHandle_signal hb
    simp [Obj.sigTarget, Hal.has, hat]

/-- An entry with the handle of an object writes to this object. -/
lemma SetEntry.place_byHandle (hL : Linkage s.hal.asV2) {n : ℤ} {ty : HalType}
    (hn : e.msg.handleInt = some n) (hb : s.byHandle n e.kind = some tg)
    (hp : e.place s = some (ty, ref)) : ty = tg.type ∧ ref = tg.ref := by
  obtain ⟨type, n', item, -, -, -, -, hn', hi, hset⟩ := place_some hp
  obtain rfl : n' = n := Option.some.inj (hn'.symm.trans hn)
  obtain ⟨k, p⟩ := e
  dsimp only at hb hset
  cases k with
  | pin halrcomp =>
    obtain ⟨pin, hitem, hat, hv, rfl⟩ := byHandle_pin hb
    obtain rfl : item = .pin pin.off := Option.some.inj (hi.symm.trans hitem)
    simp only [EntryKind.settable, hat, Option.map_eq_some_iff, Option.filter_eq_some_iff,
      Option.some.injEq, Prod.mk.injEq] at hset
    obtain ⟨pin', ⟨rfl, -⟩, rfl, rfl⟩ := hset
    exact ⟨rfl, (hL.pinRef_eq hat hv).symm⟩
  | signal =>
    obtain ⟨sig, hitem, hat, rfl⟩ := byHandle_signal hb
    obtain rfl : item = .signal sig.off := Option.some.inj (hi.symm.trans hitem)
    simp only [EntryKind.settable, hat, Option.map_eq_some_iff, Option.filter_eq_some_iff,
      Option.some.injEq, Prod.mk.injEq] at hset
    obtain ⟨sig', ⟨rfl, -⟩, rfl, rfl⟩ := hset
    exact ⟨rfl, rfl⟩

/-- A server that has the object of a name has it for its handle. -/
lemma byHandle_knows (hL : Linkage s.hal.asV2) {k : EntryKind} {name : String}
    (hb : k.byName s.hal name = some tg) :
    (s.knows tg).byHandle tg.handle.toInt k = some tg := by
  cases k with
  | pin halrcomp =>
    obtain ⟨pin, hf, rfl⟩ := Option.map_eq_some_iff.mp hb
    obtain ⟨hmem, hv⟩ := findByName_mem hf
    have hat : s.hal.pinAt pin.off = some pin := (at?_eq_some hL.pinKeys_asV2).2 ⟨hmem, rfl⟩
    simp [Htself.byHandle, Htself.knows, Obj.pinTarget, hat, Halhdr.hasHandle, hv]
  | signal =>
    obtain ⟨sig, hf, rfl⟩ := Option.map_eq_some_iff.mp hb
    obtain ⟨hmem, hv⟩ := findByName_mem hf
    have hat : s.hal.sigAt sig.off = some sig := (at?_eq_some hL.sigKeys).2 ⟨hmem, rfl⟩
    simp [Htself.byHandle, Htself.knows, Obj.sigTarget, hat, Halhdr.hasHandle, hv]

/-! ### The turn of an entry -/

/-- An entry that writes leaves its value where it is read. -/
lemma readTarget_doEntry (hL : Linkage s.hal.asV2) (ha : s.aborted = false) {n : ℤ}
    (hn : e.msg.handleInt = some n) (hb : s.byHandle n e.kind = some tg)
    (hp : (e.place s).isSome = true) :
    (s.doEntry e).hal.readTarget tg = e.msg.value.getD 0 := by
  obtain ⟨⟨ty, ref⟩, hpl⟩ := Option.isSome_iff_exists.mp hp
  obtain ⟨type, -, -, ht, hc, hv, hcase, -⟩ := SetEntry.place_some hpl
  obtain ⟨rfl, rfl⟩ := SetEntry.place_byHandle hL hn hb hpl
  rcases doEntry_handle ha ht hv hn with ⟨hno, -⟩ | ⟨ty', ref', hpl', hw⟩
  · simp [hno] at hp
  · obtain ⟨rfl, rfl⟩ := Prod.mk.inj (Option.some.inj (hpl.symm.trans hpl'))
    rw [hw, Hal.readTarget, Htself.hold, refValue_writeRef (byHandle_has hL hb)]
    exact PbObject.typedValue_write ht hc hcase _

/-- An entry that is not refused has its value written exactly if the value is in the field of the
type and the handle is that of the object. -/
lemma written_iff (hL : Linkage s.hal.asV2) (ha : s.aborted = false)
    (hp : (e.place s).isSome = true) : e.Written s ↔ e.Current s := by
  constructor
  · rintro ⟨t, v, ht, hv, -⟩
    exact ⟨by rw [hv]; rfl, by rw [ht]; rfl⟩
  rintro ⟨hv, ht⟩
  obtain ⟨v, hv⟩ := Option.isSome_iff_exists.mp hv
  obtain ⟨t, ht⟩ := Option.isSome_iff_exists.mp ht
  obtain ⟨⟨ty, ref⟩, hpl⟩ := Option.isSome_iff_exists.mp hp
  obtain ⟨-, n, -, -, -, -, -, hn, -⟩ := SetEntry.place_some hpl
  refine ⟨t, v, ht, hv, fun u => ?_⟩
  rw [SetEntry.addressed, hn] at ht
  have hal := Alike.hold s t.ref u
  rw [readTarget_doEntry (hal.linkage hL) (hal.aborted.trans ha) hn
    ((hal.byHandle e.kind n).trans ht) (by rwa [hal.place]), hv, Option.getD_some]

/-- The handle given to an entry is the one it is looked up by. -/
lemma SetEntry.withHandle_handleInt (handle : Int16) :
    (e.withHandle handle).msg.handleInt = some handle.toInt := by
  simp [withHandle, PbObject.handleInt]

/-- What the entry with the handle does is not what a named entry does: it is refused with a note,
or the value there depends on what was there before for the named one only. -/
lemma not_nameAsHandle (hL : Linkage s.hal.asV2) (ha : s.aborted = false) (hN : e.Named s) :
    ¬ e.NameAsHandle s := by
  intro has
  obtain ⟨hty, hv, hh, name, hn, hb⟩ := hN
  obtain ⟨type, ht⟩ := Option.isSome_iff_exists.mp hty
  obtain ⟨tg, hb⟩ := Option.isSome_iff_exists.mp hb
  have hhas : s.hal.has tg.ref = true := 
    byHandle_has (s := s.knows tg) hL (byHandle_knows hL hb)
  have hread : ∀ u, typedValue tg.type u = e.msg.value.getD 0 := by
    intro u
    have hal := Alike.hold s tg.ref u
    have hx : (s.hold tg.ref u).aborted = false := hal.aborted.trans ha
    have hLx := hal.linkage hL
    have heff := has name tg hh hn hb u
    have hbx : e.kind.byName (s.hold tg.ref u).hal name = some tg := (hal.byName _ _).trans hb
    have hbh := byHandle_knows hLx hbx
    rcases doEntry_name hx ht hv hh with ⟨-, hhal, hnote⟩ | ⟨hno, -⟩
    · rcases doEntry_handle (s := (s.hold tg.ref u).knows tg) (e := e.withHandle tg.handle) hx ht hv
        (SetEntry.withHandle_handleInt _) with ⟨-, text, hw⟩ | ⟨ty, ref, hpl, -⟩
      · have hlen := congrArg List.length (heff.refused.mp hnote)
        rw [hw] at hlen
        simp [Htself.notePrintf, Htself.knows] at hlen
      · have hr := readTarget_doEntry (s := (s.hold tg.ref u).knows tg)
          (e := e.withHandle tg.handle) hLx hx (SetEntry.withHandle_handleInt _) hbh
          (by rw [hpl]; rfl)
        rw [← heff.hal, hhal, Hal.readTarget, Htself.hold, refValue_writeRef hhas] at hr
        exact hr
    · exact absurd ⟨hty, hv, hh, name, hn, by rw [hbx]; rfl⟩ hno
  exact typedValue_zero_ne_one tg.type ((hread 0).trans (hread 1).symm)

/-- A name does what the handle does exactly if the entry is not named. -/
lemma nameAsHandle_iff (hL : Linkage s.hal.asV2) (ha : s.aborted = false) :
    e.NameAsHandle s ↔ ¬ e.Named s := by
  constructor
  · exact fun has hN => not_nameAsHandle hL ha hN has
  intro hN name t hh hn hb u
  -- without a type or a value, the entry is refused either way
  have hbare : e.msg.type = none ∨ e.msg.hasValue = false := by
    by_contra hno
    obtain ⟨hty, hv⟩ := not_or.mp hno
    exact hN ⟨Option.isSome_iff_ne_none.mpr hty, by simpa using hv, hh, name, hn, by rw [hb]; rfl⟩
  obtain ⟨text, hw⟩ := doEntry_bare (s := s.hold t.ref u) ha hbare
  obtain ⟨text', hw'⟩ := doEntry_bare (s := (s.hold t.ref u).knows t)
    (e := e.withHandle t.handle) ha hbare
  rw [hw, hw']
  exact ⟨rfl, by simp [Htself.notePrintf, Htself.knows], rfl⟩

/-! ### A request -/

/-- The work on a request is the work on its entries. -/
lemma setEntries_eq (s : Htself) (halrcomp : Bool) (rx : SetRequest) :
    s.setEntries halrcomp rx = (rx.entries halrcomp).foldl Htself.doEntry s := by
  rw [SetRequest.entries, List.foldl_append, List.foldl_map, List.foldl_map]
  rfl

/-- A request is accepted if there is no note. -/
lemma accepts_iff {halrcomp : Bool} {rx : SetRequest} : s.Accepts halrcomp rx ↔
    (s.setEntries halrcomp rx).aborted = false ∧ (s.setEntries halrcomp rx).note = [] := by
  rw [Htself.Accepts]
  refine and_congr_right fun ha => ?_
  change (s.setEntries halrcomp rx).aborted = false at ha
  simp only [Htself.processSet, Htself.setReply, ha]
  by_cases hn : (s.setEntries halrcomp rx).note = []
  · cases halrcomp <;> simp only [hn] <;> split <;> simp
  · cases halrcomp <;> simp [hn]

/-- An entry that is not named leaves the items, and of the HAL all but a value. -/
lemma Alike.doEntry (ha : s.aborted = false) (hN : ¬ e.Named s) : Alike s (s.doEntry e) := by
  rcases doEntry_cases ha e with ⟨hN', -⟩ | ⟨-, -, text, hw⟩ | ⟨ty, ref, -, -, hw⟩
  · exact absurd hN' hN
  · exact hw ▸ Alike.notePrintf s text
  · exact hw ▸ Alike.hold s ref _

/-- The same for an entry at its turn. -/
lemma Alike.next (hal : Alike s t) (ha : s.aborted = false) (hN : ¬ e.Named s) :
    Alike s (t.doEntry e) :=
  hal.trans (Alike.doEntry (hal.aborted.trans ha) ((hal.named e).not.mpr hN))

/-- An entry that is not named leaves no note exactly if it may write. -/
lemma doEntry_note (ha : s.aborted = false) (hN : ¬ e.Named s) :
    (s.doEntry e).note = [] ↔ s.note = [] ∧ (e.place s).isSome = true := by
  rcases doEntry_cases ha e with ⟨hN', -⟩ | ⟨-, hp, text, hw⟩ | ⟨ty, ref, -, hp, hw⟩
  · exact absurd hN' hN
  · simp [hw, hp, Htself.notePrintf]
  · simp [hw, hp, Htself.hold]

/-- Without named entries, a request is accepted exactly if each entry may write. -/
lemma accepts_iff_place (ha : s.aborted = false) (hnote : s.note = []) {halrcomp : Bool}
    {rx : SetRequest} (hN : ∀ e ∈ rx.entries halrcomp, ¬ e.Named s) :
    s.Accepts halrcomp rx ↔ ∀ e ∈ rx.entries halrcomp, (e.place s).isSome = true := by
  rw [accepts_iff, setEntries_eq]
  have hend := foldl_iff (f := Htself.doEntry) (l := rx.entries halrcomp) (I := Alike s)
    (P := fun t => t.aborted = false ∧ t.note = []) (R := fun e => (e.place s).isSome = true)
    (Alike.refl s) ?_ ?_
  · rw [hend]
    simp [ha, hnote]
  · intro t e he hal
    have hat := hal.aborted.trans ha
    have hNt : ¬ e.Named t := (hal.named e).not.mpr (hN e he)
    rw [(Alike.doEntry hat hNt).aborted, doEntry_note hat hNt, hal.place, and_assoc]
  · exact fun t e he hal => hal.next ha (hN e he)

/-- A request without a reject has been applied, and names do what handles do, exactly under the
condition. -/
lemma setApplies_iff (hL : Linkage s.hal.asV2) (ha : s.aborted = false) (hnote : s.note = [])
    (halrcomp : Bool) (rx : SetRequest) :
    s.SetApplies halrcomp rx ↔ s.SetByHandle halrcomp rx := by
  have hnames : (∀ x ∈ turns Htself.doEntry s (rx.entries halrcomp), x.2.NameAsHandle x.1) ↔
      ∀ e ∈ rx.entries halrcomp, ¬ e.Named s := by
    refine forall_turns_iff (I := Alike s) (Q := fun t (e : SetEntry) => e.NameAsHandle t)
      (Alike.refl s) ?_ ?_
    · intro t e _ hal
      rw [nameAsHandle_iff (hal.linkage hL) (hal.aborted.trans ha), hal.named]
    · exact fun t e _ hal hN => hal.next ha hN
  have hwritten : (∀ e ∈ rx.entries halrcomp, ¬ e.Named s) →
      (∀ e ∈ rx.entries halrcomp, (e.place s).isSome = true) →
      ((∀ x ∈ turns Htself.doEntry s (rx.entries halrcomp),
        x.2.msg.hasValue = true → x.2.Written x.1) ↔
        ∀ e ∈ rx.entries halrcomp, e.Current s) := by
    intro hN hp
    refine forall_turns_iff (I := Alike s)
      (Q := fun t (e : SetEntry) => e.msg.hasValue = true → e.Written t) (Alike.refl s) ?_ ?_
    · intro t e he hal
      obtain ⟨⟨ty, ref⟩, hpl⟩ := Option.isSome_iff_exists.mp (hp e he)
      obtain ⟨-, -, -, -, -, hv, -⟩ := SetEntry.place_some hpl
      rw [written_iff (hal.linkage hL) (hal.aborted.trans ha) (by rw [hal.place, hp e he]),
        hal.current]
      exact ⟨fun hw => hw hv, fun hc _ => hc⟩
    · exact fun t e he hal _ => hal.next ha (hN e he)
  constructor
  · intro hs
    have hN := hnames.mp hs.names
    exact ⟨hN, fun hp => (hwritten hN hp).mp (hs.written ((accepts_iff_place ha hnote hN).mpr hp))⟩
  · intro hs
    refine ⟨fun hacc => ?_, hnames.mpr hs.unnamed⟩
    have hp := (accepts_iff_place ha hnote hs.unnamed).mp hacc
    exact (hwritten hs.unnamed hp).mpr (hs.current hp)

/-- The HAL of the remote component without groups, and the calls that link its pins. -/
def panelGroups : GroupHal := { remoteComp with groups := [], members := [], vtables := [] }

lemma panelGroups_unwired : panelGroups.Unwired := ⟨by decide, rfl, rfl⟩

/-- The request to set the `HAL_S32` object with a name to 9. -/
def nameS32 (name : String) : PbObject := { setS32 0 with name := some name, handle := none }

end MachinekitHal
