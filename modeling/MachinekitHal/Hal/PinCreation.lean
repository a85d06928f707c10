import MachinekitHal.Hal.Pin

/-!
The creation of v2 pins.

* `PinAccepted`: no check refuses the pin, and there is memory for it.
* `FreshPin`: the descriptor that is added.
* `halgPinNewfv_accepted`, `halgPinNewfv_refused`: the pin is added, or nothing changes.
-/

namespace MachinekitHal

/-- What `halg_pin_newfv` tests for a v2 pin of a valid type passes. -/
structure PinAccepted (h : Hal) (mem : Option Alloc) (ownerId : ℤ) (name : String) : Prop where
  unlocked : h.locked halLockLoad = false
  unused : (fmtAp 128 name).any fun stored => (findByName stored h.pins).isNone
  owner : (h.findOwningComp ownerId).isSome
  memory : mem.isSome

variable {h : Hal} {mem : Option Alloc} {type : HalType} {dir : HalPinDir} {ownerId : ℤ}
  {defval : HalDataU} {name : String}

/-- With memory, a name that fits the first buffer fits the second. -/
lemma halgCreateObject_isSome {α : Type} {stored : String} {body : α}
    (h : fmtAp 128 name = some stored) (hmem : mem.isSome) :
    (halgCreateObject mem ownerId stored body).isSome := by
  obtain ⟨m, rfl⟩ := Option.isSome_iff_exists.1 hmem
  rw [fmtAp] at h
  split_ifs at h with hlen
  cases h
  have hshort : ¬ 127 < (String.ofList (name.toList.take (128 - 1))).length := by simp
  have hset : hhSetNamefv (String.ofList (name.toList.take (128 - 1))) = _ := if_neg hshort
  simp only [halgCreateObject, hset, Option.isSome_some]

/-- The descriptor of a new v2 pin. -/
structure FreshPin (m : Alloc) (ownerId : ℤ) (name : String) (pin : Obj Pin) : Prop where
  off : pin.off = m.off
  id : pin.hdr.id = Int16.ofInt m.handle
  owner : pin.hdr.ownerId = Int16.ofInt ownerId
  name : ∃ stored, fmtAp 128 name = some stored ∧ hhSetNamefv stored = some pin.hdr.name
  valid : pin.hdr.valid = true
  refcnt : pin.hdr.refcnt = 0
  unlinked : pinIsLinked pin = false

/-- A v2 pin that is accepted is added to the list. -/
lemma halgPinNewfv_accepted (ht : halValidType type = true) (hd : halValidDir dir = true)
    (ha : PinAccepted h mem ownerId name) :
    ∃ m pin, mem = some m ∧ FreshPin m ownerId name pin ∧
      h.halgPinNewfv mem type dir none ownerId defval name =
        (none, { h with pins := addObject pin h.pins }) := by
  obtain ⟨hlock, hname, hown, hmem⟩ := ha
  obtain ⟨stored, hfmt, hnew⟩ := (Option.any_eq_true _ _).1 hname
  obtain ⟨comp, hcomp⟩ := Option.isSome_iff_exists.1 hown
  have hdup : ¬ (findByName stored h.pins).isSome = true := by simpa using hnew
  have hcreate := @halgCreateObject_isSome mem ownerId name Pin stored
    { dataPtrAddr := none, dataPtr := .dummysig 0, signal := 0, dummysig := defval
      type := type, dir := dir } hfmt hmem
  obtain ⟨new, hobj⟩ := Option.isSome_iff_exists.1 hcreate
  obtain ⟨m, buf, rfl, hbuf, hnewobj⟩ := halgCreateObject_some hobj
  refine ⟨m, Hal.newPin new none, rfl, ?_, ?_⟩
  · subst hnewobj
    exact ⟨rfl, rfl, rfl, ⟨stored, hfmt, hbuf⟩, rfl, rfl, by simp [pinIsLinked, Hal.newPin]⟩
  · unfold Hal.halgPinNewfv
    rw [if_neg (by simp [hlock]), hfmt]
    dsimp only
    rw [if_neg (by simp [ht]), if_neg (by simp [hd]), if_neg hdup, hcomp]
    dsimp only
    rw [if_neg (by simp), hobj]
    rfl

/-- A v2 pin that is not accepted changes nothing. -/
lemma halgPinNewfv_refused
    (ha : ¬ (halValidType type = true ∧ halValidDir dir = true ∧ PinAccepted h mem ownerId name)) :
    ∃ e, h.halgPinNewfv mem type dir none ownerId defval name = (some e, h) := by
  unfold Hal.halgPinNewfv
  by_cases hlock : h.locked halLockLoad = true
  · exact ⟨_, if_pos hlock⟩
  rw [if_neg hlock]
  cases hfmt : fmtAp 128 name with
  | none => exact ⟨_, rfl⟩
  | some stored =>
  dsimp only
  split
  · exact ⟨_, rfl⟩
  next ht =>
  split
  · exact ⟨_, rfl⟩
  next hd =>
  split
  · exact ⟨_, rfl⟩
  next hdup =>
  cases hown : h.findOwningComp ownerId with
  | none => exact ⟨_, rfl⟩
  | some comp =>
  dsimp only
  split
  · exact ⟨_, rfl⟩
  cases hmem : mem with
  | none => exact ⟨_, rfl⟩
  | some m =>
    refine absurd ⟨by simpa using ht, by simpa using hd, by simpa using hlock, ?_,
      by rw [hown]; rfl, by rw [hmem]; rfl⟩ ha
    rw [hfmt]
    simpa using hdup

/-- Whatever is returned, no pin is lost. -/
lemma halgPinNewfv_length (ht : halValidType type = true) (hd : halValidDir dir = true) :
    let r := h.halgPinNewfv mem type dir none ownerId defval name
    h.pins.length ≤ r.2.pins.length ∧ (r.1 = none → h.pins.length < r.2.pins.length) := by
  by_cases ha : PinAccepted h mem ownerId name
  · obtain ⟨-, pin, -, -, hp⟩ := @halgPinNewfv_accepted h mem type dir ownerId defval name ht hd ha
    have hlen : (addObject pin h.pins).length = h.pins.length + 1 :=
      (addObject_perm pin _).length_eq
    dsimp only
    rw [hp]
    dsimp only
    omega
  · obtain ⟨err, hp⟩ := @halgPinNewfv_refused h mem type dir ownerId defval name
      fun h => ha h.2.2
    dsimp only
    rw [hp]
    exact ⟨le_refl _, fun hn => by cases hn⟩

end MachinekitHal
