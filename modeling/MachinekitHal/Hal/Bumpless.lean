import MachinekitHal.Hal.SignalDeletion
import MachinekitHal.Hal.Barriers
import MachinekitHal.Hal.Values

/-!
Linking and unlinking without a bump in the values.

* `typedValue`, `readPin`: the value read through a pin, by the getter of its type, from where
  its data pointer points; `readCell` reads it through the pointer of a legacy component.
* `SeesSame`: a pin reads the same in two states.
* `Bumpless`: unlinking changes no value read; a link that gives the signal its value leaves the
  value of the pin alone, and any other link that of the signal.
* `bumpless_linking`: this holds in every state reached.
-/

namespace MachinekitHal

open Store Runs

variable {h h' h'' : Hal} {p q : Obj Pin} {g : Obj Sig}

/-- The getters by type. -/
def typedValue (type : HalType) (u : HalDataU) : HalDataU :=
  match type with
  | .halBit => getBitValue u
  | .halS32 | .halU32 => get32Value u
  | _ => u

/-- Copying by type gives the copy the value. -/
lemma typedValue_copy {type : HalType} {dst src v : HalDataU}
    (hc : copyValue type dst src = some v) : typedValue type v = typedValue type src := by
  cases type <;> simp_all [copyValue, typedValue] <;> subst hc <;> simp

namespace Hal

variable (h : Hal)

/-- The value behind a data pointer. -/
def refValue : DataRef → HalDataU
  | .value sig => match h.sigAt sig with
    | some g => g.body.value
    | none => 0
  | .dummysig pin => match h.pinAt pin with
    | some p => p.body.dummysig
    | none => 0

/-- `_get_bit_pin`, `_get_s32_pin`, …: the value read through the data pointer of a pin. -/
def readPin (p : Obj Pin) : HalDataU := typedValue p.body.type (h.refValue p.body.dataPtr)

/-- The value a legacy component reads through its own pointer, if that points into its map of
the segment. -/
def readCell (p : Obj Pin) : Option HalDataU :=
  match h.findOwningComp p.hdr.ownerId.toInt, p.body.dataPtrAddr.bind h.cells with
  | some comp, some d =>
    if d.base = comp.body.shmemBase then some (typedValue p.body.type (h.refValue d.ref))
    else none
  | _, _ => none

end Hal

/-- The pin `p` is there after a change, and the same value is read through it. -/
def SeesSame (h h' : Hal) (p : Obj Pin) : Prop :=
  ∃ p' ∈ h'.pins, p'.off = p.off ∧ p'.hdr.valid = true ∧ p'.body.type = p.body.type ∧
    h'.readPin p' = h.readPin p

/-- No pin reads anything else than before. -/
def KeepsReads (h h' : Hal) : Prop := ∀ p ∈ h.pins, p.hdr.valid = true → SeesSame h h' p

/-- What linking and unlinking do to values in a state. -/
structure Bumpless (h : Hal) : Prop where
  /-- unlinking a pin -/
  unlink : ∀ name, KeepsReads h (h.halgUnlink name).2
  /-- linking a pin that is linked, which is refused or nothing -/
  relink : ∀ name signal p, findByName name h.pins = some p → pinIsLinked p = true →
    KeepsReads h (h.halgLink name signal).2
  /-- deleting a signal -/
  signalDelete : ∀ name, KeepsReads h (h.halgSignalDelete name).2
  /-- the link of an output pin, or of the first pin of a signal -/
  source : ∀ name signal p g, findByName name h.pins = some p → findByName signal h.sigs = some g →
    pinIsLinked p = false → (h.halgLink name signal).1 = none →
    (p.body.dir = .halOut ∨ ∀ q ∈ h.pins, q.hdr.valid = true → q.body.signal ≠ g.off) →
    SeesSame h (h.halgLink name signal).2 p ∧
      typedValue g.body.type ((h.halgLink name signal).2.refValue (.value g.off)) = h.readPin p
  /-- any other link -/
  follower : ∀ name signal p g, findByName name h.pins = some p →
    findByName signal h.sigs = some g → pinIsLinked p = false →
    (h.halgLink name signal).1 = none → p.body.dir ≠ .halOut →
    (∃ q ∈ h.pins, q.hdr.valid = true ∧ q.body.signal = g.off) →
    (h.halgLink name signal).2.refValue (.value g.off) = g.body.value ∧
      ∀ q ∈ h.pins, q.hdr.valid = true → q.off ≠ p.off →
        SeesSame h (h.halgLink name signal).2 q

/-! ### Reading -/

lemma SeesSame.refl (hp : p ∈ h.pins) (hv : p.hdr.valid = true) : SeesSame h h p :=
  ⟨p, hp, rfl, hv, rfl, rfl⟩

/-- The pin is seen in `h'` by what it is there. -/
lemma SeesSame.trans (hs : SeesSame h h' p)
    (hs' : ∀ p' ∈ h'.pins, p'.off = p.off → p'.hdr.valid = true → SeesSame h' h'' p') :
    SeesSame h h'' p := by
  obtain ⟨p', hp', hoff, hv, ht, hr⟩ := hs
  obtain ⟨p'', hp'', hoff', hv', ht', hr'⟩ := hs' p' hp' hoff hv
  exact ⟨p'', hp'', hoff'.trans hoff, hv', ht'.trans ht, hr'.trans hr⟩

lemma KeepsReads.refl (h : Hal) : KeepsReads h h := fun _ hp hv => .refl hp hv

lemma KeepsReads.trans (hk : KeepsReads h h') (hk' : KeepsReads h' h'') : KeepsReads h h'' :=
  fun p hp hv => (hk p hp hv).trans fun p' hp' _ hv' => hk' p' hp' hv'

lemma refValue_value (hnd : (h.sigs.map Obj.off).Nodup) (hg : g ∈ h.sigs) :
    h.refValue (.value g.off) = g.body.value := by
  rw [Hal.refValue, Hal.sigAt, (at?_eq_some hnd).2 ⟨hg, rfl⟩]

lemma refValue_dummysig (hnd : (h.pins.map Obj.off).Nodup) (hp : p ∈ h.pins) :
    h.refValue (.dummysig p.off) = p.body.dummysig := by
  rw [Hal.refValue, Hal.pinAt, (at?_eq_some hnd).2 ⟨hp, rfl⟩]

lemma Linkage.pinLink (hL : Linkage h.asV2) (hp : p ∈ h.pins) (hv : p.hdr.valid = true) :
    (p.body.signal = 0 ∧ p.body.dataPtr = .dummysig p.off) ∨
    ∃ g ∈ h.sigs, g.hdr.valid = true ∧ g.off = p.body.signal ∧ g.body.type = p.body.type ∧
      p.body.dataPtr = .value g.off :=
  (hL.pins p.asV2 (List.mem_map_of_mem hp) hv).link

/-- The value `pin_value` designates is the one read through the data pointer. -/
lemma readPin_eq (hL : Linkage h.asV2) (hp : p ∈ h.pins) (hv : p.hdr.valid = true) :
    h.readPin p = typedValue p.body.type (h.pinValue p) := by
  rw [Hal.readPin, Hal.pinValue]
  rcases hL.pinLink hp hv with ⟨h0, hd⟩ | ⟨g, hg, -, hgo, -, hd⟩
  · rw [hd, refValue_dummysig hL.pinKeys_asV2 hp]
    simp [h0]
  · have hne : p.body.signal ≠ 0 := hgo ▸ hL.sigNe g hg
    have hat : h.sigAt p.body.signal = some g := (at?_eq_some hL.sigKeys).2 ⟨hg, hgo⟩
    have hnd : (h.sigs.map Obj.off).Nodup := hL.sigKeys
    rw [hd, refValue_value hnd hg, if_pos hne, hat]

/-- With a cell of its own, a legacy component reads the same. -/
lemma readCell_eq (hL : Linkage h) (hp : p ∈ h.pins) (hv : p.hdr.valid = true)
    (hl : p.hdr.legacy = true) : h.readCell p = some (h.readPin p) := by
  obtain ⟨a, comp, ha, hc, hcell⟩ := (hL.pins p hp hv).cell hl
  simp [Hal.readCell, Hal.readPin, hc, ha, hcell]

/-! ### One pin repointed -/

section Repoint

variable {ref : DataRef} {sig off : ℕ} {f : Sig → Sig} {F : Pin → Pin}

/-- A signal after a pin was repointed. -/
lemma repoint_refValue_value (hnd : (h.sigs.map Obj.off).Nodup) (hg : g ∈ h.sigs) :
    (h.repoint p ref sig f F).refValue (.value g.off) =
      if g.off = sig then (f g.body).value else g.body.value := by
  have hat : at? Obj.off g.off h.sigs = some g := (at?_eq_some hnd).2 ⟨hg, rfl⟩
  rw [Hal.refValue, Hal.sigAt, repoint_sigs,
    at?_modify (f := fun o : Obj Sig => { o with body := f o.body }) fun _ => rfl, hat]
  by_cases hk : g.off = sig
  · simp [hk]
  · simp [hk, Ne.symm hk]

/-- The dummy signal of a pin after a pin was repointed. -/
lemma repoint_refValue_dummysig (hnd : (h.pins.map Obj.off).Nodup) (hq : q ∈ h.pins) :
    (h.repoint p ref sig f F).refValue (.dummysig q.off) =
      if q.off = p.off then (F q.body).dummysig else q.body.dummysig := by
  have hat : at? Obj.off q.off h.pins = some q := (at?_eq_some hnd).2 ⟨hq, rfl⟩
  rw [Hal.refValue, Hal.pinAt, repoint_pins,
    at?_modify (f := fun o : Obj Pin => { o with body := F o.body }) fun _ => rfl, hat]
  by_cases hk : q.off = p.off
  · simp [hk]
  · simp [hk, Ne.symm hk]

/-- As long as the signal keeps its value, the other pins read the same. -/
lemma SeesSame.repoint_other (hL : Linkage h.asV2)
    (hf : ∀ g ∈ h.sigs, g.off = sig → (f g.body).value = g.body.value) (hq : q ∈ h.pins)
    (hqv : q.hdr.valid = true) (hne : q.off ≠ p.off) :
    SeesSame h (h.repoint p ref sig f F) q := by
  have hnd : (h.sigs.map Obj.off).Nodup := hL.sigKeys
  refine ⟨q, ?_, rfl, hqv, rfl, ?_⟩
  · rw [repoint_pins]
    exact mem_modify_of_ne hq hne
  · rw [Hal.readPin, Hal.readPin]
    rcases hL.pinLink hq hqv with ⟨-, hd⟩ | ⟨g, hg, -, -, -, hd⟩
    · rw [hd, repoint_refValue_dummysig hL.pinKeys_asV2 hq, if_neg hne,
        refValue_dummysig hL.pinKeys_asV2 hq]
    · rw [hd, repoint_refValue_value hnd hg, refValue_value hnd hg]
      split_ifs with hk
      · rw [hf g hg hk]
      · rfl

/-- The repointed pin is there, and reads what its new data pointer designates. -/
lemma mem_repoint (hp : p ∈ h.pins) :
    ({ p with body := F p.body } : Obj Pin) ∈ (h.repoint p ref sig f F).pins := by
  rw [repoint_pins]
  exact mem_modify_self hp rfl

end Repoint

/-! ### Unlinking -/

/-- `unlink_pin` on a linked pin repoints it to its dummy signal, which takes the value of the
signal. -/
lemma unlinkPin_repoint (hnd : (h.pins.map Obj.off).Nodup) (hp : p ∈ h.pins)
    (hl : pinIsLinked p = true) : h.unlinkPin p.off =
      h.repoint p (.dummysig p.off) p.body.signal (Sig.uncount · p.body.dir)
        (Pin.point · (.dummysig p.off) 0
          ((copyValue p.body.type p.body.dummysig (h.pinValue p)).getD p.body.dummysig)) := by
  have hat : h.pinAt p.off = some p := (at?_eq_some hnd).2 ⟨hp, rfl⟩
  rw [Hal.unlinkPin, hat]
  simp only [hl, if_true]
  rfl

/-- Unlinking a pin changes no value read. -/
lemma KeepsReads.unlinkPin (hL : Linkage h.asV2) (hp : p ∈ h.pins) (hv : p.hdr.valid = true) :
    KeepsReads h (h.unlinkPin p.off) := by
  have hnd := hL.pinKeys_asV2
  cases hl : pinIsLinked p with
  | false =>
    have hat : h.pinAt p.off = some p := (at?_eq_some hnd).2 ⟨hp, rfl⟩
    have hself : h.unlinkPin p.off = h := by
      rw [Hal.unlinkPin, hat]
      simp [hl]
    rw [hself]
    exact .refl h
  | true =>
  rw [unlinkPin_repoint hnd hp hl]
  intro q hq hqv
  by_cases hne : q.off = p.off
  · obtain rfl := eq_of_key hnd hq hp hne
    refine ⟨_, mem_repoint hq, rfl, hqv, rfl, ?_⟩
    -- the type of a linked pin is that of its signal, so there is a case for it
    obtain ⟨v, hc⟩ : ∃ v, copyValue q.body.type q.body.dummysig (h.pinValue q) = some v := by
      rcases hL.pinLink hq hqv with ⟨h0, -⟩ | ⟨g, hg, hgv, -, ht, -⟩
      · exact absurd h0 ((hL.pinIsLinked_asV2 hq hqv).1 hl)
      · have hsome := (hL.sigs g hg hgv).type
        rw [ht, copyValue_isSome q.body.type 0 0 q.body.dummysig (h.pinValue q)] at hsome
        exact Option.isSome_iff_exists.mp hsome
    rw [readPin_eq hL hq hqv, Hal.readPin]
    change typedValue q.body.type (Hal.refValue _ (.dummysig q.off)) = _
    rw [repoint_refValue_dummysig hnd hq, if_pos rfl, hc]
    exact typedValue_copy hc
  · exact .repoint_other hL (fun _ _ _ => rfl) hq hqv hne

/-- Unlinking all pins of a signal changes no value read. -/
lemma KeepsReads.unlinkAll (hL : Linkage h.asV2) (sig : ℕ) :
    KeepsReads h (h.foreachPinBySignal sig fun off h => h.unlinkPin off) := by
  have hstep : ∀ (t : Hal) (o : Obj Pin), Linkage t.asV2 → o ∈ t.pins → o.hdr.valid = true →
      Linkage (t.unlinkPin o.off).asV2 := by
    intro t o ht ho hv
    rw [Hal.asV2_unlinkPin]
    exact ht.unlinkPin (p := o.asV2) (List.mem_map_of_mem ho) hv
  have hall : Linkage (h.foreachPinBySignal sig fun off h => h.unlinkPin off).asV2 ∧
      KeepsReads h (h.foreachPinBySignal sig fun off h => h.unlinkPin off) :=
    halgForeach_rule (P := fun t => Linkage t.asV2 ∧ KeepsReads h t)
      (fun t o ht ho hv _ => ⟨hstep t o ht.1 ho hv, ht.2.trans (.unlinkPin ht.1 ho hv)⟩)
      ⟨hL, .refl h⟩
  exact hall.2

/-- Freeing a signal leaves its value in place. -/
lemma refValue_freeSig (off : ℕ) (ref : DataRef) :
    ({ h with sigs := halgFreeObject off h.sigs } : Hal).refValue ref = h.refValue ref := by
  cases ref with
  | dummysig pin => rfl
  | value sig =>
    rw [Hal.refValue, Hal.refValue, Hal.sigAt, Hal.sigAt, halgFreeObject,
      at?_modify Obj.release_off]
    split_ifs
    · cases at? Obj.off sig h.sigs <;> simp
    · rfl

lemma KeepsReads.halgUnlink (hL : Linkage h.asV2) (name : String) :
    KeepsReads h (h.halgUnlink name).2 := by
  rw [Hal.halgUnlink]
  split_ifs
  · exact .refl h
  · exact .refl h
  · cases hf : findByName name h.pins with
    | none => exact .refl h
    | some p => exact .unlinkPin hL (findByName_mem hf).1 (findByName_mem hf).2

lemma KeepsReads.halgSignalDelete (hL : Linkage h.asV2) (name : String) :
    KeepsReads h (h.halgSignalDelete name).2 := by
  rw [Hal.halgSignalDelete]
  split_ifs
  · exact .refl h
  · exact .refl h
  · cases hf : findByName name h.sigs with
    | none => exact .refl h
    | some sig =>
      intro p hp hv
      obtain ⟨p', hp', hoff, hv', ht, hr⟩ := KeepsReads.unlinkAll hL sig.off p hp hv
      refine ⟨p', hp', hoff, hv', ht, ?_⟩
      rw [← hr]
      exact congrArg (typedValue p'.body.type) (refValue_freeSig sig.off p'.body.dataPtr)

/-- Linking a pin that is linked does nothing. -/
lemma halgLink_linked {name signal : String} (hf : findByName name h.pins = some p)
    (hl : pinIsLinked p = true) : (h.halgLink name signal).2 = h := by
  rw [Hal.halgLink]
  split_ifs
  · rfl
  · rfl
  · rfl
  · rw [hf]
    cases findByName signal h.sigs with
    | none => rfl
    | some g =>
      dsimp only
      split_ifs <;> rfl

/-! ### Linking -/

lemma refValue_propagateBarriers (hnd : (h.pins.map Obj.off).Nodup) (ref : DataRef) :
    (h.propagateBarriers g).refValue ref = h.refValue ref := by
  cases ref with
  | value sig =>
    obtain ⟨pins, he⟩ := propagateBarriers_eq (h := h) g
    rw [he]
    rfl
  | dummysig pin =>
    have hoff : ∀ o, (inheritedFrom g o).off = o.off := by
      intro o
      rw [inheritedFrom]
      split_ifs <;> rfl
    have hbody : ∀ o, (inheritedFrom g o).body = o.body := by
      intro o
      rw [inheritedFrom]
      split_ifs <;> rfl
    rw [Hal.refValue, Hal.refValue, Hal.pinAt, Hal.pinAt, propagateBarriers_pins hnd,
      at?_map hoff]
    cases at? Obj.off pin h.pins <;> simp [hbody]

/-- No value read changes by barriers. -/
lemma KeepsReads.propagateBarriers (hnd : (h.pins.map Obj.off).Nodup) :
    KeepsReads h (h.propagateBarriers g) := by
  intro p hp hv
  have hmem : inheritedFrom g p ∈ (h.propagateBarriers g).pins := by
    rw [propagateBarriers_pins hnd]
    exact List.mem_map_of_mem hp
  have hsame : (inheritedFrom g p).off = p.off ∧ (inheritedFrom g p).hdr.valid = p.hdr.valid ∧
      (inheritedFrom g p).body = p.body := by
    rw [inheritedFrom]
    split_ifs
    · cases hd : p.body.dir <;> simp [Halhdr.inherit]
    · exact ⟨rfl, rfl, rfl⟩
  obtain ⟨hoff, hvalid, hbody⟩ := hsame
  refine ⟨_, hmem, hoff, hvalid.trans hv, by rw [hbody], ?_⟩
  rw [Hal.readPin, Hal.readPin, refValue_propagateBarriers hnd, hbody]

/-- The new link: the pin is repointed to the signal, whose value `v` is that of the pin if it is
an output or the first one, else its own. -/
lemma linkPin_repoint (hL : Linkage h.asV2) (hp : p ∈ h.pins) (hpv : p.hdr.valid = true)
    (hg : g ∈ h.sigs) (hgv : g.hdr.valid = true) (hun : pinIsLinked p = false)
    (htype : p.body.type = g.body.type) :
    ∃ v, (if p.body.dir = .halOut ∨ g.body.readers + g.body.writers + g.body.bidirs = 0 then
        copyValue p.body.type g.body.value p.body.dummysig = some v else v = g.body.value) ∧
      h.linkPin p g = (none, (h.repoint p (.value g.off) g.off
        (fun g' => { g'.count p.body.dir with value := v })
        (fun q => { q with dataPtr := .value g.off, signal := g.off })).propagateBarriers g) := by
  have hs0 : p.body.signal = 0 := by
    by_contra hs
    have hlinked := (hL.pinIsLinked_asV2 hp hpv).2 hs
    rw [hun] at hlinked
    exact Bool.false_ne_true hlinked
  have hval : ((h.setCell p (.value g.off)).modifyPin p.off
      fun q => { q with dataPtr := .value g.off }).pinValue p = p.body.dummysig := by
    simp [Hal.pinValue, hs0]
  -- a valid signal has a type with a case in the copy
  obtain ⟨w, hw⟩ : ∃ w, copyValue p.body.type g.body.value p.body.dummysig = some w := by
    have hsome := (hL.sigs g hg hgv).type
    rw [← htype, copyValue_isSome p.body.type 0 0 g.body.value p.body.dummysig] at hsome
    exact Option.isSome_iff_exists.mp hsome
  rw [Hal.linkPin]
  dsimp only
  rw [hval]
  by_cases hin : p.body.dir = .halOut ∨ g.body.readers + g.body.writers + g.body.bidirs = 0
  · refine ⟨w, by rw [if_pos hin, hw], ?_⟩
    rw [if_pos hin, hw]
    simp only [modifyPin_modifyPin]
    rfl
  · refine ⟨g.body.value, by rw [if_neg hin], ?_⟩
    rw [if_neg hin]
    simp only [modifyPin_modifyPin]
    rfl

/-- A link that is made by `halg_link`. -/
lemma halgLink_made {name signal : String} (hL : Linkage h.asV2)
    (hfp : findByName name h.pins = some p) (hfg : findByName signal h.sigs = some g)
    (hun : pinIsLinked p = false) (hrc : (h.halgLink name signal).1 = none) :
    p.body.type = g.body.type ∧ h.halgLink name signal = h.linkPin p g := by
  obtain ⟨hp, hpv⟩ := findByName_mem hfp
  have hne : pinLinkedTo g.off p = false := by
    by_contra hl
    have hs : p.body.signal = g.off := by simpa [pinLinkedTo] using hl
    have hlinked := (hL.pinIsLinked_asV2 hp hpv).2
      (hs ▸ hL.sigNe g (findByName_mem hfg).1)
    rw [hun] at hlinked
    exact Bool.false_ne_true hlinked
  rw [Hal.halgLink, hfp, hfg] at hrc ⊢
  simp only [hne, hun, Bool.false_eq_true, if_false] at hrc ⊢
  split_ifs at hrc ⊢ with _ _ _ ht
  exact ⟨not_not.mp ht, rfl⟩

/-- The counts of a signal add up to `0` exactly if no pin is linked to it. -/
lemma Linkage.counts_eq_zero (hL : Linkage h.asV2) (hg : g ∈ h.sigs) (hgv : g.hdr.valid = true) :
    g.body.readers + g.body.writers + g.body.bidirs = 0 ↔
      ∀ q ∈ h.pins, q.hdr.valid = true → q.body.signal ≠ g.off := by
  have hok := hL.sigs g hg hgv
  rw [hok.readers, hok.writers, hok.bidirs]
  constructor
  · intro hsum q hq hqv hqs
    have hdir := (hL.pins q.asV2 (List.mem_map_of_mem hq) hqv).dir
    have hcount : ∀ sel : HalPinDir → Bool, sel q.body.dir = true →
        0 < linkCount sel g.off h.asV2.pins := by
      intro sel hsel
      refine List.countP_pos_iff.mpr ⟨q.asV2, List.mem_map_of_mem hq, ?_⟩
      simp [Obj.asV2, hqv, pinLinkedTo, hqs, hsel]
    cases hd : q.body.dir with
    | halDirUnspecified => simp [Obj.asV2, hd, halValidDir] at hdir
    | halIn =>
      have h1 := hcount HalPinDir.hasIn (by rw [hd]; rfl)
      omega
    | halIo =>
      have h1 := hcount HalPinDir.hasIn (by rw [hd]; rfl)
      omega
    | halOut =>
      have h1 := hcount (fun d => d = .halOut) (by rw [hd]; rfl)
      omega
  · intro hno
    have hzero : ∀ sel : HalPinDir → Bool, linkCount sel g.off h.asV2.pins = 0 := by
      intro sel
      refine List.countP_eq_zero.mpr fun q' hq' => ?_
      obtain ⟨q, hq, rfl⟩ := List.mem_map.mp hq'
      have hneq := hno q hq
      cases hqv : q.hdr.valid with
      | false => simp [Obj.asV2, hqv]
      | true => simp [Obj.asV2, pinLinkedTo, hneq hqv]
    rw [hzero, hzero, hzero]
    rfl

/-- An output pin, or the first pin of a signal, keeps its value and gives it to the signal. -/
lemma Linkage.link_source {name signal : String} (hL : Linkage h.asV2)
    (hfp : findByName name h.pins = some p) (hfg : findByName signal h.sigs = some g)
    (hun : pinIsLinked p = false) (hrc : (h.halgLink name signal).1 = none)
    (hsrc : p.body.dir = .halOut ∨ ∀ q ∈ h.pins, q.hdr.valid = true → q.body.signal ≠ g.off) :
    SeesSame h (h.halgLink name signal).2 p ∧
      typedValue g.body.type ((h.halgLink name signal).2.refValue (.value g.off)) =
        h.readPin p := by
  obtain ⟨hp, hpv⟩ := findByName_mem hfp
  obtain ⟨hg, hgv⟩ := findByName_mem hfg
  obtain ⟨htype, hlink⟩ := halgLink_made hL hfp hfg hun hrc
  obtain ⟨v, hv, heq⟩ := linkPin_repoint hL hp hpv hg hgv hun htype
  rw [← hL.counts_eq_zero hg hgv] at hsrc
  rw [if_pos hsrc] at hv
  rw [hlink, heq]
  have hnds : (h.sigs.map Obj.off).Nodup := hL.sigKeys
  obtain ⟨t, ht⟩ : ∃ t, t = h.repoint p (.value g.off) g.off
    (fun g' => { g'.count p.body.dir with value := v })
    (fun q => { q with dataPtr := .value g.off, signal := g.off }) := ⟨_, rfl⟩
  have hnd : (t.pins.map Obj.off).Nodup := by
    rw [ht, repoint_pinKeys]
    exact hL.pinKeys_asV2
  have hsig : t.refValue (.value g.off) = v := by
    rw [ht, repoint_refValue_value hnds hg, if_pos rfl]
  -- an unlinked pin reads its dummy signal
  have hread : h.readPin p = typedValue p.body.type p.body.dummysig := by
    rw [readPin_eq hL hp hpv]
    have hs0 : p.body.signal = 0 := by
      by_contra hs
      have hlinked := (hL.pinIsLinked_asV2 hp hpv).2 hs
      rw [hun] at hlinked
      exact Bool.false_ne_true hlinked
    simp [Hal.pinValue, hs0]
  dsimp only
  rw [← ht]
  constructor
  · have hself : SeesSame h t p := by
      refine ⟨{ p with body := { p.body with dataPtr := .value g.off, signal := g.off } }, ?_, rfl,
        hpv, rfl, ?_⟩
      · rw [ht]
        exact mem_repoint hp
      · rw [hread, Hal.readPin]
        change typedValue p.body.type (t.refValue (.value g.off)) = _
        rw [hsig]
        exact typedValue_copy hv
    exact hself.trans fun p' hp' _ hv' => KeepsReads.propagateBarriers hnd p' hp' hv'
  · rw [refValue_propagateBarriers hnd, hsig, ← htype, hread]
    exact typedValue_copy hv

/-- Any other pin leaves the value of the signal alone, and what the other pins read. -/
lemma Linkage.link_follower {name signal : String} (hL : Linkage h.asV2)
    (hfp : findByName name h.pins = some p) (hfg : findByName signal h.sigs = some g)
    (hun : pinIsLinked p = false) (hrc : (h.halgLink name signal).1 = none)
    (hdir : p.body.dir ≠ .halOut)
    (hfirst : ∃ q ∈ h.pins, q.hdr.valid = true ∧ q.body.signal = g.off) :
    (h.halgLink name signal).2.refValue (.value g.off) = g.body.value ∧
      ∀ q ∈ h.pins, q.hdr.valid = true → q.off ≠ p.off →
        SeesSame h (h.halgLink name signal).2 q := by
  obtain ⟨hp, hpv⟩ := findByName_mem hfp
  obtain ⟨hg, hgv⟩ := findByName_mem hfg
  obtain ⟨htype, hlink⟩ := halgLink_made hL hfp hfg hun hrc
  obtain ⟨v, hv, heq⟩ := linkPin_repoint hL hp hpv hg hgv hun htype
  have hnds : (h.sigs.map Obj.off).Nodup := hL.sigKeys
  rw [if_neg] at hv
  · subst hv
    rw [hlink, heq]
    have hnd : ((h.repoint p (.value g.off) g.off
        (fun g' => { g'.count p.body.dir with value := g.body.value })
        fun q => { q with dataPtr := .value g.off, signal := g.off }).pins.map Obj.off).Nodup := by
      rw [repoint_pinKeys]
      exact hL.pinKeys_asV2
    refine ⟨?_, fun q hq hqv hne => ?_⟩
    · rw [refValue_propagateBarriers hnd, repoint_refValue_value hnds hg, if_pos rfl]
    · have hother : SeesSame h (h.repoint p (.value g.off) g.off
          (fun g' => { g'.count p.body.dir with value := g.body.value })
          fun q => { q with dataPtr := .value g.off, signal := g.off }) q :=
        SeesSame.repoint_other hL (fun g' hg' hoff => by rw [eq_of_key hnds hg' hg hoff]) hq hqv hne
      exact hother.trans fun p' hp' _ hv' => KeepsReads.propagateBarriers hnd p' hp' hv'
  · rintro (hout | hzero)
    · exact hdir hout
    · obtain ⟨q, hq, hqv, hqs⟩ := hfirst
      exact (hL.counts_eq_zero hg hgv).mp hzero q hq hqv hqs

/-- Where links and counts are in order, linking is bumpless. -/
lemma Linkage.bumpless (hL : Linkage h.asV2) : Bumpless h where
  unlink := KeepsReads.halgUnlink hL
  relink name signal p hfp hl := by
    rw [halgLink_linked hfp hl]
    exact .refl h
  signalDelete := KeepsReads.halgSignalDelete hL
  source _ _ _ _ hfp hfg hun hrc hsrc := hL.link_source hfp hfg hun hrc hsrc
  follower _ _ _ _ hfp hfg hun hrc hdir hfirst := hL.link_follower hfp hfg hun hrc hdir hfirst

/-- **Bumpless linking.** In every state reached, linking and unlinking are bumpless; the value
read through a pin is the one `pin_value` designates, and, if every legacy pin was given a data
pointer no other valid pin uses, the one the component reads through that pointer. -/
theorem bumpless_linking {s₀ s : GroupHal} (h0 : s₀.Unwired)
    (hr : Reach wireStep (fun s a => wireAlloc s a = true) s₀ s) :
    Bumpless s.toHal ∧
    (∀ p ∈ s.pins, p.hdr.valid = true →
      s.readPin p = typedValue p.body.type (s.pinValue p)) ∧
    (Reach wireStep (fun s a => wireOwnCell s a = true) s₀ s →
      ∀ p ∈ s.pins, p.hdr.valid = true → p.hdr.legacy = true →
        s.readCell p = some (s.readPin p)) := by
  have hL := (wired_reach h0 hr).linkage
  exact ⟨hL.bumpless, fun p hp hv => readPin_eq hL hp hv,
    fun hown p hp hv hl => readCell_eq (linkage_reach h0 hown) hp hv hl⟩

/-- A legacy output pin with the value 7 and an input pin are linked to a signal, in this order,
and the signal is set to 9. -/
def wiredPins : List WireAct :=
  [.link (.pinNew (some ⟨128, 2⟩) .halS32 .halOut (some 2048) 1 7 "out"),
    .link (.pinNew (some ⟨256, 3⟩) .halS32 .halIn none 1 5 "in"),
    .link (.signalNew (some ⟨384, 4⟩) "sig" .halS32), .link (.link "out" "sig"),
    .link (.link "in" "sig"), .write (.value 384) 9]

/-- Both pins read 9 in the end. -/
theorem bumpless_linking_wiredPins :
    ∃ s, run wireStep wireOwnCell oneCompGroups wiredPins = some s ∧
      (s.pins.map fun p => s.readPin p) = [9, 9] ∧ Bumpless s.toHal ∧
      ∀ p ∈ s.pins, p.hdr.valid = true → p.hdr.legacy = true →
        s.readCell p = some (s.readPin p) := by
  have hs : (run wireStep wireOwnCell oneCompGroups wiredPins).map
      (fun s => s.pins.map fun p => s.readPin p) = some [9, 9] := by decide
  obtain ⟨s, hs, hv, hown⟩ := run_map hs
  have hr : Reach wireStep (fun s a => wireAlloc s a = true) oneCompGroups s :=
    hown.mono fun h => (Bool.and_eq_true_iff.mp h).1
  obtain ⟨hb, -, hcell⟩ := bumpless_linking oneCompGroups_unwired hr
  exact ⟨s, hs, hv, hb, hcell hown⟩

end MachinekitHal
