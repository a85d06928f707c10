import MachinekitHal.Hal.Signal

/-!
The link counts, the writer rule and the data pointers, as an invariant of the
operations on pins and signals.

* `Linkage`: the invariant. `PinOk` is its part about one pin: it is either unlinked
  and points to its own dummy signal, or linked to a valid signal of its type and
  points to the value of that signal; a legacy pin's cell holds the same address as
  seen from its component. `SigOk` is its part about one signal.
* `Linkage.repoint`: linking and unlinking are one kind of change; `Linkage.unlinkPin`
  and `Linkage.linkPin` instantiate it.
* `Linkage.halgPinNewfv`, `Linkage.freePinStruct`, `Linkage.halgLink`, …: one lemma for
  each operation.
-/

namespace MachinekitHal

open Store

/-! ### The invariant -/

/-- The valid pins linked to the signal at `sig` whose direction meets `sel`. -/
def linkCount (sel : HalPinDir → Bool) (sig : ℕ) (pins : List (Obj Pin)) : ℕ :=
  pins.countP fun p => p.hdr.valid && pinLinkedTo sig p && sel p.body.dir

/-- The link state of one pin. -/
structure PinOk (h : Hal) (p : Obj Pin) : Prop where
  dir : halValidDir p.body.dir = true
  link : (p.body.signal = 0 ∧ p.body.dataPtr = .dummysig p.off) ∨
    ∃ g ∈ h.sigs, g.hdr.valid = true ∧ g.off = p.body.signal ∧ g.body.type = p.body.type ∧
      p.body.dataPtr = .value g.off
  cell : p.hdr.legacy = true → ∃ a comp, p.body.dataPtrAddr = some a ∧
    h.findOwningComp p.hdr.ownerId.toInt = some comp ∧
    h.cells a = some ⟨comp.body.shmemBase, p.body.dataPtr⟩

/-- The counts of one signal. -/
structure SigOk (pins : List (Obj Pin)) (g : Obj Sig) : Prop where
  readers : g.body.readers = linkCount HalPinDir.hasIn g.off pins
  writers : g.body.writers = linkCount (fun d => d = .halOut) g.off pins
  bidirs : g.body.bidirs = linkCount (fun d => d = .halIo) g.off pins
  oneWriter : g.body.writers ≤ 1
  noBidir : g.body.writers = 1 → g.body.bidirs = 0
  type : (copyValue g.body.type 0 0).isSome = true

/-- The linkage invariant. -/
structure Linkage (h : Hal) : Prop where
  pinKeys : (h.pins.map Obj.off).Nodup
  sigKeys : (h.sigs.map Obj.off).Nodup
  sigNe : ∀ g ∈ h.sigs, g.off ≠ 0
  pins : ∀ p ∈ h.pins, p.hdr.valid = true → PinOk h p
  sigs : ∀ g ∈ h.sigs, g.hdr.valid = true → SigOk h.pins g
  cells : ∀ p ∈ h.pins, ∀ q ∈ h.pins, p.hdr.valid = true → q.hdr.valid = true →
    p.hdr.legacy = true → q.hdr.legacy = true → p.body.dataPtrAddr = q.body.dataPtrAddr → p = q

/-! ### What one pin sees of the state -/

/-- The parts of the state a pin depends on. -/
structure SameView (h h' : Hal) (p p' : Obj Pin) : Prop where
  owner : ∀ i, h'.findOwningComp i = h.findOwningComp i
  sig : ∀ g ∈ h.sigs, g.hdr.valid = true → g.off = p.body.signal →
    ∃ g' ∈ h'.sigs, g'.hdr.valid = true ∧ g'.off = g.off ∧ g'.body.type = g.body.type
  cell : p.hdr.legacy = true → ∀ a, p.body.dataPtrAddr = some a → h'.cells a = h.cells a
  off : p'.off = p.off
  ownerId : p'.hdr.ownerId = p.hdr.ownerId
  legacy : p'.hdr.legacy = p.hdr.legacy
  body : p'.body = p.body

/-- A pin that sees the same is in the same link state. -/
lemma PinOk.congr {h h' : Hal} {p p' : Obj Pin} (hp : PinOk h p) (hv : SameView h h' p p') :
    PinOk h' p' := by
  obtain ⟨howner, hsig, hcell, hoff, hid, hleg, hbody⟩ := hv
  refine ⟨hbody ▸ hp.dir, ?_, ?_⟩
  · rw [hbody, hoff]
    rcases hp.link with hun | ⟨g, hg, hgv, hgo, hgt, hdp⟩
    · exact .inl hun
    · obtain ⟨g', hg', hgv', hgo', hgt'⟩ := hsig g hg hgv hgo
      exact .inr ⟨g', hg', hgv', hgo' ▸ hgo, hgt' ▸ hgt, hgo' ▸ hdp⟩
  · intro hl
    rw [hleg] at hl
    obtain ⟨a, comp, ha, hc, hcl⟩ := hp.cell hl
    refine ⟨a, comp, hbody ▸ ha, ?_, ?_⟩
    · rw [hid, howner, hc]
    · rw [hcell hl a ha, hcl, hbody]

/-- A pin is linked, in the sense of `pin_is_linked`, when its signal is set. -/
lemma PinOk.pinIsLinked_iff {h : Hal} {p : Obj Pin} (hp : PinOk h p)
    (hne : ∀ g ∈ h.sigs, g.off ≠ 0) : pinIsLinked p = true ↔ p.body.signal ≠ 0 := by
  rcases hp.link with ⟨hs, hd⟩ | ⟨g, hg, _, hgo, _, hd⟩
  · simp [pinIsLinked, hs, hd]
  · have h0 : p.body.signal ≠ 0 := hgo ▸ hne g hg
    simp [pinIsLinked, hd, h0]

/-! ### The cell of a legacy pin -/

namespace Hal

variable (h : Hal) (pin : Obj Pin) (ref : DataRef)

@[simp] lemma setCell_pins : (h.setCell pin ref).pins = h.pins := by
  rw [setCell]
  split <;> rfl

@[simp] lemma setCell_sigs : (h.setCell pin ref).sigs = h.sigs := by
  rw [setCell]
  split <;> rfl

@[simp] lemma setCell_findOwningComp (i : ℤ) :
    (h.setCell pin ref).findOwningComp i = h.findOwningComp i := by
  rw [setCell]
  split <;> rfl

/-- Only the cell of the pin is written. -/
lemma setCell_cells_ne {a : ℕ} (ha : pin.hdr.legacy = true → pin.body.dataPtrAddr ≠ some a) :
    (h.setCell pin ref).cells a = h.cells a := by
  rw [setCell]
  split
  · next b comp hl hb hc =>
      have hne : a ≠ b := fun hab => ha hl (hab ▸ hb)
      exact Function.update_of_ne hne _ _
  · rfl

/-- The cell of a legacy pin holds the address as its component sees it. -/
lemma setCell_cells_self {a : ℕ} {comp : Obj Comp} (hl : pin.hdr.legacy = true)
    (ha : pin.body.dataPtrAddr = some a)
    (hc : h.findOwningComp pin.hdr.ownerId.toInt = some comp) :
    (h.setCell pin ref).cells a = some ⟨comp.body.shmemBase, ref⟩ := by
  simp [setCell, hl, ha, hc]

@[simp] lemma modifyPin_sigs (off : ℕ) (f : Pin → Pin) : (h.modifyPin off f).sigs = h.sigs := rfl
@[simp] lemma modifyPin_cells (off : ℕ) (f : Pin → Pin) :
    (h.modifyPin off f).cells = h.cells := rfl
@[simp] lemma modifyPin_findOwningComp (off : ℕ) (f : Pin → Pin) (i : ℤ) :
    (h.modifyPin off f).findOwningComp i = h.findOwningComp i := rfl
@[simp] lemma modifySig_pins (off : ℕ) (f : Sig → Sig) : (h.modifySig off f).pins = h.pins := rfl
@[simp] lemma modifySig_cells (off : ℕ) (f : Sig → Sig) :
    (h.modifySig off f).cells = h.cells := rfl
@[simp] lemma modifySig_findOwningComp (off : ℕ) (f : Sig → Sig) (i : ℤ) :
    (h.modifySig off f).findOwningComp i = h.findOwningComp i := rfl

end Hal

/-- Changing descriptors keeps the signals, their validity and their types. -/
lemma sig_modifySig {h : Hal} (off : ℕ) {f : Sig → Sig} (hf : ∀ g, (f g).type = g.type)
    {g : Obj Sig} (hg : g ∈ h.sigs) (hv : g.hdr.valid = true) :
    ∃ g' ∈ (h.modifySig off f).sigs,
      g'.hdr.valid = true ∧ g'.off = g.off ∧ g'.body.type = g.body.type := by
  by_cases hk : g.off = off
  · exact ⟨_, mem_modify_self hg hk, hv, rfl, hf _⟩
  · exact ⟨g, mem_modify_of_ne hg hk, hv, rfl, rfl⟩

/-! ### The counts -/

/-- What changing the descriptor of one pin does to a count. -/
lemma linkCount_modify {pins : List (Obj Pin)} {p : Obj Pin} {F : Pin → Pin} {s : ℕ}
    (sel : HalPinDir → Bool) (hnd : (pins.map Obj.off).Nodup) (hp : p ∈ pins)
    (hv : p.hdr.valid = true) (hdir : (F p.body).dir = p.body.dir) :
    linkCount sel s (modify Obj.off p.off (fun o => { o with body := F o.body }) pins)
        + (if p.body.signal = s ∧ sel p.body.dir = true then 1 else 0)
      = linkCount sel s pins
        + (if (F p.body).signal = s ∧ sel p.body.dir = true then 1 else 0) := by
  have hc := countP_modify (f := fun o : Obj Pin => { o with body := F o.body })
    (p := fun q => q.hdr.valid && pinLinkedTo s q && sel q.body.dir) hnd hp rfl
  simpa [linkCount, pinLinkedTo, hv, hdir] using hc

/-- The counts of a signal of which no pin was linked or unlinked. -/
lemma SigOk.congr {pins pins' : List (Obj Pin)} {g : Obj Sig} (hg : SigOk pins g)
    (hc : ∀ sel, linkCount sel g.off pins' = linkCount sel g.off pins) : SigOk pins' g :=
  ⟨by rw [hc, hg.readers], by rw [hc, hg.writers], by rw [hc, hg.bidirs], hg.oneWriter,
    hg.noBidir, hg.type⟩

/-- The counts of a signal that lost a pin of direction `dir`. -/
lemma SigOk.uncount {pins pins' : List (Obj Pin)} {g : Obj Sig} {dir : HalPinDir}
    (hg : SigOk pins g)
    (hc : ∀ sel, linkCount sel g.off pins' + (if sel dir = true then 1 else 0)
      = linkCount sel g.off pins) :
    SigOk pins' { g with body := g.body.uncount dir } := by
  obtain ⟨hr, hw, hb, h1, h2, ht⟩ := hg
  have hcr := hc HalPinDir.hasIn
  have hcw := hc fun d => d = .halOut
  have hcb := hc fun d => d = .halIo
  rw [← Int.natCast_inj] at hcr hcw hcb
  cases dir <;> simp [HalPinDir.hasIn] at hcr hcw hcb <;>
    exact ⟨by simp [Sig.uncount, HalPinDir.hasIn]; omega, by simp [Sig.uncount]; omega,
      by simp [Sig.uncount]; omega, by simp [Sig.uncount]; omega, by simp [Sig.uncount]; omega, ht⟩

/-- The counts of a signal that gained a pin of direction `dir`, under the checks of
`halg_link`. -/
lemma SigOk.count {pins pins' : List (Obj Pin)} {g : Obj Sig} {dir : HalPinDir} {v : HalDataU}
    (hg : SigOk pins g) (hvd : halValidDir dir = true)
    (hout : dir = .halOut → g.body.writers ≤ 0 ∧ g.body.bidirs ≤ 0)
    (hio : dir = .halIo → g.body.writers ≤ 0)
    (hc : ∀ sel, linkCount sel g.off pins'
      = linkCount sel g.off pins + (if sel dir = true then 1 else 0)) :
    SigOk pins' { g with body := { g.body.count dir with value := v } } := by
  obtain ⟨hr, hw, hb, h1, h2, ht⟩ := hg
  have hcr := hc HalPinDir.hasIn
  have hcw := hc fun d => d = .halOut
  have hcb := hc fun d => d = .halIo
  rw [← Int.natCast_inj] at hcr hcw hcb
  cases dir <;> simp [HalPinDir.hasIn, halValidDir] at hcr hcw hcb hout hio hvd <;>
    exact ⟨by simp [Sig.count, HalPinDir.hasIn]; omega, by simp [Sig.count]; omega,
      by simp [Sig.count]; omega, by simp [Sig.count]; omega, by simp [Sig.count]; omega, ht⟩

/-! ### Repointing one pin -/

/-- A pin is pointed elsewhere and the signal at `sig` is told: the common shape of
linking and unlinking. -/
def Hal.repoint (h : Hal) (p : Obj Pin) (ref : DataRef) (sig : ℕ) (f : Sig → Sig)
    (F : Pin → Pin) : Hal :=
  ((h.setCell p ref).modifySig sig f).modifyPin p.off F

section Repoint

variable {h : Hal} {p : Obj Pin} {ref : DataRef} {sig : ℕ} {f : Sig → Sig} {F : Pin → Pin}

lemma repoint_pins : (h.repoint p ref sig f F).pins
    = modify Obj.off p.off (fun o => { o with body := F o.body }) h.pins := by
  simp [Hal.repoint, Hal.modifyPin]

lemma repoint_sigs : (h.repoint p ref sig f F).sigs
    = modify Obj.off sig (fun o => { o with body := f o.body }) h.sigs := by
  simp [Hal.repoint, Hal.modifySig]

lemma repoint_pinKeys : (h.repoint p ref sig f F).pins.map Obj.off = h.pins.map Obj.off := by
  rw [repoint_pins]
  exact keys_modify fun _ => rfl

lemma repoint_sigKeys : (h.repoint p ref sig f F).sigs.map Obj.off = h.sigs.map Obj.off := by
  rw [repoint_sigs]
  exact keys_modify fun _ => rfl

/-- A pin other than the repointed one is in the link state it was in. -/
lemma PinOk.repoint (hL : Linkage h) (hp : p ∈ h.pins) (hv : p.hdr.valid = true)
    (hf : ∀ g, (f g).type = g.type) {q : Obj Pin} (hq : q ∈ h.pins) (hqv : q.hdr.valid = true)
    (hne : q.off ≠ p.off) : PinOk (h.repoint p ref sig f F) q := by
  refine (hL.pins q hq hqv).congr ⟨fun i => by simp [Hal.repoint], ?_, ?_, rfl, rfl, rfl, rfl⟩
  · intro g hg hgv _
    have hg' : g ∈ (h.setCell p ref).sigs := by simpa using hg
    obtain ⟨g', hmem, hvg, hog, htg⟩ := sig_modifySig sig hf hg' hgv
    exact ⟨g', by simpa [Hal.repoint] using hmem, hvg, hog, htg⟩
  · intro hl a ha
    refine h.setCell_cells_ne p ref fun hlp hap => hne ?_
    exact congrArg Obj.off (hL.cells q hq p hp hqv hv hl hlp (ha.trans hap.symm))

/-- Repointing a pin keeps the invariant if the pin and the counts come out right. -/
lemma Linkage.repoint (hL : Linkage h) (hp : p ∈ h.pins) (hv : p.hdr.valid = true)
    (hf : ∀ g, (f g).type = g.type) (hF : ∀ q, (F q).dataPtrAddr = q.dataPtrAddr)
    (hpin : PinOk (h.repoint p ref sig f F) { p with body := F p.body })
    (hsig : ∀ g ∈ h.sigs, g.hdr.valid = true → g.off = sig →
      SigOk (h.repoint p ref sig f F).pins { g with body := f g.body })
    (hother : ∀ g ∈ h.sigs, g.hdr.valid = true → g.off ≠ sig →
      SigOk (h.repoint p ref sig f F).pins g) :
    Linkage (h.repoint p ref sig f F) := by
  have hget : ∀ q' ∈ (h.repoint p ref sig f F).pins, ∃ q ∈ h.pins,
      (q' = q ∧ q.off ≠ p.off) ∨ (q = p ∧ q' = { p with body := F p.body }) := by
    intro q' hq'
    rw [repoint_pins] at hq'
    obtain ⟨q, hq, rfl⟩ := mem_modify.1 hq'
    by_cases hk : q.off = p.off
    · obtain rfl := eq_of_key hL.pinKeys hq hp hk
      exact ⟨q, hq, .inr ⟨rfl, by simp⟩⟩
    · exact ⟨q, hq, .inl ⟨by simp [hk], hk⟩⟩
  refine ⟨?_, ?_, ?_, ?_, ?_, ?_⟩
  · rw [repoint_pinKeys]
    exact hL.pinKeys
  · rw [repoint_sigKeys]
    exact hL.sigKeys
  · rw [repoint_sigs]
    exact forall_modify (fun g hg _ => hL.sigNe g hg) fun g hg _ => hL.sigNe g hg
  · intro q' hq' hqv
    obtain ⟨q, hq, ⟨rfl, hne⟩ | ⟨rfl, rfl⟩⟩ := hget q' hq'
    · exact PinOk.repoint hL hp hv hf hq hqv hne
    · exact hpin
  · intro g' hg' hgv
    rw [repoint_sigs] at hg'
    obtain ⟨g, hg, rfl⟩ := mem_modify.1 hg'
    split_ifs at hgv ⊢ with hk
    · exact hsig g hg hgv hk
    · exact hother g hg hgv hk
  · -- repointing moves no cell to another pin
    have hrep : ∀ q' ∈ (h.repoint p ref sig f F).pins, ∃ q ∈ h.pins, q.off = q'.off ∧
        q.hdr = q'.hdr ∧ q.body.dataPtrAddr = q'.body.dataPtrAddr := by
      intro q' hq'
      obtain ⟨q, hq, ⟨rfl, _⟩ | ⟨rfl, rfl⟩⟩ := hget q' hq'
      · exact ⟨q', hq, rfl, rfl, rfl⟩
      · exact ⟨q, hq, rfl, rfl, (hF _).symm⟩
    have hnd : ((h.repoint p ref sig f F).pins.map Obj.off).Nodup := by
      rw [repoint_pinKeys]
      exact hL.pinKeys
    intro a' ha' b' hb' hav hbv hal hbl hab
    obtain ⟨a, ha, hao, hah, had⟩ := hrep a' ha'
    obtain ⟨b, hb, hbo, hbh, hbd⟩ := hrep b' hb'
    have heq : a = b := hL.cells a ha b hb (hah ▸ hav) (hbh ▸ hbv) (hah ▸ hal) (hbh ▸ hbl)
      (by rw [had, hbd, hab])
    exact eq_of_key hnd ha' hb' (by rw [← hao, ← hbo, heq])

end Repoint

/-! ### Unlinking -/

/-- `unlink_pin` on a linked pin. -/
lemma unlinkPin_eq {h : Hal} (hL : Linkage h) {p : Obj Pin} (hp : p ∈ h.pins)
    (hl : pinIsLinked p = true) :
    ∃ dummy, h.unlinkPin p.off = h.repoint p (.dummysig p.off) p.body.signal
      (Sig.uncount · p.body.dir) (Pin.point · (.dummysig p.off) 0 dummy) := by
  have hat : h.pinAt p.off = some p := (at?_eq_some hL.pinKeys).2 ⟨hp, rfl⟩
  refine ⟨(copyValue p.body.type p.body.dummysig (h.pinValue p)).getD p.body.dummysig, ?_⟩
  rw [Hal.unlinkPin, hat]
  simp [hl, Hal.repoint]

/-- `unlink_pin` on an unlinked pin does nothing. -/
lemma unlinkPin_of_not_linked {h : Hal} (hL : Linkage h) {p : Obj Pin} (hp : p ∈ h.pins)
    (hl : pinIsLinked p = false) : h.unlinkPin p.off = h := by
  have hat : h.pinAt p.off = some p := (at?_eq_some hL.pinKeys).2 ⟨hp, rfl⟩
  rw [Hal.unlinkPin, hat]
  simp [hl]

/-- Unlinking a valid pin keeps the invariant. -/
lemma Linkage.unlinkPin {h : Hal} (hL : Linkage h) {p : Obj Pin} (hp : p ∈ h.pins)
    (hv : p.hdr.valid = true) : Linkage (h.unlinkPin p.off) := by
  cases hl : pinIsLinked p with
  | false => rwa [unlinkPin_of_not_linked hL hp hl]
  | true =>
    obtain ⟨dummy, heq⟩ := unlinkPin_eq hL hp hl
    have hok := hL.pins p hp hv
    have hcount : ∀ (sel : HalPinDir → Bool) (g : Obj Sig), g ∈ h.sigs →
        linkCount sel g.off (h.unlinkPin p.off).pins
          + (if p.body.signal = g.off ∧ sel p.body.dir = true then 1 else 0)
        = linkCount sel g.off h.pins := by
      intro sel g hg
      have hm := linkCount_modify (F := (Pin.point · (.dummysig p.off) 0 dummy)) (s := g.off)
        sel hL.pinKeys hp hv rfl
      rw [heq, repoint_pins]
      simpa [Pin.point, (hL.sigNe g hg).symm] using hm
    rw [heq] at hcount ⊢
    refine hL.repoint hp hv (fun _ => rfl) (fun _ => rfl) ⟨hok.dir, .inl ⟨rfl, rfl⟩, ?_⟩ ?_ ?_
    · intro hleg
      obtain ⟨a, comp, ha, hc, _⟩ := hok.cell hleg
      exact ⟨a, comp, ha, by simpa [Hal.repoint] using hc,
        h.setCell_cells_self p (.dummysig p.off) hleg ha hc⟩
    · intro g hg hgv hgo
      refine (hL.sigs g hg hgv).uncount fun sel => ?_
      simpa [hgo] using hcount sel g hg
    · intro g hg hgv hgo
      refine (hL.sigs g hg hgv).congr fun sel => ?_
      simpa [Ne.symm hgo] using hcount sel g hg

/-- After unlinking, the pin is linked to no signal; nothing else is linked anew. -/
lemma mem_unlinkPin {h : Hal} (hL : Linkage h) {p q : Obj Pin} (hp : p ∈ h.pins)
    (hv : p.hdr.valid = true) (hq : q ∈ (h.unlinkPin p.off).pins) :
    (q.off = p.off → q.body.signal = 0 ∧ q.hdr = p.hdr) ∧ (q.off ≠ p.off → q ∈ h.pins) := by
  have hok := hL.pins p hp hv
  cases hl : pinIsLinked p with
  | false =>
    rw [unlinkPin_of_not_linked hL hp hl] at hq
    refine ⟨fun hoff => ?_, fun _ => hq⟩
    obtain rfl := eq_of_key hL.pinKeys hq hp hoff
    have h0 := (hok.pinIsLinked_iff hL.sigNe).not.1 (by simp [hl])
    exact ⟨by simpa using h0, rfl⟩
  | true =>
    obtain ⟨dummy, heq⟩ := unlinkPin_eq hL hp hl
    rw [heq, repoint_pins] at hq
    obtain ⟨o, ho, rfl⟩ := mem_modify.1 hq
    by_cases hk : o.off = p.off
    · obtain rfl := eq_of_key hL.pinKeys ho hp hk
      simp [Pin.point]
    · simp [hk, ho]

/-- Pins that were unlinked, released, swept or given other barriers: fewer pins are
valid, each was there before, and no linked pin went missing. -/
lemma Linkage.fewerPins {h : Hal} (hL : Linkage h) {pins : List (Obj Pin)}
    (hnd : (pins.map Obj.off).Nodup)
    (hsub : ∀ p ∈ pins, p.hdr.valid = true → ∃ q ∈ h.pins, q.hdr.valid = true ∧
      p.off = q.off ∧ p.hdr.ownerId = q.hdr.ownerId ∧ p.hdr.legacy = q.hdr.legacy ∧
      p.body = q.body)
    (hcount : ∀ sel, ∀ g ∈ h.sigs, linkCount sel g.off pins = linkCount sel g.off h.pins) :
    Linkage { h with pins := pins } := by
  refine ⟨hnd, hL.sigKeys, hL.sigNe, ?_, ?_, ?_⟩
  · intro p hp hv
    obtain ⟨q, hq, hqv, hoff, hid, hleg, hbody⟩ := hsub p hp hv
    exact (hL.pins q hq hqv).congr
      ⟨fun _ => rfl, fun g hg hgv _ => ⟨g, hg, hgv, rfl, rfl⟩, fun _ _ _ => rfl, hoff, hid, hleg,
        hbody⟩
  · intro g hg hgv
    exact (hL.sigs g hg hgv).congr fun sel => hcount sel g hg
  · intro p hp q hq hpv hqv hpl hql hpq
    obtain ⟨p', hp', hpv', hpo, _, hpl', hpb⟩ := hsub p hp hpv
    obtain ⟨q', hq', hqv', hqo, _, hql', hqb⟩ := hsub q hq hqv
    have heq : p' = q' := hL.cells p' hp' q' hq' hpv' hqv' (hpl' ▸ hpl) (hql' ▸ hql)
      (by rw [← hpb, ← hqb, hpq])
    exact eq_of_key hnd hp hq (by rw [hpo, hqo, heq])

/-- Deleting a valid pin keeps the invariant. -/
lemma Linkage.freePinStruct {h : Hal} (hL : Linkage h) {p : Obj Pin} (hp : p ∈ h.pins)
    (hv : p.hdr.valid = true) : Linkage (h.freePinStruct p.off) := by
  have hL' := hL.unlinkPin hp hv
  have hun : ∀ q ∈ (h.unlinkPin p.off).pins, q.off = p.off → q.body.signal = 0 :=
    fun q hq hoff => ((mem_unlinkPin hL hp hv hq).1 hoff).1
  refine hL'.fewerPins ?_ ?_ ?_
  · rw [keys_free]
    exact hL'.pinKeys
  · intro q hq hqv
    exact ⟨q, mem_of_mem_free hq hqv, hqv, rfl, rfl, rfl, rfl⟩
  · -- the released pin counts for no signal
    intro sel g hg
    have hne : (0 == g.off) = false := by simpa using (hL'.sigNe g hg).symm
    refine countP_modify_of_iff fun q hq hoff => ?_
    simp [pinLinkedTo, hun q hq hoff, hne]

/-! ### Traversals over the pins of a signal -/

/-- Unlinking the pins of a signal keeps the invariant and leaves none linked. -/
lemma Linkage.unlinkAll {h : Hal} (hL : Linkage h) (sig : ℕ) (h0 : sig ≠ 0) :
    Linkage (h.foreachPinBySignal sig fun off h => h.unlinkPin off) ∧
    ∀ p ∈ (h.foreachPinBySignal sig fun off h => h.unlinkPin off).pins,
      p.hdr.valid = true → p.body.signal ≠ sig := by
  have hcb : ∀ (s : Hal) (o : Obj Pin), Linkage s → o ∈ s.pins → o.hdr.valid = true →
      pinLinkedTo sig o = true → Linkage (s.unlinkPin o.off) :=
    fun s o hs ho hv _ => hs.unlinkPin ho hv
  refine ⟨halgForeach_rule hcb hL, ?_⟩
  have hclear : ∀ p ∈ (h.foreachPinBySignal sig fun off h => h.unlinkPin off).pins,
      p.hdr.valid = true → ¬ pinLinkedTo sig p = true := by
    refine halgForeach_clears (fun _ hb => hb) hcb (fun s hs => hs.pinKeys) ?_ hL
    intro s o hs ho hv _ q hq hqv hsel
    have hmem := mem_unlinkPin hs ho hv hq
    have hne : q.off ≠ o.off := by
      intro hoff
      have hsig : q.body.signal = sig := by simpa [pinLinkedTo] using hsel
      exact h0 (hsig ▸ (hmem.1 hoff).1)
    exact ⟨hne, q, hmem.2 hne, rfl, hqv, hsel⟩
  intro p hp hv hs
  exact hclear p hp hv (by simp [pinLinkedTo, hs])

/-- Barrier inheritance touches nothing of the linkage. -/
lemma Linkage.propagateBarriers {h : Hal} (hL : Linkage h) (sig : Obj Sig) :
    Linkage (h.propagateBarriers sig) := by
  refine halgForeach_rule (P := Linkage) (fun s o hs _ _ _ => ?_) hL
  have hdr : ∀ q : Obj Pin, (q.hdr.inherit sig.hdr q.body.dir).valid = q.hdr.valid ∧
      (q.hdr.inherit sig.hdr q.body.dir).ownerId = q.hdr.ownerId ∧
      (q.hdr.inherit sig.hdr q.body.dir).legacy = q.hdr.legacy := by
    intro q
    cases hd : q.body.dir <;> simp [Halhdr.inherit]
  have hkeys : (s.propagateBarriersCb sig.hdr o.off).pins.map Obj.off = s.pins.map Obj.off :=
    keys_modify fun _ => rfl
  refine hs.fewerPins (hkeys ▸ hs.pinKeys) ?_ ?_
  · intro q' hq' hqv
    obtain ⟨q, hq, rfl⟩ := mem_modify.1 hq'
    refine ⟨q, hq, ?_⟩
    split_ifs at hqv ⊢ with hk
    · exact ⟨(hdr q).1 ▸ hqv, rfl, (hdr q).2.1, (hdr q).2.2, rfl⟩
    · exact ⟨hqv, rfl, rfl, rfl, rfl⟩
  · intro sel g _
    refine countP_modify_of_iff fun q _ _ => ?_
    simp [(hdr q).1, pinLinkedTo]

/-! ### Signals -/

/-- Fewer valid signals, to none of the missing ones a valid pin is linked. -/
lemma Linkage.fewerSigs {h : Hal} (hL : Linkage h) {sigs : List (Obj Sig)}
    (hnd : (sigs.map Obj.off).Nodup) (hne : ∀ g ∈ sigs, g.off ≠ 0)
    (hsub : ∀ g ∈ sigs, g.hdr.valid = true → g ∈ h.sigs)
    (hkeep : ∀ g ∈ h.sigs, g.hdr.valid = true →
      (∃ p ∈ h.pins, p.hdr.valid = true ∧ p.body.signal = g.off) → g ∈ sigs) :
    Linkage { h with sigs := sigs } := by
  refine ⟨hL.pinKeys, hnd, hne, ?_, fun g hg hgv => hL.sigs g (hsub g hg hgv) hgv, hL.cells⟩
  intro p hp hv
  refine (hL.pins p hp hv).congr ⟨fun _ => rfl, ?_, fun _ _ _ => rfl, rfl, rfl, rfl, rfl⟩
  intro g hg hgv hgo
  exact ⟨g, hkeep g hg hgv ⟨p, hp, hv, hgo.symm⟩, hgv, rfl, rfl⟩

/-- `free_sig_struct` keeps the invariant, whether the signal goes or stays. -/
lemma Linkage.freeSigStruct {h : Hal} (hL : Linkage h) {sig : Obj Sig} (hs : sig ∈ h.sigs) :
    Linkage (h.freeSigStruct sig).2 := by
  obtain ⟨hL', hno⟩ := hL.unlinkAll sig.off (hL.sigNe sig hs)
  refine hL'.fewerSigs ?_ ?_ ?_ ?_
  · rw [keys_free]
    exact hL'.sigKeys
  · intro g hg
    have hk : g.off ∈ (halgFreeObject sig.off
        (h.foreachPinBySignal sig.off fun off h => h.unlinkPin off).sigs).map Obj.off :=
      List.mem_map_of_mem hg
    rw [keys_free] at hk
    obtain ⟨g', hg', hoff⟩ := List.mem_map.1 hk
    exact hoff ▸ hL'.sigNe g' hg'
  · exact fun g hg hgv => mem_of_mem_free hg hgv
  · rintro g hg _ ⟨p, hp, hpv, hps⟩
    exact mem_modify_of_ne hg fun hoff => hno p hp hpv (hps.trans hoff)

/-- `halg_signal_delete` keeps the invariant. -/
lemma Linkage.halgSignalDelete {h : Hal} (hL : Linkage h) (name : String) :
    Linkage (h.halgSignalDelete name).2 := by
  rw [Hal.halgSignalDelete]
  split_ifs
  · exact hL
  · exact hL
  · cases hf : findByName name h.sigs with
    | none => exact hL
    | some sig => exact hL.freeSigStruct (findByName_mem hf).1

/-- No valid pin refers to an offset at which no signal is. -/
lemma Linkage.linkCount_eq_zero {h : Hal} (hL : Linkage h) {off : ℕ} (h0 : off ≠ 0)
    (hno : ∀ g ∈ h.sigs, g.off ≠ off) (sel : HalPinDir → Bool) : linkCount sel off h.pins = 0 := by
  refine List.countP_eq_zero.2 fun p hp hsel => ?_
  simp only [pinLinkedTo, Bool.and_eq_true, beq_iff_eq] at hsel
  rcases (hL.pins p hp hsel.1.1).link with ⟨hs, _⟩ | ⟨g, hg, _, hgo, _⟩
  · exact h0 (hsel.1.2 ▸ hs)
  · exact hno g hg (hgo.trans hsel.1.2)

/-- `halg_signal_new` keeps the invariant. -/
lemma Linkage.halgSignalNew {h : Hal} (hL : Linkage h)
    {mem : Option Alloc} (hm : h.fresh mem = true)
    (name : String) (type : HalType) : Linkage (h.halgSignalNew mem name type).2 := by
  rw [Hal.halgSignalNew]
  split_ifs
  · exact hL
  · exact hL
  · exact hL
  · split
    · exact hL
    · next new hn =>
        obtain ⟨m, rfl, hoff, _, _, hbody⟩ := halgCreateObject_eq hn
        obtain ⟨h0, hfresh⟩ := h.fresh_some hm
        rw [← hoff] at h0 hfresh
        have hno : ∀ g ∈ h.sigs, g.off ≠ new.off := by
          intro g hg hgo
          refine hfresh ?_
          simp only [Hal.offsets, List.mem_append]
          exact .inl (.inl (.inr (hgo ▸ List.mem_map_of_mem hg)))
        have hadd : (copyValue type 0 0).isSome = true →
            Linkage { h with sigs := addObject new h.sigs } := by
          intro ht
          refine ⟨hL.pinKeys, nodup_addObject hL.sigKeys ?_, ?_, ?_, ?_, hL.cells⟩
          · exact fun hk => by
              obtain ⟨g, hg, hgo⟩ := List.mem_map.1 hk
              exact hno g hg hgo
          · intro g hg
            rcases mem_addObject.1 hg with rfl | hg
            · exact h0
            · exact hL.sigNe g hg
          · intro p hp hv
            refine (hL.pins p hp hv).congr
              ⟨fun _ => rfl, ?_, fun _ _ _ => rfl, rfl, rfl, rfl, rfl⟩
            exact fun g hg hgv _ => ⟨g, mem_addObject.2 (.inr hg), hgv, rfl, rfl⟩
          · intro g hg hgv
            rcases mem_addObject.1 hg with rfl | hg
            · have hz := hL.linkCount_eq_zero h0 hno
              exact ⟨by simp [hbody, hz], by simp [hbody, hz], by simp [hbody, hz],
                by simp [hbody], by simp [hbody], by simpa [hbody] using ht⟩
            · exact hL.sigs g hg hgv
        cases type
        case halBit => exact hadd rfl
        case halS32 => exact hadd rfl
        case halU32 => exact hadd rfl
        case halFloat => exact hadd rfl
        all_goals exact hL

/-! ### Linking -/

/-- A new link repoints the pin to the value of the signal. -/
lemma modifyPin_modifyPin (h : Hal) (off : ℕ) (f F : Pin → Pin) (sig : ℕ) (G : Sig → Sig) :
    ((h.modifyPin off f).modifySig sig G).modifyPin off F
      = (h.modifySig sig G).modifyPin off fun p => F (f p) := by
  simp only [Hal.modifyPin, Hal.modifySig]
  congr 1
  exact modify_modify fun _ => rfl

/-- A new link keeps the invariant, under the checks of `halg_link`. -/
lemma Linkage.linkPin {h : Hal} (hL : Linkage h) {p : Obj Pin} {g : Obj Sig} (hp : p ∈ h.pins)
    (hpv : p.hdr.valid = true) (hg : g ∈ h.sigs) (hgv : g.hdr.valid = true)
    (hun : pinIsLinked p = false) (htype : p.body.type = g.body.type)
    (hout : p.body.dir = .halOut → g.body.writers ≤ 0 ∧ g.body.bidirs ≤ 0)
    (hio : p.body.dir = .halIo → g.body.writers ≤ 0) : Linkage (h.linkPin p g).2 := by
  have hok := hL.pins p hp hpv
  have hgok := hL.sigs g hg hgv
  have hs0 : p.body.signal = 0 := by
    by_contra hs
    have hlinked := (hok.pinIsLinked_iff hL.sigNe).2 hs
    rw [hun] at hlinked
    exact Bool.false_ne_true hlinked
  rw [Hal.linkPin]
  -- the signal's type has a case in the copy
  have hcopy : ∀ dst src, copyValue p.body.type dst src ≠ none := by
    intro dst src hnone
    have ht := hgok.type
    rw [← htype, copyValue_isSome p.body.type 0 0 dst src, hnone] at ht
    exact Bool.false_ne_true ht
  cases hval : (if p.body.dir = .halOut ∨ g.body.readers + g.body.writers + g.body.bidirs = 0 then
      copyValue p.body.type g.body.value
        (((h.setCell p (.value g.off)).modifyPin p.off
          fun q => { q with dataPtr := .value g.off }).pinValue p)
      else some g.body.value) with
  | none =>
    split_ifs at hval
    exact absurd hval (hcopy _ _)
  | some v =>
    refine Linkage.propagateBarriers ?_ g
    rw [modifyPin_modifyPin]
    have hcount : ∀ (sel : HalPinDir → Bool) (g' : Obj Sig), g' ∈ h.sigs →
        linkCount sel g'.off (modify Obj.off p.off (fun o : Obj Pin => { o with body :=
          { o.body with dataPtr := .value g.off, signal := g.off } }) h.pins)
        = linkCount sel g'.off h.pins
          + (if g.off = g'.off ∧ sel p.body.dir = true then 1 else 0) := by
      intro sel g' hg'
      have hm := linkCount_modify
        (F := fun q : Pin => { q with dataPtr := .value g.off, signal := g.off }) (s := g'.off)
        sel hL.pinKeys hp hpv rfl
      simpa [hs0, (hL.sigNe g' hg').symm] using hm
    refine hL.repoint (f := fun g' => { g'.count p.body.dir with value := v })
      (F := fun q => { q with dataPtr := .value g.off, signal := g.off })
      hp hpv (fun _ => rfl) (fun _ => rfl) ⟨hok.dir, .inr ?_, ?_⟩ ?_ ?_
    · obtain ⟨g', hg', hv', ho', ht'⟩ := sig_modifySig (h := h.setCell p (.value g.off))
        g.off (f := fun g' : Sig => { g'.count p.body.dir with value := v })
        (fun _ => rfl) (by simpa using hg) hgv
      exact ⟨g', by simpa [Hal.repoint] using hg', hv', ho', ht'.trans htype.symm, by rw [ho']⟩
    · intro hleg
      obtain ⟨a, comp, ha, hc, _⟩ := hok.cell hleg
      exact ⟨a, comp, ha, by simpa [Hal.repoint] using hc,
        h.setCell_cells_self p (.value g.off) hleg ha hc⟩
    · intro g' hg' hgv' hgo'
      obtain rfl := eq_of_key hL.sigKeys hg' hg hgo'
      refine hgok.count hok.dir hout hio fun sel => ?_
      rw [repoint_pins]
      simpa using hcount sel g' hg'
    · intro g' hg' hgv' hgo'
      refine (hL.sigs g' hg' hgv').congr fun sel => ?_
      rw [repoint_pins]
      simpa [Ne.symm hgo'] using hcount sel g' hg'

/-- `halg_link` keeps the invariant. -/
lemma Linkage.halgLink {h : Hal} (hL : Linkage h) (pinName sigName : String) :
    Linkage (h.halgLink pinName sigName).2 := by
  rw [Hal.halgLink]
  split_ifs
  · exact hL
  · exact hL
  · exact hL
  · cases hfp : findByName pinName h.pins with
    | none => exact hL
    | some p =>
      cases hfg : findByName sigName h.sigs with
      | none => exact hL
      | some g =>
        obtain ⟨hp, hpv⟩ := findByName_mem hfp
        obtain ⟨hg, hgv⟩ := findByName_mem hfg
        simp only
        split_ifs with h1 h2 h3 h4 h5
        · exact hL
        · exact hL
        · exact hL
        · exact hL
        · exact hL
        · refine hL.linkPin hp hpv hg hgv (by simpa using h2) (by simpa using h3) ?_ ?_
          · intro hd
            simp only [not_and, not_or, not_lt] at h4
            exact h4 hd
          · intro hd
            simp only [not_and, not_lt] at h5
            exact h5 hd

/-- `halg_unlink` keeps the invariant. -/
lemma Linkage.halgUnlink {h : Hal} (hL : Linkage h) (pinName : String) :
    Linkage (h.halgUnlink pinName).2 := by
  rw [Hal.halgUnlink]
  split_ifs
  · exact hL
  · exact hL
  · cases hf : findByName pinName h.pins with
    | none => exact hL
    | some p => exact hL.unlinkPin (findByName_mem hf).1 (findByName_mem hf).2

/-! ### New pins -/

/-- No other valid legacy pin uses the cell a new pin is given. -/
def Hal.freshCell (h : Hal) (dataPtrAddr : Option ℤ) : Bool :=
  dataPtrAddr.all fun a => h.pins.all fun p =>
    !(p.hdr.valid && p.hdr.legacy && p.body.dataPtrAddr == some a.toNat)

lemma Hal.freshCell_some {h : Hal} {a : ℤ} (ha : h.freshCell (some a) = true) {p : Obj Pin}
    (hp : p ∈ h.pins) (hv : p.hdr.valid = true) (hl : p.hdr.legacy = true) :
    p.body.dataPtrAddr ≠ some a.toNat := by
  simp only [Hal.freshCell, Option.all_some, List.all_eq_true] at ha
  intro heq
  have hpa := ha p hp
  simp [hv, hl, heq] at hpa

/-- Adding an unlinked pin of its own cell keeps the invariant. -/
lemma Linkage.addPin {h : Hal} (hL : Linkage h) {p : Obj Pin} {dataPtrAddr : Option ℤ}
    (hfresh : ∀ q ∈ h.pins, q.off ≠ p.off) (hcell : h.freshCell dataPtrAddr = true)
    (hleg : p.hdr.legacy = dataPtrAddr.isSome)
    (haddr : p.body.dataPtrAddr = dataPtrAddr.map Int.toNat)
    (hdir : halValidDir p.body.dir = true) (hs : p.body.signal = 0)
    (hd : p.body.dataPtr = .dummysig p.off)
    (howner : ∃ comp, h.findOwningComp p.hdr.ownerId.toInt = some comp) :
    Linkage { h.setCell p (.dummysig p.off) with
      pins := addObject p (h.setCell p (.dummysig p.off)).pins } := by
  have hother : ∀ q ∈ h.pins, q.hdr.valid = true → q.hdr.legacy = true → p.hdr.legacy = true →
      q.body.dataPtrAddr ≠ p.body.dataPtrAddr := by
    intro q hq hv hql hpl
    rw [hleg, Option.isSome_iff_exists] at hpl
    obtain ⟨a, rfl⟩ := hpl
    rw [haddr]
    exact Hal.freshCell_some hcell hq hv hql
  have hview : ∀ q ∈ h.pins, q.hdr.valid = true →
      SameView h { h.setCell p (.dummysig p.off) with
        pins := addObject p (h.setCell p (.dummysig p.off)).pins } q q := by
    intro q hq hv
    refine ⟨fun i => h.setCell_findOwningComp p _ i, ?_, ?_, rfl, rfl, rfl, rfl⟩
    · exact fun g hg hgv _ => ⟨g, by simpa using hg, hgv, rfl, rfl⟩
    · intro hl a ha
      exact h.setCell_cells_ne p _ fun hpl hpa => hother q hq hv hl hpl (ha.trans hpa.symm)
  refine ⟨?_, ?_, ?_, ?_, ?_, ?_⟩
  · rw [Hal.setCell_pins]
    refine nodup_addObject hL.pinKeys fun hk => ?_
    obtain ⟨q, hq, hqo⟩ := List.mem_map.1 hk
    exact hfresh q hq hqo
  · simpa using hL.sigKeys
  · simpa using hL.sigNe
  · intro q hq hqv
    rcases mem_addObject.1 hq with rfl | hq
    · refine ⟨hdir, .inl ⟨hs, hd⟩, fun hl => ?_⟩
      obtain ⟨comp, hc⟩ := howner
      obtain ⟨a, ha⟩ := Option.isSome_iff_exists.1 (hleg ▸ hl)
      have hqa : q.body.dataPtrAddr = some a.toNat := by rw [haddr, ha, Option.map_some]
      refine ⟨a.toNat, comp, hqa, (h.setCell_findOwningComp q _ _).trans hc, ?_⟩
      rw [hd]
      exact h.setCell_cells_self q _ hl hqa hc
    · rw [Hal.setCell_pins] at hq
      exact (hL.pins q hq hqv).congr (hview q hq hqv)
  · intro g hg hgv
    have hg' : g ∈ h.sigs := by simpa using hg
    refine (hL.sigs g hg' hgv).congr fun sel => ?_
    have h0 : (0 == g.off) = false := by simpa using (hL.sigNe g hg').symm
    rw [linkCount, (addObject_perm p _).countP_eq, Hal.setCell_pins, List.countP_cons]
    simp [linkCount, pinLinkedTo, hs, h0]
  · intro q hq q' hq' hqv hqv' hql hql' heq
    have hold : ∀ o ∈ addObject p (h.setCell p (.dummysig p.off)).pins, o = p ∨ o ∈ h.pins := by
      intro o ho
      rw [Hal.setCell_pins] at ho
      exact mem_addObject.1 ho
    rcases hold q hq with rfl | hqo <;> rcases hold q' hq' with rfl | hqo'
    · rfl
    · exact absurd heq.symm (hother q' hqo' hqv' hql' hql)
    · exact absurd heq (hother q hqo hqv hql hql')
    · exact hL.cells q hqo q' hqo' hqv hqv' hql hql' heq

/-- `halg_pin_newfv` keeps the invariant if it is given a cell of its own. -/
lemma Linkage.halgPinNewfv {h : Hal} (hL : Linkage h) {mem : Option Alloc} (hm : h.fresh mem = true)
    {dataPtrAddr : Option ℤ} (hcell : h.freshCell dataPtrAddr = true)
    (type : HalType) (dir : HalPinDir)
    (ownerId : ℤ) (defval : HalDataU) (name : String) :
    Linkage (h.halgPinNewfv mem type dir dataPtrAddr ownerId defval name).2 := by
  rw [Hal.halgPinNewfv]
  split
  · exact hL
  split
  · exact hL
  split
  · exact hL
  split
  · exact hL
  next hdir =>
  split
  · exact hL
  split
  · exact hL
  next comp hc =>
  split
  · exact hL
  split
  · exact hL
  next new hn =>
  obtain ⟨m, rfl, hoff, hid, -, hbody⟩ := halgCreateObject_eq hn
  have hfresh := (h.fresh_some hm).2
  have hcomp := h.findOwningComp_ownerId hc
  rw [← hoff] at hfresh
  refine hL.addPin (p := Hal.newPin new dataPtrAddr) ?_ hcell rfl rfl ?_ ?_ rfl
    ⟨comp, by simpa [Hal.newPin, hid] using hcomp⟩
  · intro q hq hqo
    refine hfresh ?_
    simp only [Hal.offsets, List.mem_append]
    exact .inl (.inl (.inl (.inr (hqo ▸ List.mem_map_of_mem hq))))
  · simpa [Hal.newPin, hbody] using hdir
  · simp [Hal.newPin, hbody]

end MachinekitHal
