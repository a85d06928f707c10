import MachinekitHal.Hal.PinCreation
import MachinekitHal.Haltalk.Bind

/-!
The creation of a remote component by a bind, and what `hal_exit` takes back.

* `SameHal`: the valid objects of a HAL are those of another, with what belongs to them.
* `Creating`: the HAL while the component of a bind is created, with some pins.
* `Creating.createPin`, `Creating.halReady`: the steps of `create_rcomp` before the component is
  acquired.
* `Creating.halgExit`: `hal_exit` takes all of this back.
* `createRcomp_outcome`: what `create_rcomp` leaves when it fails, and when it succeeds.
-/

namespace MachinekitHal

open Store
open Function (update)

/-! ### The state -/

/-- The valid components, each with its other fields. -/
def RcompHal.compView (h : RcompHal) : List (Obj Comp × RemoteComp) :=
  (h.comps.filter fun o => o.hdr.valid).map fun o => (o, h.remote o.off)

/-- The valid pins, each with its flags. -/
def RcompHal.pinView (h : RcompHal) : List (Obj Pin × BitVec 32) :=
  (h.pins.filter fun o => o.hdr.valid).map fun o => (o, h.pinFlags o.off)

/-- The valid objects of `h'` are those of `h`. -/
structure SameHal (h h' : RcompHal) : Prop where
  comps : h'.compView = h.compView
  pins : h'.pinView = h.pinView
  rest : { h' with comps := h.comps, pins := h.pins, remote := h.remote
                   pinFlags := h.pinFlags } = h

lemma SameHal.refl (h : RcompHal) : SameHal h h := ⟨rfl, rfl, rfl⟩

/-- The id of the component, as it is in an object header. -/
def BindEnv.compId (e : BindEnv) : ℤ := (Int16.ofInt e.handle).toInt

/-- What RTAPI and the allocators promise: a handle that is positive in an object header and
that no object has, and unused memory; the pins are in memory of their own. -/
structure BindEnv.Fresh (e : BindEnv) (h : RcompHal) : Prop where
  nodup : (h.pins.map Obj.off).Nodup
  positive : 0 < e.compId
  comps : ∀ o ∈ h.comps, o.hdr.valid = true → o.hdr.id.toInt ≠ e.compId
  insts : ∀ o ∈ h.insts, o.hdr.valid = true → o.hdr.id.toInt ≠ e.compId
  pins : ∀ o ∈ h.pins, o.hdr.valid = true → o.hdr.ownerId.toInt ≠ e.compId
  params : ∀ o ∈ h.params, o.hdr.valid = true → o.hdr.ownerId.toInt ≠ e.compId
  comp : ∀ m, e.comp = some m → m.off ∉ h.comps.map Obj.off
  pin : ∀ i m, e.pin i = some m → m.off ∉ h.pins.map Obj.off
  apart : ∀ i j m m', e.pin i = some m → e.pin j = some m' → i ≠ j → m.off ≠ m'.off

/-- The component that is created. -/
structure FreshComp (e : BindEnv) (h : RcompHal) (c : Obj Comp) : Prop where
  off : c.off ∉ h.comps.map Obj.off
  id : c.hdr.id.toInt = e.compId
  valid : c.hdr.valid = true
  refcnt : c.hdr.refcnt = 0
  type : c.body.type = .typeRemote

/-- The HAL `h` while the component `c` is created in `h₀`, with `n` pins. -/
structure Creating (e : BindEnv) (h₀ : RcompHal) (c : Obj Comp) (n : ℕ) (h : RcompHal) :
    Prop where
  comp : FreshComp e h₀ c
  comps : h.comps = addObject c h₀.comps
  remote : ∀ off, off ≠ c.off → h.remote off = h₀.remote off
  disowned : (h.remote c.off).pid = 0
  rest : { h with comps := h₀.comps, pins := h₀.pins, remote := h₀.remote
                  pinFlags := h₀.pinFlags } = h₀
  others : (h.pins.filter fun o => o.hdr.valid && !ownedBy e.compId o) =
    h₀.pins.filter fun o => o.hdr.valid
  count : (h.pins.countP fun o => o.hdr.valid && ownedBy e.compId o) = n
  new : ∀ o ∈ h.pins, o.hdr.valid = true → ownedBy e.compId o = true →
    pinIsLinked o = false ∧ o.hdr.refcnt = 0 ∧ h.pinFlags o.off = 0
  flags : ∀ o ∈ h₀.pins, h.pinFlags o.off = h₀.pinFlags o.off
  offs : ∀ o ∈ h.pins, o ∈ h₀.pins ∨ ∃ j < n, ∃ m, e.pin j = some m ∧ o.off = m.off
  nodup : (h.pins.map Obj.off).Nodup

/-- Nothing refuses the component. -/
structure CompAccepted (h : RcompHal) (mem : Option Alloc) (name : String) : Prop where
  unused : (fmtAp 128 name).any fun stored => (findByName stored h.comps).isNone
  memory : mem.isSome

/-- Nothing refuses a pin of the message, given its owner. -/
structure PinFits (h : Hal) (mem : Option Alloc) (p : PbBindPin) : Prop where
  type : halValidType (p.type.getD .halBit).toHal = true
  dir : halValidDir (p.dir.getD .halIn) = true
  unlocked : h.locked halLockLoad = false
  unused : (fmtAp 128 (p.name.getD "")).any fun stored => (findByName stored h.pins).isNone
  memory : mem.isSome

/-! ### The component -/

section Component

variable {e : BindEnv} {h₀ h : RcompHal} {base : ℕ} {arg1 arg2 : BitVec 32} {name : String}

lemma BindEnv.Fresh.ownedBy_iff {α : Type} (hf : e.Fresh h₀) {o : Obj α} :
    ownedBy e.compId o = true ↔ o.hdr.ownerId.toInt = e.compId := by
  have hne : e.compId ≠ 0 := hf.positive.ne'
  simp [ownedBy, hne]

lemma halXinit_accepted (hf : e.Fresh h₀) (ha : CompAccepted h₀ e.comp name) :
    ∃ c h, h₀.halXinit e.comp e.handle base arg1 arg2 name = (e.compId, h) ∧
      Creating e h₀ c 0 h ∧ c.body.state = .compInitializing ∧ h.pins = h₀.pins ∧
      (name.length ≤ halNameLen → c.hdr.name = name) := by
  obtain ⟨stored, hfmt, hnone⟩ := (Option.any_eq_true _ _).1 ha.unused
  have hno : ¬ (findByName stored h₀.comps).isSome = true := by simpa using hnone
  obtain ⟨new, hobj⟩ := Option.isSome_iff_exists.1 (@halgCreateObject_isSome e.comp 0 name Comp
    stored { type := .typeRemote, state := .compInitializing, shmemBase := base } hfmt ha.memory)
  obtain ⟨m, buf, hm, hbuf, rfl⟩ := halgCreateObject_some hobj
  set c : Obj Comp :=
    { off := m.off
      hdr := { id := Int16.ofInt e.handle, ownerId := Int16.ofInt 0, name := buf, refcnt := 0
               legacy := false, valid := true, rmb := false, wmb := false }
      body := { type := .typeRemote, state := .compInitializing, shmemBase := base } } with hc
  refine ⟨c, { h₀ with
    comps := addObject c h₀.comps
    remote := update h₀.remote c.off ⟨0, arg1, arg2, 0⟩ },
    ?_, ?_, rfl, rfl, fun hlen => ?_⟩
  · rw [RcompHal.halXinit, hfmt]
    dsimp only
    rw [if_neg hno, hobj]
    rfl
  · refine ⟨⟨hf.comp m hm, rfl, rfl, rfl, rfl⟩, rfl, fun off hoff => Function.update_of_ne hoff ..,
      ?_, rfl, ?_, ?_, fun o ho hv hown => ?_, fun _ _ => rfl, fun o ho => .inl ho, hf.nodup⟩
    · show (update h₀.remote c.off ⟨0, arg1, arg2, 0⟩ c.off).pid = 0
      rw [Function.update_self]
    · refine List.filter_congr fun o ho => ?_
      cases hv : o.hdr.valid with
      | false => rfl
      | true =>
        have hown : ownedBy e.compId o = false :=
          Bool.eq_false_iff.2 fun h => hf.pins o ho hv (hf.ownedBy_iff.1 h)
        rw [hown]
        rfl
    · refine List.countP_eq_zero.2 fun o ho hown => ?_
      rw [Bool.and_eq_true] at hown
      exact hf.pins o ho hown.1 (hf.ownedBy_iff.1 hown.2)
    · exact absurd (hf.ownedBy_iff.1 hown) (hf.pins o ho hv)
  · have hlen' : name.length ≤ 41 := hlen
    rw [fmtAp_of_lt (by omega), Option.some.injEq] at hfmt
    rw [← hfmt, hhSetNamefv, fmtAp_of_lt (by omega), Option.some.injEq] at hbuf
    exact hbuf.symm

/-- The component is refused. -/
lemma halXinit_refused (ha : ¬ CompAccepted h₀ e.comp name) :
    ∃ rc : ℤ, rc < 0 ∧ h₀.halXinit e.comp e.handle base arg1 arg2 name = (rc, h₀) := by
  rw [RcompHal.halXinit]
  cases hfmt : fmtAp 128 name with
  | none => exact ⟨_, by decide, rfl⟩
  | some stored =>
  dsimp only
  split
  · exact ⟨_, by decide, rfl⟩
  next hno =>
  cases hmem : e.comp with
  | none => exact ⟨_, by decide, rfl⟩
  | some m =>
    refine absurd ⟨?_, by rw [hmem]; rfl⟩ ha
    rw [hfmt]
    simpa using hno

end Component

namespace Creating

variable {e : BindEnv} {h₀ h : RcompHal} {c : Obj Comp} {n : ℕ}

lemma findById (hs : Creating e h₀ c n h) (hf : e.Fresh h₀) :
    findById e.compId h.comps = some c := by
  have hne : e.compId ≠ 0 := hf.positive.ne'
  rw [hs.comps]
  refine find?_addObject (by simp [hs.comp.valid, hs.comp.id]) fun o ho => ?_
  cases hv : o.hdr.valid with
  | false => rfl
  | true => simp [hne, hf.comps o ho hv]

lemma insts (hs : Creating e h₀ c n h) : h.insts = h₀.insts := by
  have hrest := congrArg (fun h : RcompHal => h.insts) hs.rest
  exact hrest

lemma params (hs : Creating e h₀ c n h) : h.params = h₀.params := by
  have hrest := congrArg RcompHal.params hs.rest
  exact hrest

lemma lock (hs : Creating e h₀ c n h) : h.lock = h₀.lock := by
  have hrest := congrArg (fun h : RcompHal => h.lock) hs.rest
  exact hrest

/-- The component owns what is created for it. -/
lemma findOwningComp (hs : Creating e h₀ c n h) (hf : e.Fresh h₀) :
    h.findOwningComp e.compId = some c := by
  have hne : e.compId ≠ 0 := hf.positive.ne'
  have hnone : MachinekitHal.findById e.compId h.insts = none := by
    refine List.find?_eq_none.2 fun o ho hv => ?_
    simp only [Bool.and_eq_true, Bool.or_eq_true, beq_iff_eq, hne, false_or] at hv
    exact hf.insts o (hs.insts ▸ ho) hv.1 hv.2
  rw [Hal.findOwningComp, hnone]
  exact hs.findById hf

/-- The component is changed, and keeps its header. -/
lemma modifyComp (hs : Creating e h₀ c n h) {f : Comp → Comp} (hf : (f c.body).type = c.body.type) :
    Creating e h₀ { c with body := f c.body } n
      { h with comps := modify Obj.off c.off (fun o => { o with body := f o.body }) h.comps } where
  comp := ⟨hs.comp.off, hs.comp.id, hs.comp.valid, hs.comp.refcnt, hf.trans hs.comp.type⟩
  comps := by
    rw [hs.comps]
    exact modify_addObject rfl hs.comp.off
  remote := hs.remote
  disowned := hs.disowned
  rest := hs.rest
  others := hs.others
  count := hs.count
  new := hs.new
  flags := hs.flags
  offs := hs.offs
  nodup := hs.nodup

lemma halReady (hs : Creating e h₀ c n h) (hf : e.Fresh h₀)
    (hstate : c.body.state = .compInitializing) :
    Creating e h₀ { c with body := { c.body with state := .compUnbound } } n
      (h.halReady e.compId).2 := by
  have hready : h.halReady e.compId = (none, { h with
      comps := modify Obj.off c.off
        (fun o => { o with body := { o.body with state := .compUnbound } }) h.comps }) := by
    rw [RcompHal.halReady, hs.findById hf]
    dsimp only
    rw [hstate, if_neg (by decide), hs.comp.type, if_pos rfl]
  rw [hready]
  exact hs.modifyComp (f := fun b => { b with state := .compUnbound }) rfl

/-! ### A pin -/

/-- A pin is added for the component. -/
lemma addPin {hal : Hal} {m : Alloc} {pin : Obj Pin} {name : String}
    (hs : Creating e h₀ c n h) (hf : e.Fresh h₀) (hm : e.pin n = some m)
    (hp : FreshPin m e.compId name pin)
    (hhal : hal = { h.toHal with pins := addObject pin h.pins }) :
    Creating e h₀ c (n + 1)
      { h with toHal := hal, pinFlags := update h.pinFlags m.off 0 } := by
  have hown : ownedBy e.compId pin = true := by
    rw [hf.ownedBy_iff, hp.owner, BindEnv.compId, Int16.ofInt_toInt]
  have hoff : m.off ∉ h.pins.map Obj.off := by
    intro hmem
    obtain ⟨o, ho, hoff⟩ := List.mem_map.1 hmem
    rcases hs.offs o ho with ho | ⟨j, hj, m', hm', hoff'⟩
    · exact hf.pin n m hm (hoff ▸ List.mem_map_of_mem ho)
    · exact hf.apart j n m' m hm' hm (by omega) (hoff'.symm.trans hoff)
  have hne (o : Obj Pin) (ho : o ∈ h.pins) : o.off ≠ m.off :=
    fun heq => hoff (heq ▸ List.mem_map_of_mem ho)
  subst hhal
  refine ⟨hs.comp, hs.comps, hs.remote, hs.disowned, hs.rest, ?_, ?_, fun o ho hv ho' => ?_,
    fun o ho => ?_, fun o ho => ?_, ?_⟩
  · rw [← hs.others]
    exact filter_addObject (by simp [hown])
  · show (addObject pin h.pins).countP _ = n + 1
    rw [(addObject_perm pin h.pins).countP_eq, List.countP_cons, hs.count,
      if_pos (by rw [hp.valid, hown]; rfl)]
  · rcases mem_addObject.1 ho with rfl | ho
    · refine ⟨hp.unlinked, hp.refcnt, ?_⟩
      show update h.pinFlags m.off 0 o.off = 0
      rw [hp.off, Function.update_self]
    · obtain ⟨hlink, href, hflag⟩ := hs.new o ho hv ho'
      refine ⟨hlink, href, ?_⟩
      show update h.pinFlags m.off 0 o.off = 0
      rw [Function.update_of_ne (hne o ho), hflag]
  · show update h.pinFlags m.off 0 o.off = h₀.pinFlags o.off
    rw [Function.update_of_ne, hs.flags o ho]
    exact fun heq => hf.pin n m hm (heq ▸ List.mem_map_of_mem ho)
  · rcases mem_addObject.1 ho with rfl | ho
    · exact .inr ⟨n, by omega, m, hm, hp.off⟩
    · rcases hs.offs o ho with ho | ⟨j, hj, hrest⟩
      · exact .inl ho
      · exact .inr ⟨j, by omega, hrest⟩
  · exact nodup_addObject hs.nodup (hp.off ▸ hoff)

/-- A pin of the message that fits is created. -/
lemma createPin {s : HtRcomps} {p : PbBindPin} (hs : Creating e h₀ c n s.hal) (hf : e.Fresh h₀)
    (hp : PinFits s.hal.toHal (e.pin n) p) :
    ∃ m pin s', FreshPin m e.compId (p.name.getD "") pin ∧
      s.createPin (e.pin n) e.compId p = (none, s') ∧ Creating e h₀ c (n + 1) s'.hal ∧
      s'.hal.pins = addObject pin s.hal.pins ∧
      s' = { s with hal := s'.hal, items := s'.items } := by
  have howner : (s.hal.findOwningComp e.compId).isSome := by rw [hs.findOwningComp hf]; rfl
  obtain ⟨m, pin, hm, hfresh, hnew⟩ := @halgPinNewfv_accepted s.hal.toHal (e.pin n)
    (p.type.getD .halBit).toHal (p.dir.getD .halIn) e.compId 0 (p.name.getD "") hp.type hp.dir
    ⟨hp.unlocked, hp.unused, howner, hp.memory⟩
  refine ⟨m, pin, { s with
    hal := { s.hal with
      toHal := { s.hal.toHal with pins := addObject pin s.hal.pins }
      pinFlags := update s.hal.pinFlags m.off 0 }
    items := update s.items (Int16.ofInt m.handle).toInt (some (.pin m.off)) }, hfresh,
    ?_, hs.addPin hf hm hfresh rfl, rfl, rfl⟩
  rw [HtRcomps.createPin, RcompHal.halgPinNewf, hnew, hm]
  rfl

/-- A pin of the message that does not fit changes nothing. -/
lemma createPin_not_fits {s : HtRcomps} {p : PbBindPin}
    (hp : ¬ PinFits s.hal.toHal (e.pin n) p) :
    ∃ err, s.createPin (e.pin n) e.compId p = (some err, s) := by
  obtain ⟨err, hnew⟩ := @halgPinNewfv_refused s.hal.toHal (e.pin n)
    (p.type.getD .halBit).toHal (p.dir.getD .halIn) e.compId 0 (p.name.getD "")
    fun ⟨ht, hd, ha⟩ => hp ⟨ht, hd, ha.unlocked, ha.unused, ha.memory⟩
  refine ⟨err, ?_⟩
  rw [HtRcomps.createPin, RcompHal.halgPinNewf, hnew]

/-- The pins up to the first that fails. The items are as they were if this is the first. -/
lemma createPins {pins : List PbBindPin} {s : HtRcomps} (hs : Creating e h₀ c n s.hal)
    (hf : e.Fresh h₀) :
    ∃ k err s', HtRcomps.createPins e.pin e.compId n pins s = (err, s') ∧
      Creating e h₀ c k s'.hal ∧ (err = none → k = n + pins.length) ∧
      s' = { s with hal := s'.hal, items := s'.items } ∧
      (s'.items = s.items ∨ ∃ p, pins.head? = some p ∧ PinFits s.hal.toHal (e.pin n) p) := by
  induction pins generalizing n s with
  | nil => exact ⟨n, none, s, rfl, hs, fun _ => rfl, rfl, .inl rfl⟩
  | cons p pins ih =>
    by_cases hp : PinFits s.hal.toHal (e.pin n) p
    · obtain ⟨-, -, s₁, -, hpin, hs₁, -, hkeep₁⟩ := hs.createPin hf hp
      obtain ⟨k, err, s', hrun, hs', hk, hkeep, -⟩ := ih hs₁
      refine ⟨k, err, s', ?_, hs', fun hnone => ?_, ?_, .inr ⟨p, rfl, hp⟩⟩
      · rw [HtRcomps.createPins, hpin]
        exact hrun
      · rw [hk hnone, List.length_cons]
        omega
      · rw [hkeep, hkeep₁]
    · obtain ⟨err, hpin⟩ := @createPin_not_fits e n s p hp
      refine ⟨n, some err, s, ?_, hs, fun hnone => (by cases hnone), rfl, .inl rfl⟩
      rw [HtRcomps.createPins, hpin]

end Creating

/-! ### What `hal_exit` takes back -/

/-- Pins that are not linked are freed, and nothing else changes. -/
lemma freePinsOf_unlinked {h : Hal} {id : ℤ} (hnd : (h.pins.map Obj.off).Nodup)
    (hun : ∀ o ∈ h.pins, o.hdr.valid = true → ownedBy id o = true → pinIsLinked o = false) :
    h.freePinsOf id = { h with
      pins := h.pins.map fun o => if o.hdr.valid && ownedBy id o then o.release else o } := by
  set free : ℕ → Hal → Hal := fun off h => { h with pins := halgFreeObject off h.pins } with hfree
  have hplain : h.freePinsOf id = halgForeach Hal.pins (ownedBy id) free h := by
    refine halgForeach_congr (P := fun h : Hal => ∀ o ∈ h.pins, o.hdr.valid = true →
      ownedBy id o = true → pinIsLinked o = false) (fun t o ht hat hv hs => ⟨?_, ?_⟩) hun
    · have hlinked := ht o (List.mem_of_find?_eq_some hat) hv hs
      have hpin : t.pinAt o.off = some o := hat
      have hsame : t.unlinkPin o.off = t := by
        rw [Hal.unlinkPin, hpin]
        simp [hlinked]
      rw [Hal.freePinStruct, hsame]
    · exact fun o' ho' hv' hs' => ht o' (mem_of_mem_free ho' hv') hv' hs'
  have hpins : (halgForeach Hal.pins (ownedBy id) free h).pins =
      h.pins.map fun o => if o.hdr.valid && ownedBy id o then o.release else o :=
    halgForeach_modify (fun _ _ => rfl) Obj.release_off hnd
  have hrest : { halgForeach Hal.pins (ownedBy id) free h with pins := h.pins } = h :=
    halgForeach_rule (P := fun t : Hal => { t with pins := h.pins } = h)
      (fun _ _ ht _ _ _ => ht) rfl
  rw [hplain, ← hpins]
  generalize halgForeach Hal.pins (ownedBy id) free h = t at hrest
  rw [← hrest]

/-- What is valid after the selected objects were freed. -/
lemma filter_release {α : Type} {sel : Obj α → Bool} {l : List (Obj α)}
    (h : ∀ o ∈ l, o.hdr.valid = true → sel o = true → o.hdr.refcnt = 0) :
    ((l.map fun o => if o.hdr.valid && sel o then o.release else o).filter fun o => o.hdr.valid) =
      l.filter fun o => o.hdr.valid && !sel o := by
  induction l with
  | nil => rfl
  | cons o l ih =>
    have hl := ih fun o' ho' => h o' (.tail _ ho')
    rw [List.map_cons, List.filter_cons, List.filter_cons, hl]
    cases hv : o.hdr.valid with
    | false => simp [hv]
    | true =>
      cases hsel : sel o with
      | false => simp [hv]
      | true => simp [Obj.release_valid (h o (.head _) hv hsel)]

/-- **`hal_exit`** of a component that is not acquired takes back all that was created. -/
lemma Creating.halgExit {e : BindEnv} {h₀ h : RcompHal} {c : Obj Comp} {n : ℕ}
    (hs : Creating e h₀ c n h) (hf : e.Fresh h₀) : SameHal h₀ (h.halgExit e.compId).2 := by
  have hpins := freePinsOf_unlinked hs.nodup fun o ho hv hown => (hs.new o ho hv hown).1
  have hparams (hal : Hal) : RcompHal.freeParamsOf { h with toHal := hal } e.compId =
      { h with toHal := hal } := by
    refine halgForeach_none fun o ho hv => Bool.eq_false_iff.2 fun hown => ?_
    exact hf.params o (hs.params ▸ ho) hv (hf.ownedBy_iff.1 hown)
  have hexit : (h.halgExit e.compId).2 = { h with
      pins := h.pins.map fun o => if o.hdr.valid && ownedBy e.compId o then o.release else o
      comps := halgFreeObject c.off h.comps } := by
    rw [RcompHal.halgExit, hs.findById hf]
    dsimp only
    rw [RcompHal.freeCompStruct, if_neg (by simp [hs.comp.refcnt]), hs.comp.id]
    dsimp only
    rw [hparams, hpins]
  have hcomps : halgFreeObject c.off h.comps = addObject c.release h₀.comps := by
    rw [hs.comps]
    refine modify_addObject ?_ hs.comp.off
    rw [Obj.release, if_neg (by simp [hs.comp.refcnt])]
    rfl
  rw [hexit]
  refine ⟨?_, ?_, hs.rest⟩
  · rw [RcompHal.compView, RcompHal.compView]
    dsimp only
    rw [hcomps, filter_addObject (Obj.release_valid hs.comp.refcnt)]
    refine List.map_congr_left fun o ho => ?_
    rw [hs.remote o.off]
    exact fun heq => hs.comp.off (heq ▸ List.mem_map_of_mem (List.mem_of_mem_filter ho))
  · rw [RcompHal.pinView, RcompHal.pinView]
    dsimp only
    rw [filter_release fun o ho hv hown => (hs.new o ho hv hown).2.1, hs.others]
    refine List.map_congr_left fun o ho => ?_
    rw [hs.flags o (List.mem_of_mem_filter ho)]

/-! ### All pins -/

/-- The pins of a message, before any of them is created. -/
structure PinsFit (h : Hal) (mem : ℕ → Option Alloc) (n : ℕ) (pins : List PbBindPin) : Prop where
  unlocked : h.locked halLockLoad = false
  good : ∀ p ∈ pins, halValidType (p.type.getD .halBit).toHal = true ∧
    halValidDir (p.dir.getD .halIn) = true ∧ (p.name.getD "").length ≤ halNameLen ∧
      findByName (p.name.getD "") h.pins = none
  apart : (pins.map fun p => p.name.getD "").Nodup
  memory : ∀ i < pins.length, (mem (n + i)).isSome

section Pins

variable {e : BindEnv} {h₀ : RcompHal} {c : Obj Comp} {n : ℕ} {mem : ℕ → Option Alloc}
  {p : PbBindPin} {pins : List PbBindPin}

lemma PinsFit.head {h : Hal} (hp : PinsFit h mem n (p :: pins)) : PinFits h (mem n) p := by
  obtain ⟨ht, hd, hlen, hnone⟩ := hp.good p (.head _)
  have hlen' : (p.name.getD "").length ≤ 41 := hlen
  refine ⟨ht, hd, hp.unlocked, ?_, hp.memory 0 (by simp)⟩
  rw [fmtAp_of_lt (by omega), Option.any_some, hnone]
  rfl

/-- The other pins fit after the first has been created. -/
lemma PinsFit.tail {h h' : Hal} {m : Alloc} {pin : Obj Pin} {ownerId : ℤ}
    (hp : PinsFit h mem n (p :: pins)) (hpin : FreshPin m ownerId (p.name.getD "") pin)
    (hlock : h'.lock = h.lock) (hpins : h'.pins = addObject pin h.pins) :
    PinsFit h' mem (n + 1) pins := by
  have hname : pin.hdr.name = p.name.getD "" := by
    obtain ⟨stored, hfmt, hset⟩ := hpin.name
    have hlen' : (p.name.getD "").length ≤ 41 := (hp.good p (.head _)).2.2.1
    rw [fmtAp_of_lt (by omega), Option.some.injEq] at hfmt
    rw [← hfmt, hhSetNamefv, fmtAp_of_lt (by omega), Option.some.injEq] at hset
    exact hset.symm
  have hapart := List.nodup_cons.1 hp.apart
  refine ⟨by rw [Hal.locked, hlock]; exact hp.unlocked, fun p' hp' => ?_, hapart.2, fun i hi => ?_⟩
  · obtain ⟨ht, hd, hlen, hnone⟩ := hp.good p' (.tail _ hp')
    refine ⟨ht, hd, hlen, List.find?_eq_none.2 fun o ho => ?_⟩
    rw [hpins, mem_addObject] at ho
    rcases ho with rfl | ho
    · have hne : p.name.getD "" ≠ p'.name.getD "" :=
        fun heq => hapart.1 (List.mem_map.2 ⟨p', hp', heq.symm⟩)
      simp [hname, hne]
    · exact List.find?_eq_none.1 hnone o ho
  · have hmem := hp.memory (i + 1) (by simpa using hi)
    rwa [Nat.add_assoc, Nat.add_comm 1 i]

/-- All pins that fit are created. -/
lemma Creating.createPins_fit {s : HtRcomps} (hs : Creating e h₀ c n s.hal) (hf : e.Fresh h₀)
    (hp : PinsFit s.hal.toHal e.pin n pins) :
    (HtRcomps.createPins e.pin e.compId n pins s).1 = none := by
  induction pins generalizing n s with
  | nil => rfl
  | cons p pins ih =>
    obtain ⟨m, pin, s₁, hfresh, hpin, hs₁, hpins, -⟩ := hs.createPin hf hp.head
    rw [HtRcomps.createPins, hpin]
    exact ih hs₁ (hp.tail hfresh (hs₁.lock.trans hs.lock.symm) hpins)

end Pins

/-! ### The creation -/

/-- No `malloc` for a compiled component fails. -/
def Mallocs.all (m : Mallocs) : Prop := m.struct ∧ m.objs ∧ m.tracking ∧ m.changed

section Creation

variable {e : BindEnv} {h₀ h : RcompHal} {c : Obj Comp} {n : ℕ} {cname : String}
  {pb : PbComponent} {s : HtRcomps}

/-- A component that is ready is acquired, and compiled with all its pins. -/
lemma Creating.compile (hs : Creating e h₀ c n h) (hstate : c.body.state = .compUnbound)
    (hname : c.hdr.name = cname) (hshort : ¬ halNameLen < cname.length)
    (hno : findByName cname h₀.comps = none) (pid : ℤ) (m : Mallocs) :
    ∃ h' r, h.halgAcquire cname pid = (e.compId, h') ∧
      h'.toHal.halgCompileComp h'.pinFlags m cname = some r ∧
      ((∃ cc, r = .ok cc) ↔ n ≠ 0 ∧ m.all) := by
  have hfind : findByName cname h.comps = some c := by
    rw [hs.comps, ← hname]
    exact findByName_addObject hs.comp.valid (hname ▸ hno)
  set c' : Obj Comp := Obj.mapHdr Halhdr.incrRefcnt c with hc'
  have hcomps : modify Obj.off c.off (Obj.mapHdr Halhdr.incrRefcnt) h.comps =
      addObject c' h₀.comps := by
    rw [hs.comps]
    exact modify_addObject rfl hs.comp.off
  have hfind' : findByName cname (addObject c' h₀.comps) = some c' := by
    rw [← hname] at hno ⊢
    exact @findByName_addObject _ c' _ hs.comp.valid hno
  set h' : RcompHal := { h with
    comps := addObject c' h₀.comps
    remote := update h.remote c.off { h.remote c.off with pid := pid } } with hh'
  have hpins : (h'.compPins c').filter (tracked h'.pinFlags) =
      h.pins.filter fun o => o.hdr.valid && ownedBy e.compId o := by
    have hid : c'.hdr.id.toInt = e.compId := hs.comp.id
    rw [Hal.compPins, hid]
    refine List.filter_eq_self.2 fun o ho => ?_
    obtain ⟨ho, hown⟩ := List.mem_filter.1 ho
    rw [Bool.and_eq_true] at hown
    have hflag : h'.pinFlags o.off = 0 := (hs.new o ho hown.1 hown.2).2.2
    simp [tracked, hflag]
  have hlen : (h.pins.filter fun o => o.hdr.valid && ownedBy e.compId o).length = n := by
    rw [← List.countP_eq_length_filter, hs.count]
  have hcompile := halgCompileComp_of_find h'.pinFlags m hshort hfind' hpins
  rw [hlen] at hcompile
  refine ⟨h', _, ?_, hcompile, ?_⟩
  · rw [RcompHal.halgAcquire, if_neg hshort, hfind]
    dsimp only
    rw [if_neg (by simp [hs.comp.type]), if_neg (by simp [hstate]),
      if_neg (by simp [hs.disowned]), hcomps, hs.comp.id]
  · split_ifs with hn hm
    · simp [hn]
    · simp [hn, Mallocs.all, hm]
    · simp [Mallocs.all, hm]

/-- What `create_rcomp` leaves. -/
structure CreateOutcome (e : BindEnv) (pb : PbComponent) (cname : String) (s : HtRcomps)
    (r : Except BindNote Rcomp) (s' : HtRcomps) : Prop where
  keeps : s' = { s with hal := s'.hal, items := s'.items }
  items : s'.items = s.items ∨ CompAccepted s.hal e.comp cname ∧
    ∃ p, pb.pin.head? = some p ∧ PinFits s.hal.toHal (e.pin 0) p
  undone : SameHal s.hal s'.hal ∨ CompAccepted s.hal e.comp cname ∧
    cname.length ≤ halNameLen ∧ ((∃ rc, r = .ok rc) ∨ pb.pin = [] ∨ ¬ e.mallocs.all)
  created : CompAccepted s.hal e.comp cname → cname.length ≤ halNameLen →
    PinsFit s.hal.toHal e.pin 0 pb.pin → pb.pin ≠ [] → e.mallocs.all → ∃ rc, r = .ok rc

lemma PinFits.congr {hal hal' : Hal} {mem : Option Alloc} {p : PbBindPin}
    (hp : PinFits hal' mem p) (hlock : hal'.lock = hal.lock) (hpins : hal'.pins = hal.pins) :
    PinFits hal mem p := by
  obtain ⟨ht, hd, hunlocked, hunused, hmem⟩ := hp
  rw [Hal.locked, hlock] at hunlocked
  rw [hpins] at hunused
  exact ⟨ht, hd, hunlocked, hunused, hmem⟩

lemma PinsFit.congr {hal hal' : Hal} {mem : ℕ → Option Alloc} {pins : List PbBindPin}
    (hp : PinsFit hal mem n pins) (hlock : hal'.lock = hal.lock) (hpins : hal'.pins = hal.pins) :
    PinsFit hal' mem n pins := by
  obtain ⟨hunlocked, hgood, hapart, hmem⟩ := hp
  rw [Hal.locked, ← hlock] at hunlocked
  rw [← hpins] at hgood
  exact ⟨hunlocked, hgood, hapart, hmem⟩

/-- A short name that is accepted belongs to no component. -/
lemma CompAccepted.unnamed {mem : Option Alloc} (ha : CompAccepted h mem cname)
    (hlen : ¬ halNameLen < cname.length) : findByName cname h.comps = none := by
  have hlen' : ¬ 41 < cname.length := hlen
  have hunused := ha.unused
  rw [fmtAp_of_lt (by omega)] at hunused
  simpa using hunused

/-- **`create_rcomp`**, up to a component that it has acquired. -/
theorem createRcomp_outcome (hf : e.Fresh s.hal) {r : Except BindNote Rcomp} {s' : HtRcomps}
    (hr : s.createRcomp e pb cname = (r, s')) : CreateOutcome e pb cname s r s' := by
  have hpos : 0 < e.compId := hf.positive
  rw [HtRcomps.createRcomp] at hr
  dsimp only at hr
  by_cases ha : CompAccepted s.hal e.comp cname
  case neg =>
    obtain ⟨rc, hrc, hx⟩ := @halXinit_refused e s.hal s.base (pb.userarg1.getD 0)
      (pb.userarg2.getD 0) cname ha
    rw [hx, if_pos hrc] at hr
    cases hr
    exact ⟨rfl, .inl rfl, .inl (SameHal.refl _), fun ha' => absurd ha' ha⟩
  obtain ⟨c, h, hx, hs, hstate, hpins, hname⟩ := @halXinit_accepted e s.hal s.base
    (pb.userarg1.getD 0) (pb.userarg2.getD 0) cname hf ha
  obtain ⟨k, err, s₂, hrun, hs₂, hk, hkeep, hitems⟩ :=
    @Creating.createPins e s.hal c 0 pb.pin { s with hal := h } hs hf
  have hitems' : s₂.items = s.items ∨ CompAccepted s.hal e.comp cname ∧
      ∃ p, pb.pin.head? = some p ∧ PinFits s.hal.toHal (e.pin 0) p :=
    hitems.imp_right fun ⟨p, hp, hfit⟩ => ⟨ha, p, hp, hfit.congr hs.lock hpins⟩
  have hcreated (hfit : PinsFit s.hal.toHal e.pin 0 pb.pin) : err = none := by
    have hall := Creating.createPins_fit (s := { s with hal := h }) hs hf
      (hfit.congr hs.lock hpins)
    rwa [hrun] at hall
  rw [hx] at hr
  dsimp only at hr
  rw [if_neg (by omega), hrun] at hr
  cases err with
  | some err =>
    dsimp only at hr
    cases hr
    rw [HtRcomps.exitComp, if_pos hpos]
    refine ⟨?_, hitems', .inl (hs₂.halgExit hf), fun _ _ hfit => (by cases hcreated hfit)⟩
    rw [hkeep]
  | none =>
  have hready := hs₂.halReady hf hstate
  dsimp only at hr
  by_cases hlen : halNameLen < cname.length
  · -- the component is not acquired
    have hneg : -Errno.EINVAL.code < 0 := by decide
    rw [RcompHal.halgAcquire, if_pos hlen, if_pos hneg] at hr
    cases hr
    rw [HtRcomps.exitComp, if_pos hpos]
    refine ⟨?_, hitems', .inl (hready.halgExit hf), fun _ hshort => absurd hlen (not_lt.2 hshort)⟩
    rw [hkeep]
  · obtain ⟨h', rc, hacquire, hcompile, hok⟩ := hready.compile rfl (hname (not_lt.1 hlen)) hlen
      (ha.unnamed hlen) s₂.pid e.mallocs
    rw [hacquire, if_neg (by omega), hcompile] at hr
    have hcount : k ≠ 0 ↔ pb.pin ≠ [] := by
      rw [hk rfl, zero_add, ne_eq, List.length_eq_zero_iff]
    cases rc with
    | ok cc =>
      dsimp only at hr
      cases hr
      refine ⟨?_, hitems', .inr ⟨ha, not_lt.1 hlen, .inl ⟨_, rfl⟩⟩, fun _ _ _ _ _ => ⟨_, rfl⟩⟩
      rw [hkeep]
    | error err =>
      have hfails : pb.pin = [] ∨ ¬ e.mallocs.all := by
        by_contra hno
        rw [not_or, not_not] at hno
        obtain ⟨cc, hcc⟩ := hok.2 ⟨hcount.2 hno.1, hno.2⟩
        cases hcc
      dsimp only at hr
      cases hr
      rw [HtRcomps.exitComp, if_pos hpos]
      refine ⟨?_, hitems', .inr ⟨ha, not_lt.1 hlen, .inr hfails⟩, fun _ _ _ hne hall => ?_⟩
      · rw [hkeep]
      · exact (hfails.elim hne fun hno => hno hall).elim

end Creation

end MachinekitHal
