import MachinekitHal.Haltalk.BindCreation

/-!
What a rejected bind leaves.

* `CreatesComp`, `EntersPin`, `KeepsComp`: how far the creation of a component gets.
* `NewBind`: a correct bind of a name that no component has; `NewBind.confirmed`.
* `BindUndone`: a reject leaves what the search for the component found.
* `Scanned`: what this search, a scan, leaves alone.
* `bind_rejected`: a rejected bind is undone; `bind_rejected_changes`: it is not as it was.
-/

namespace MachinekitHal

open Store

/-! ### The statement -/

/-- The HAL without the values of its pins and signals. -/
def RcompHal.erased (h : RcompHal) : RcompHal :=
  { h with
    pins := h.pins.map fun o => { o with body := { o.body with dummysig := 0 } }
    sigs := h.sigs.map fun o => { o with body := { o.body with value := 0 } } }

/-- The state in which a bind looks for its component. -/
def HtRcomps.searched (e : BindEnv) (pb : PbComponent) (s : HtRcomps) : HtRcomps :=
  match pb.name with
  | none => s
  | some cname => if pb.pin.all PbBindPin.complete then s.look e cname else s

/-- The component is created. -/
structure CreatesComp (e : BindEnv) (pb : PbComponent) (cname : String) (t : HtRcomps) : Prop where
  unknown : t.rcomps cname = none
  create : pb.noCreate ≠ some true
  ready : ((findByName cname t.hal.comps).any fun c => c.body.state = .compInitializing) = false
  accepted : CompAccepted t.hal e.comp cname

/-- The first pin of the component is created. -/
def EntersPin (e : BindEnv) (pb : PbComponent) (cname : String) (t : HtRcomps) : Prop :=
  CreatesComp e pb cname t ∧ ∃ p, pb.pin.head? = some p ∧ PinFits t.hal.toHal (e.pin 0) p

/-- The component is created and acquired, and then cannot be compiled. -/
def KeepsComp (e : BindEnv) (pb : PbComponent) (cname : String) (t : HtRcomps) : Prop :=
  CreatesComp e pb cname t ∧ cname.length ≤ halNameLen ∧ (pb.pin = [] ∨ ¬ e.mallocs.all)

/-- The component takes values from the message. -/
def HtRcomps.takesValues (t : HtRcomps) (cname : String) : Bool :=
  (t.rcomps cname).any fun rc => (at? Obj.off rc.cc.comp t.hal.comps).any t.acceptsValues

/-- A correct bind of a name that no component has. -/
structure NewBind (e : BindEnv) (pb : PbComponent) (cname : String) (t : HtRcomps) : Prop where
  name : pb.name = some cname
  short : cname.length ≤ halNameLen
  unknown : t.rcomps cname = none
  unused : findByName cname t.hal.comps = none
  create : pb.noCreate ≠ some true
  complete : pb.pin.all PbBindPin.complete = true
  some_pin : pb.pin ≠ []
  pins : PinsFit t.hal.toHal e.pin 0 pb.pin
  memory : e.comp.isSome ∧ e.mallocs.all

/-- **A reject is undone**: `s'` is as `t`, but for the values that a component which accepts
them has taken. Later binds of the name succeed. Nothing is said of a component that cannot be
compiled, and of the items if a pin of a new component was entered. -/
structure BindUndone (e : BindEnv) (pb : PbComponent) (cname : String) (t s' : HtRcomps) :
    Prop where
  rcomps : s'.rcomps = t.rcomps
  known : t.rcomps cname ≠ none → t.takesValues cname = false → s' = t
  items : ¬ EntersPin e pb cname t → s'.items = t.items
  hal : ¬ KeepsComp e pb cname t → SameHal t.hal.erased s'.hal.erased
  values : ¬ KeepsComp e pb cname t → t.takesValues cname = false → SameHal t.hal s'.hal
  later : ¬ KeepsComp e pb cname t → ∀ e' pb', NewBind e' pb' cname t → e'.Fresh s'.hal →
    ∃ s'', s'.processRcompBind e' pb' = some (.mtHalrcompBindConfirm, s'')

/-! ### The scan -/

/-- A component without its reference count. -/
def Obj.unreferenced {α : Type} (o : Obj α) : Obj α := { o with hdr := { o.hdr with refcnt := 0 } }

/-- What a scan leaves alone. -/
structure Scanned (s t : HtRcomps) : Prop where
  hal : { t.hal with comps := s.hal.comps, remote := s.hal.remote } = s.hal
  comps : t.hal.comps.map Obj.unreferenced = s.hal.comps.map Obj.unreferenced
  rcomps : ∀ name, findByName name s.hal.comps = none → t.rcomps name = s.rcomps name

namespace Scanned

variable {e : BindEnv} {s t : HtRcomps}

lemma refl (s : HtRcomps) : Scanned s s := ⟨rfl, rfl, fun _ _ => rfl⟩

lemma exists_comp (h : Scanned s t) {o : Obj Comp} (ho : o ∈ t.hal.comps) :
    ∃ o' ∈ s.hal.comps, o'.hdr.valid = o.hdr.valid ∧ o'.hdr.name = o.hdr.name ∧
      o'.hdr.id = o.hdr.id := by
  have hmem : o.unreferenced ∈ s.hal.comps.map Obj.unreferenced :=
    h.comps ▸ List.mem_map_of_mem ho
  obtain ⟨o', ho', heq⟩ := List.mem_map.1 hmem
  simp only [Obj.unreferenced, Obj.mk.injEq, Halhdr.mk.injEq] at heq
  exact ⟨o', ho', heq.2.1.2.2.2.2.2.1, heq.2.1.2.2.1, heq.2.1.1⟩

lemma pins (h : Scanned s t) : t.hal.pins = s.hal.pins := by
  have hhal := congrArg (fun h : RcompHal => h.pins) h.hal
  exact hhal

lemma insts (h : Scanned s t) : t.hal.insts = s.hal.insts := by
  have hhal := congrArg (fun h : RcompHal => h.insts) h.hal
  exact hhal

lemma params (h : Scanned s t) : t.hal.params = s.hal.params := by
  have hhal := congrArg RcompHal.params h.hal
  exact hhal

lemma lock (h : Scanned s t) : t.hal.lock = s.hal.lock := by
  have hhal := congrArg (fun h : RcompHal => h.lock) h.hal
  exact hhal

lemma unnamed (h : Scanned s t) {name : String} (hno : findByName name s.hal.comps = none) :
    findByName name t.hal.comps = none := by
  refine List.find?_eq_none.2 fun o ho hv => ?_
  obtain ⟨o', ho', hvalid, hname, -⟩ := h.exists_comp ho
  have hfalse := List.find?_eq_none.1 hno o' ho'
  rw [hvalid, hname] at hfalse
  exact hfalse hv

lemma fresh (h : Scanned s t) (hf : e.Fresh s.hal) : e.Fresh t.hal := by
  have hoffs : t.hal.comps.map Obj.off = s.hal.comps.map Obj.off := by
    have hmap := congrArg (List.map Obj.off) h.comps
    rwa [List.map_map, List.map_map] at hmap
  refine ⟨h.pins ▸ hf.nodup, hf.positive, fun o ho hv => ?_, h.insts ▸ hf.insts,
    h.pins ▸ hf.pins, h.params ▸ hf.params, hoffs ▸ hf.comp, h.pins ▸ hf.pin, hf.apart⟩
  obtain ⟨o', ho', hvalid, -, hid⟩ := h.exists_comp ho
  exact hid ▸ hf.comps o' ho' (hvalid.trans hv)

/-- A component is acquired, or nothing happens. -/
lemma acquire (h : Scanned s t) (name : String) (pid : ℤ) :
    Scanned s { t with hal := (t.hal.halgAcquire name pid).2 } := by
  rw [RcompHal.halgAcquire]
  split_ifs
  · exact h
  split
  · exact h
  next comp hcomp =>
  split_ifs
  · exact h
  · exact h
  · exact h
  · refine ⟨h.hal, ?_, h.rcomps⟩
    rw [← h.comps]
    exact map_modify fun _ => rfl

/-- One component of the scan. -/
lemma component (h : Scanned s t) (mallocs : ℕ → Mallocs) (off : ℕ) :
    Scanned s (HtRcomps.scanComponent mallocs off t) := by
  rw [HtRcomps.scanComponent]
  split
  · exact h
  next comp hcomp =>
  dsimp only
  split_ifs with hadopt hneg
  · exact h.acquire _ _
  · have hacquired := h.acquire comp.hdr.name t.pid
    split
    · next cc hcc =>
      refine ⟨hacquired.hal, hacquired.comps, fun name hno => ?_⟩
      have hne : name ≠ comp.hdr.name := by
        -- the component has been found by its name
        rintro rfl
        have hcode : -Errno.EINVAL.code < 0 := by decide
        refine hneg ?_
        rw [RcompHal.halgAcquire, h.unnamed hno]
        split_ifs <;> exact hcode
      exact (Function.update_of_ne hne ..).trans (h.rcomps name hno)
    · exact hacquired
  · exact h

lemma look (e : BindEnv) (cname : String) (s : HtRcomps) : Scanned s (s.look e cname) := by
  rw [HtRcomps.look]
  split_ifs
  · exact halgForeach_rule (P := Scanned s) (fun t o h _ _ _ => h.component e.adopted o.off)
      (refl s)
  · exact refl s

lemma searched (e : BindEnv) (pb : PbComponent) (s : HtRcomps) : Scanned s (s.searched e pb) := by
  rw [HtRcomps.searched]
  split
  · exact refl s
  · split_ifs
    · exact look e _ s
    · exact refl s

end Scanned

/-! ### Later binds -/

section Later

variable {e : BindEnv} {pb : PbComponent} {cname : String} {t s' : HtRcomps}

/-- The search for the component makes no difference. -/
lemma NewBind.scanned (hb : NewBind e pb cname t) (h : Scanned t s') : NewBind e pb cname s' :=
  ⟨hb.name, hb.short, (h.rcomps cname hb.unused).trans hb.unknown, h.unnamed hb.unused, hb.create,
    hb.complete, hb.some_pin, hb.pins.congr h.lock h.pins, hb.memory⟩

/-- **A correct bind** of a new name succeeds. -/
theorem NewBind.confirmed (hb : NewBind e pb cname t) (hf : e.Fresh t.hal) :
    ∃ s'', t.processRcompBind e pb = some (.mtHalrcompBindConfirm, s'') := by
  have hlook := Scanned.look e cname t
  have hb' := hb.scanned hlook
  have hshort : cname.length ≤ 41 := hb.short
  have haccepted : CompAccepted (t.look e cname).hal e.comp cname := by
    refine ⟨?_, hb.memory.1⟩
    rw [fmtAp_of_lt (by omega), Option.any_some, hb'.unused]
    rfl
  have hvalid : (pb.pin.filter fun p => !p.complete) = [] := by
    rw [List.filter_eq_nil_iff]
    intro p hp
    simp [List.all_eq_true.1 hb.complete p hp]
  obtain ⟨r, s₁, hr⟩ : ∃ r s₁, (t.look e cname).createRcomp e pb cname = (r, s₁) := ⟨_, _, rfl⟩
  obtain ⟨rc, rfl⟩ := (createRcomp_outcome (hlook.fresh hf) hr).created haccepted hb.short hb'.pins
    hb.some_pin hb.memory.2
  refine ⟨{ s₁ with rcomps := Function.update s₁.rcomps cname (some rc) }, ?_⟩
  rw [HtRcomps.processRcompBind, hb.name]
  dsimp only
  rw [hvalid, if_neg (by simp), hb'.unknown]
  dsimp only
  rw [HtRcomps.bindNew, if_neg hb.create, hb'.unused, if_neg (by simp), hr]

lemma findByName_erased (h : RcompHal) (name : String) :
    (findByName name h.erased.pins).isNone = (findByName name h.pins).isNone := by
  rw [findByName, RcompHal.erased, List.find?_map, Option.isNone_map]
  rfl

/-- What is valid is found by its name. -/
lemma SameHal.unnamed {h h' : RcompHal} (hs : SameHal h h') {name : String} :
    (findByName name h'.comps = none ↔ findByName name h.comps = none) ∧
      (findByName name h'.pins = none ↔ findByName name h.pins = none) := by
  have hcomps := congrArg (List.map Prod.fst) hs.comps
  have hpins := congrArg (List.map Prod.fst) hs.pins
  simp only [RcompHal.compView, RcompHal.pinView, List.map_map, Function.comp_def,
    List.map_id'] at hcomps hpins
  rw [← findByName_filter, hcomps, findByName_filter, ← findByName_filter name h'.pins, hpins,
    findByName_filter]
  exact ⟨Iff.rfl, Iff.rfl⟩

/-- A bind that is correct before is correct after a reject that is undone. -/
lemma NewBind.undone (hb : NewBind e pb cname t) (hr : s'.rcomps = t.rcomps)
    (hs : SameHal t.hal.erased s'.hal.erased) : NewBind e pb cname s' := by
  have hlock : s'.hal.lock = t.hal.lock := by
    have hrest := congrArg (fun h : RcompHal => h.lock) hs.rest
    exact hrest
  have hpins (name : String) (hno : findByName name t.hal.pins = none) :
      findByName name s'.hal.pins = none := by
    rw [← Option.isNone_iff_eq_none, ← findByName_erased, Option.isNone_iff_eq_none,
      hs.unnamed.2, ← Option.isNone_iff_eq_none, findByName_erased, hno]
    rfl
  refine ⟨hb.name, hb.short, by rw [hr]; exact hb.unknown, hs.unnamed.1.2 hb.unused, hb.create,
    hb.complete, hb.some_pin, ⟨?_, fun p hp => ?_, hb.pins.apart, hb.pins.memory⟩, hb.memory⟩
  · rw [Hal.locked, hlock]
    exact hb.pins.unlocked
  · obtain ⟨ht, hd, hlen, hno⟩ := hb.pins.good p hp
    exact ⟨ht, hd, hlen, hpins _ hno⟩

end Later

/-! ### What is undone -/

/-- The values of pins and signals make no difference. -/
lemma SameHal.erased {h h' : RcompHal} (hs : SameHal h h') : SameHal h.erased h'.erased := by
  refine ⟨hs.comps, ?_, congrArg RcompHal.erased hs.rest⟩
  have hview (h : RcompHal) : h.erased.pinView = h.pinView.map fun p =>
      ({ p.1 with body := { p.1.body with dummysig := 0 } }, p.2) := by
    rw [RcompHal.pinView, RcompHal.pinView, RcompHal.erased, List.filter_map, List.map_map,
      List.map_map]
    rfl
  rw [hview, hview, hs.pins]

section Undone

variable {e : BindEnv} {pb : PbComponent} {cname : String} {t s' : HtRcomps}

lemma BindUndone.refl (e : BindEnv) (pb : PbComponent) (cname : String) (t : HtRcomps) :
    BindUndone e pb cname t t :=
  ⟨rfl, fun _ _ => rfl, fun _ => rfl, fun _ => .refl _, fun _ _ => .refl _,
    fun _ _ _ hb hf => hb.confirmed hf⟩

/-- A value makes no difference. -/
lemma erased_setPinValue (h : RcompHal) (pin : Obj Pin) (v : HalDataU) :
    RcompHal.erased { h with toHal := h.toHal.setPinValue pin v } = h.erased := by
  rw [Hal.setPinValue]
  split_ifs
  · have hsigs : (modify Obj.off pin.body.signal (fun o : Obj Sig =>
        { o with body := { o.body with value := v } }) h.sigs).map
          (fun o => { o with body := { o.body with value := 0 } }) =
        h.sigs.map fun o => { o with body := { o.body with value := 0 } } :=
      map_modify fun _ => rfl
    rw [RcompHal.erased, RcompHal.erased, ← hsigs]
    rfl
  · have hpins : (modify Obj.off pin.off (fun o : Obj Pin =>
        { o with body := { o.body with dummysig := v } }) h.pins).map
          (fun o => { o with body := { o.body with dummysig := 0 } }) =
        h.pins.map fun o => { o with body := { o.body with dummysig := 0 } } :=
      map_modify fun _ => rfl
    rw [RcompHal.erased, RcompHal.erased, ← hpins]
    rfl

/-- The server but for the values of pins and signals. -/
structure ValuesOnly (s s' : HtRcomps) : Prop where
  keeps : s' = { s with hal := s'.hal }
  hal : s'.hal.erased = s.hal.erased

lemma applyValue_valuesOnly {s : HtRcomps} {r : List BindNote × HtRcomps} (h : ValuesOnly s r.2)
    (p : PbBindPin) : ValuesOnly s (HtRcomps.applyValue r p).2 := by
  rw [HtRcomps.applyValue]
  dsimp only
  split
  · exact h
  split_ifs
  · exact h
  split
  · exact h
  · refine ⟨?_, (erased_setPinValue ..).trans h.hal⟩
    rw [h.keeps]

lemma applyInitialValues_valuesOnly (s : HtRcomps) (pb : PbComponent) :
    ValuesOnly s (s.applyInitialValues pb).2 := by
  rw [HtRcomps.applyInitialValues]
  have hstart : ValuesOnly s (([], s) : List BindNote × HtRcomps).2 := ⟨rfl, rfl⟩
  generalize (([], s) : List BindNote × HtRcomps) = r at hstart
  induction pb.pin generalizing r with
  | nil => exact hstart
  | cons p pins ih => exact ih _ (applyValue_valuesOnly hstart p)

/-- What is left is enough for later binds. -/
lemma BindUndone.of_sameHal (hr : s'.rcomps = t.rcomps)
    (hknown : t.rcomps cname ≠ none → t.takesValues cname = false → s' = t)
    (hitems : ¬ EntersPin e pb cname t → s'.items = t.items)
    (hhal : ¬ KeepsComp e pb cname t → SameHal t.hal.erased s'.hal.erased)
    (hvalues : ¬ KeepsComp e pb cname t → t.takesValues cname = false → SameHal t.hal s'.hal) :
    BindUndone e pb cname t s' :=
  ⟨hr, hknown, hitems, hhal, hvalues,
    fun hk _ _ hb hf => (hb.undone hr (hhal hk)).confirmed hf⟩

/-- A component that is not created is undone. -/
lemma bindNew_rejected {notes : List BindNote} (hf : e.Fresh t.hal) (hno : t.rcomps cname = none)
    (h : t.bindNew e pb cname = (.mtHalrcompBindReject notes, s')) :
    BindUndone e pb cname t s' := by
  rw [HtRcomps.bindNew] at h
  split_ifs at h with hcreate hready
  · cases h
    exact .refl e pb cname t
  · cases h
    exact .refl e pb cname t
  obtain ⟨r, s₁, hr⟩ : ∃ r s₁, t.createRcomp e pb cname = (r, s₁) := ⟨_, _, rfl⟩
  rw [hr] at h
  cases r with
  | ok rc =>
    obtain ⟨h, -⟩ := Prod.mk.inj h
    cases h
  | error note =>
  obtain ⟨-, rfl⟩ := Prod.mk.inj h
  have hout := createRcomp_outcome hf hr
  have hcreates (ha : CompAccepted t.hal e.comp cname) : CreatesComp e pb cname t :=
    ⟨hno, hcreate, Bool.eq_false_iff.2 hready, ha⟩
  have hhal (hkeeps : ¬ KeepsComp e pb cname t) : SameHal t.hal s₁.hal := by
    refine hout.undone.resolve_right fun ⟨ha, hshort, hrest⟩ => ?_
    rcases hrest with ⟨rc, hrc⟩ | hfails
    · cases hrc
    · exact hkeeps ⟨hcreates ha, hshort, hfails⟩
  refine .of_sameHal (by rw [hout.keeps]) (fun hne => absurd hno hne) (fun henters => ?_)
    (fun hk => (hhal hk).erased) (fun hk _ => hhal hk)
  exact hout.items.resolve_right fun ⟨ha, hp⟩ => henters ⟨hcreates ha, hp⟩

/-- A component that the server has keeps all but values. -/
lemma bindExisting_rejected {notes : List BindNote} {rc : Rcomp} (hrc : t.rcomps cname = some rc)
    (h : t.bindExisting pb cname rc = some (.mtHalrcompBindReject notes, s')) :
    BindUndone e pb cname t s' := by
  rw [HtRcomps.bindExisting] at h
  cases hvalid : t.validateComponent cname pb with
  | none =>
    rw [hvalid] at h
    cases h
  | some ns =>
  rw [hvalid] at h
  cases ns with
  | cons note ns =>
    obtain ⟨-, rfl⟩ := Prod.mk.inj (Option.some.inj h)
    exact .refl e pb cname t
  | nil =>
  obtain ⟨c, hc, h⟩ := Option.map_eq_some_iff.1 h
  split_ifs at h with haccepts
  · have htakes : t.takesValues cname = true := by
      rw [HtRcomps.takesValues, hrc, Option.any_some, hc, Option.any_some, haccepts]
    have hvalues := applyInitialValues_valuesOnly t pb
    obtain ⟨ns, s₁, hrun⟩ : ∃ ns s₁, t.applyInitialValues pb = (ns, s₁) := ⟨_, _, rfl⟩
    rw [hrun] at h hvalues
    cases ns with
    | nil =>
      obtain ⟨h, -⟩ := Prod.mk.inj h
      cases h
    | cons note ns =>
      obtain ⟨-, rfl⟩ := Prod.mk.inj h
      have hkeeps : s₁ = { t with hal := s₁.hal } := hvalues.keeps
      have hhal : s₁.hal.erased = t.hal.erased := hvalues.hal
      have hne : ¬ t.takesValues cname = false := by simp [htakes]
      refine .of_sameHal ?_ (fun _ hno => absurd hno hne) (fun _ => ?_) (fun _ => ?_)
        (fun _ hno => absurd hno hne)
      · rw [hkeeps]
      · rw [hkeeps]
      · rw [hhal]
        exact .refl _
  · obtain ⟨h, -⟩ := Prod.mk.inj h
    cases h

end Undone

/-! ### The result -/

/-- **A rejected bind** is undone, up to the components that the search for its component has
adopted. -/
theorem bind_rejected {e : BindEnv} {pb : PbComponent} {notes : List BindNote} {s s' : HtRcomps}
    (hf : e.Fresh s.hal)
    (h : s.processRcompBind e pb = some (.mtHalrcompBindReject notes, s')) :
    BindUndone e pb (pb.name.getD "") (s.searched e pb) s' := by
  have hscan := Scanned.searched e pb s
  rw [HtRcomps.processRcompBind] at h
  rw [HtRcomps.searched] at hscan ⊢
  cases hname : pb.name with
  | none =>
      rw [hname] at h
      cases h
      exact .refl e pb _ s
  | some cname =>
  rw [hname] at h hscan
  dsimp only at h hscan ⊢
  by_cases hall : pb.pin.all PbBindPin.complete = true
  · have hvalid : (pb.pin.filter fun p => !p.complete) = [] := by
      rw [List.filter_eq_nil_iff]
      intro p hp
      simp [List.all_eq_true.1 hall p hp]
    rw [if_pos hall] at hscan ⊢
    rw [hvalid, if_neg (by simp)] at h
    cases hrc : (s.look e cname).rcomps cname with
    | none =>
        rw [hrc] at h
        exact bindNew_rejected (hscan.fresh hf) hrc (Option.some.inj h)
    | some rc =>
        rw [hrc] at h
        exact bindExisting_rejected hrc h
  · have hinvalid : (pb.pin.filter fun p => !p.complete) ≠ [] := by
      rw [ne_eq, List.filter_eq_nil_iff]
      intro hno
      exact hall (List.all_eq_true.2 fun p hp => by simpa using hno p hp)
    rw [if_pos hinvalid] at h
    cases h
    rw [if_neg hall]
    exact .refl e pb _ s

/-- A server of a HAL with a remote component that nobody owns, and an output pin of it. -/
def adopting : HtRcomps :=
  { hal :=
      { lock := 0, halSize := 4096
        comps := [⟨64, ⟨1, 0, "comp", 0, false, true, false, false⟩,
          ⟨.typeRemote, .compUnbound, 8192⟩⟩]
        insts := [], pins := [outPin .halBit], sigs := [], functs := [], threads := []
        functEntryFree := [], cells := fun _ => none, params := []
        remote := fun _ => ⟨0, 0, 0, 0⟩, pinFlags := fun _ => 0, rtapiAppPid := 100 }
    pid := 200, base := 8192, defaultRcompTimer := 10, rcomps := fun _ => none
    items := fun _ => none }

/-- The environment of a bind with one pin. -/
def oneBind : BindEnv :=
  { handle := 5, comp := some ⟨256, 5⟩, pin := fun i => if i = 0 then some ⟨512, 6⟩ else none
    mallocs := enough, adopted := fun _ => enough }

/-- A bind with a pin of a type that is not valid. -/
def stringPin : PbComponent :=
  { name := some "new", timer := none, userarg1 := none, userarg2 := none, noCreate := none
    pin := [{ type := some .string, name := some "new.pin", handle := none, halbit := none
              halfloat := none, hals32 := none, halu32 := none, dir := some .halIn }]
    param := [] }

lemma oneBind_fresh : oneBind.Fresh adopting.hal where
  nodup := by decide
  positive := by decide
  comps := by decide
  insts := by decide
  pins := by decide
  params := by simp [adopting]
  comp m hm := by
    cases hm
    decide
  pin i m hm := by
    rw [oneBind] at hm
    dsimp only at hm
    split_ifs at hm
    cases hm
    decide
  apart i j m m' hm hm' hne := by
    rw [oneBind] at hm hm'
    dsimp only at hm hm'
    split_ifs at hm hm'
    omega

/-- The component is created and taken back. -/
theorem bind_rejected_stringPin : ∃ s',
    adopting.processRcompBind oneBind stringPin =
      some (.mtHalrcompBindReject [.pinNew .EINVAL], s') ∧
    BindUndone oneBind stringPin "new" (adopting.searched oneBind stringPin) s' := by
  have hrun : (adopting.processRcompBind oneBind stringPin).map Prod.fst =
      some (.mtHalrcompBindReject [.pinNew .EINVAL]) := by decide
  obtain ⟨⟨r, s'⟩, hs, rfl⟩ := Option.map_eq_some_iff.1 hrun
  exact ⟨s', hs, bind_rejected oneBind_fresh hs⟩

/-- A rejected bind has adopted the other component. -/
theorem bind_rejected_changes :
    ¬ ∀ (e : BindEnv) (pb : PbComponent) (notes : List BindNote) (s s' : HtRcomps),
      e.Fresh s.hal → s.processRcompBind e pb = some (.mtHalrcompBindReject notes, s') →
      SameHal s.hal s'.hal ∧ s'.rcomps = s.rcomps ∧ s'.items = s.items := by
  intro hall
  have hrun : (adopting.processRcompBind oneBind stringPin).map
      (fun r => (r.1, (r.2.rcomps "comp").isSome)) =
        some (.mtHalrcompBindReject [.pinNew .EINVAL], true) := by decide
  obtain ⟨⟨r, s'⟩, hs, hr⟩ := Option.map_eq_some_iff.1 hrun
  obtain ⟨rfl, hadopted⟩ := Prod.mk.inj hr
  obtain ⟨-, hrcomps, -⟩ := hall oneBind _ _ adopting s' oneBind_fresh hs
  rw [hrcomps] at hadopted
  cases hadopted

end MachinekitHal
