import MachinekitHal.Hal.GroupOwnership
import MachinekitHal.Hal.Wiring

/-!
Runs in which pins and signals are linked, groups refer to signals, and values change.

* `WireAct`, `wireStep`: a call on pins and signals, a call on groups, or a write of a value.
* `SameWiring`: the same pins and signals, linked in the same way, which is all the linkage
  invariant depends on (`Linkage.sameWiring`).
* `wireStep_link`: up to the wiring, every step is a call of the pin and signal functions, or
  nothing.
* `Wired`, `wired_reach`: links and counts are in order in every state reached; `linkage_reach`
  has the data pointers of components, too, if no two valid legacy pins share one.
-/

namespace MachinekitHal

open Store Runs

variable {α : Type} {h h' : Hal} {s s' : GroupHal} {a : GroupAct}

/-- A write through a data pointer. -/
def Hal.writeRef (h : Hal) (ref : DataRef) (v : HalDataU) : Hal :=
  match ref with
  | .value sig => h.modifySig sig fun g => { g with value := v }
  | .dummysig pin => h.modifyPin pin fun p => { p with dummysig := v }

/-- A call of the functions on pins and signals or of those on groups, or a write of a value
through a pin or a signal. -/
inductive WireAct where
  | link (a : LinkAct)
  | group (a : GroupAct)
  | write (ref : DataRef) (v : HalDataU)

/-- The memory a call allocates. -/
def LinkAct.mem : LinkAct → Option Alloc
  | .pinNew mem .. | .signalNew mem .. => mem
  | _ => none

/-- The memory a step allocates. -/
def WireAct.mem : WireAct → Option Alloc
  | .link a => a.mem
  | .group a => a.mem
  | .write .. => none

/-- One step. -/
def wireStep (s : GroupHal) : WireAct → Option GroupHal
  | .link a => (linkStep s.toHal a).map fun h => { s with toHal := h }
  | .group a => groupStep s a
  | .write ref v => some { s with toHal := s.toHal.writeRef ref v }

/-- New descriptors are in free memory. -/
def wireAlloc (s : GroupHal) (a : WireAct) : Bool := s.freshObj a.mem

/-- Besides, a new legacy pin has a cell of its own. -/
def wireOwnCell (s : GroupHal) (a : WireAct) : Bool :=
  wireAlloc s a && match a with
    | .link (.pinNew _ _ _ dataPtrAddr ..) => s.toHal.freshCell dataPtrAddr
    | _ => true

/-! ### The wiring -/

/-- What the links depend on in a list of objects. -/
def wiring {β : Type} (f : α → β) (l : List (Obj α)) : List (ℕ × Bool × Int16 × Bool × β) :=
  l.map fun o => (o.off, o.hdr.valid, o.hdr.ownerId, o.hdr.legacy, f o.body)

/-- A pin without its value. -/
def Pin.wire (p : Pin) : Option ℕ × DataRef × ℕ × HalType × HalPinDir :=
  (p.dataPtrAddr, p.dataPtr, p.signal, p.type, p.dir)

/-- A signal without its value. -/
def Sig.wire (g : Sig) : HalType × ℤ × ℤ × ℤ := (g.type, g.readers, g.writers, g.bidirs)

/-- The same pins and signals, linked in the same way. -/
structure SameWiring (h h' : Hal) : Prop where
  pins : wiring Pin.wire h'.pins = wiring Pin.wire h.pins
  sigs : wiring Sig.wire h'.sigs = wiring Sig.wire h.sigs
  owner : ∀ i, h'.findOwningComp i = h.findOwningComp i
  cells : h'.cells = h.cells

lemma mem_of_wiring {β : Type} {f : α → β} {l l' : List (Obj α)} (he : wiring f l' = wiring f l)
    {o' : Obj α} (ho' : o' ∈ l') : ∃ o ∈ l, o.off = o'.off ∧ o.hdr.valid = o'.hdr.valid ∧
      o.hdr.ownerId = o'.hdr.ownerId ∧ o.hdr.legacy = o'.hdr.legacy ∧ f o.body = f o'.body := by
  have hmem : (o'.off, o'.hdr.valid, o'.hdr.ownerId, o'.hdr.legacy, f o'.body) ∈ wiring f l :=
    he ▸ List.mem_map_of_mem ho'
  obtain ⟨o, ho, heq⟩ := List.mem_map.mp hmem
  simp only [Prod.mk.injEq] at heq
  exact ⟨o, ho, heq⟩

lemma keys_of_wiring {β : Type} {f : α → β} {l l' : List (Obj α)}
    (he : wiring f l' = wiring f l) : l'.map Obj.off = l.map Obj.off := by
  have hk := congrArg (List.map Prod.fst) he
  rwa [wiring, wiring, List.map_map, List.map_map] at hk

/-- A change of the reference count keeps the wiring. -/
lemma wiring_mapHdr {β : Type} {f : α → β} {l : List (Obj α)} (off : ℕ) {F : Halhdr → Halhdr}
    (hF : ∀ hh, (F hh).valid = hh.valid ∧ (F hh).ownerId = hh.ownerId ∧ (F hh).legacy = hh.legacy) :
    wiring f (modify Obj.off off (Obj.mapHdr F) l) = wiring f l := by
  simp only [wiring, Store.modify, List.map_map]
  refine List.map_congr_left fun o _ => ?_
  by_cases hk : o.off = off <;> simp [hk, Obj.mapHdr, hF]

/-- A change of bodies that keeps what is wired keeps the wiring. -/
lemma wiring_modifyBody {β : Type} {f : α → β} {l : List (Obj α)} (off : ℕ) {F : α → α}
    (hF : ∀ b, f (F b) = f b) :
    wiring f (modify Obj.off off (fun o => { o with body := F o.body }) l) = wiring f l := by
  simp only [wiring, Store.modify, List.map_map]
  refine List.map_congr_left fun o _ => ?_
  by_cases hk : o.off = off <;> simp [hk, hF]

/-- The counts depend on the wiring only. -/
lemma linkCount_wiring {l l' : List (Obj Pin)} (he : wiring Pin.wire l' = wiring Pin.wire l)
    (sel : HalPinDir → Bool) (sig : ℕ) : linkCount sel sig l' = linkCount sel sig l := by
  have hcount : ∀ l : List (Obj Pin), linkCount sel sig l = (wiring Pin.wire l).countP
      fun (_, valid, _, _, _, _, signal, _, dir) => valid && signal == sig && sel dir := by
    intro l
    rw [wiring, List.countP_map]
    rfl
  rw [hcount, hcount, he]

/-- Links and counts are in order if they are in a state wired the same. -/
lemma Linkage.sameWiring (hL : Linkage h) (hw : SameWiring h h') : Linkage h' := by
  have hpinKeys : (h'.pins.map Obj.off).Nodup := keys_of_wiring hw.pins ▸ hL.pinKeys
  refine ⟨hpinKeys, keys_of_wiring hw.sigs ▸ hL.sigKeys, ?_, ?_, ?_, ?_⟩
  · intro g' hg'
    obtain ⟨g, hg, hoff, -⟩ := mem_of_wiring hw.sigs hg'
    exact hoff ▸ hL.sigNe g hg
  · intro p' hp' hv'
    obtain ⟨p, hp, hoff, hv, hid, hleg, hwire⟩ := mem_of_wiring hw.pins hp'
    have hok := hL.pins p hp (hv.trans hv')
    simp only [Pin.wire, Prod.mk.injEq] at hwire
    obtain ⟨haddr, hptr, hsig, htype, hdir⟩ := hwire
    refine ⟨hdir ▸ hok.dir, ?_, fun hl => ?_⟩
    · rcases hok.link with ⟨h0, hd⟩ | ⟨g, hg, hgv, hgo, hgt, hd⟩
      · exact .inl ⟨hsig ▸ h0, by rw [← hptr, hd, hoff]⟩
      · obtain ⟨g', hg', hgo', hgv', -, -, hgw⟩ := mem_of_wiring hw.sigs.symm hg
        simp only [Sig.wire, Prod.mk.injEq] at hgw
        refine .inr ⟨g', hg', hgv'.trans hgv, ?_, ?_, ?_⟩
        · rw [hgo', hgo, hsig]
        · rw [hgw.1, hgt, htype]
        · rw [← hptr, hd, hgo']
    · obtain ⟨a, comp, ha, hc, hcell⟩ := hok.cell (hleg.trans hl)
      refine ⟨a, comp, haddr ▸ ha, ?_, ?_⟩
      · rw [hw.owner, ← hid, hc]
      · rw [hw.cells, hcell, hptr]
  · intro g' hg' hv'
    obtain ⟨g, hg, hoff, hv, -, -, hwire⟩ := mem_of_wiring hw.sigs hg'
    have hok := (hL.sigs g hg (hv.trans hv')).congr fun sel => linkCount_wiring hw.pins sel g.off
    simp only [Sig.wire, Prod.mk.injEq] at hwire
    obtain ⟨ht, hr, hwr, hb⟩ := hwire
    exact ⟨by rw [← hr, ← hoff, hok.readers], by rw [← hwr, ← hoff, hok.writers],
      by rw [← hb, ← hoff, hok.bidirs], hwr ▸ hok.oneWriter, hwr ▸ hb ▸ hok.noBidir,
      ht ▸ hok.type⟩
  · intro p' hp' q' hq' hpv hqv hpl hql haddr
    obtain ⟨p, hp, hpo, hpv', -, hpl', hpw⟩ := mem_of_wiring hw.pins hp'
    obtain ⟨q, hq, hqo, hqv', -, hql', hqw⟩ := mem_of_wiring hw.pins hq'
    simp only [Pin.wire, Prod.mk.injEq] at hpw hqw
    have heq : p = q := hL.cells p hp q hq (hpv'.trans hpv) (hqv'.trans hqv) (hpl'.trans hpl)
      (hql'.trans hql) (by rw [hpw.1, hqw.1, haddr])
    exact eq_of_key hpinKeys hp' hq' (by rw [← hpo, ← hqo, heq])

/-- With all pins as v2 pins, too. -/
lemma SameWiring.asV2 (hw : SameWiring h h') : SameWiring h.asV2 h'.asV2 := by
  refine ⟨?_, hw.sigs, hw.owner, rfl⟩
  have hv2 : ∀ l : List (Obj Pin), wiring Pin.wire (l.map Obj.asV2) =
      (wiring Pin.wire l).map fun (off, valid, owner, _, _, wire) =>
        (off, valid, owner, false, none, wire) := by
    intro l
    rw [wiring, wiring, List.map_map, List.map_map]
    rfl
  rw [Hal.asV2, Hal.asV2, hv2, hv2, hw.pins]

/-! ### What the group functions do to the wiring -/

lemma SameWiring.refl (h : Hal) : SameWiring h h := ⟨rfl, rfl, fun _ => rfl, rfl⟩

lemma SameWiring.trans {h'' : Hal} (hw : SameWiring h h') (hw' : SameWiring h' h'') :
    SameWiring h h'' :=
  ⟨hw'.pins.trans hw.pins, hw'.sigs.trans hw.sigs, fun i => (hw'.owner i).trans (hw.owner i),
    hw'.cells.trans hw.cells⟩

/-- The owner of a pin is looked up among the components and instances. -/
lemma findOwningComp_congr (hc : h'.comps = h.comps) (hi : h'.insts = h.insts) (i : ℤ) :
    h'.findOwningComp i = h.findOwningComp i := by
  rw [Hal.findOwningComp, Hal.findOwningComp, hc, hi]

/-- A change of the reference count of an object that is no component and no instance. -/
lemma sameWiring_mapHdr {off : ℕ} (ho : off ∉ s.comps.map Obj.off ∧ off ∉ s.insts.map Obj.off)
    {F : Halhdr → Halhdr}
    (hF : ∀ hh, (F hh).valid = hh.valid ∧ (F hh).ownerId = hh.ownerId ∧ (F hh).legacy = hh.legacy) :
    SameWiring s.toHal (s.mapObjs fun _ => modify Obj.off off (Obj.mapHdr F)).toHal :=
  ⟨wiring_mapHdr off hF, wiring_mapHdr off hF,
    findOwningComp_congr (modify_eq_self ho.1) (modify_eq_self ho.2), rfl⟩

/-- Signals, groups and members are no components and no instances, and groups and members are
neither pins nor signals. -/
lemma groups_apart (hk : (s.headers.map Prod.fst).Nodup) {off : ℕ} :
    (off ∈ s.sigs.map Obj.off ∨ off ∈ s.groups.map Obj.off ∨ off ∈ s.members.map Obj.off →
      off ∉ s.comps.map Obj.off ∧ off ∉ s.insts.map Obj.off) ∧
    (off ∈ s.groups.map Obj.off ∨ off ∈ s.members.map Obj.off →
      off ∉ s.pins.map Obj.off ∧ off ∉ s.sigs.map Obj.off) := by
  rw [keys_eq, List.nodup_flatten] at hk
  have hd := hk.2
  simp only [List.pairwise_cons, List.mem_cons, List.not_mem_nil, or_false, forall_eq_or_imp,
    forall_eq] at hd
  obtain ⟨⟨-, -, hcs, -, -, hcg, hcm, -⟩, ⟨-, his, -, -, hig, him, -⟩, ⟨-, -, -, hpg, hpm, -⟩,
    ⟨-, -, hsg, hsm, -⟩, -⟩ := hd
  constructor
  · rintro (ho | ho | ho)
    · exact ⟨fun h => hcs h ho, fun h => his h ho⟩
    · exact ⟨fun h => hcg h ho, fun h => hig h ho⟩
    · exact ⟨fun h => hcm h ho, fun h => him h ho⟩
  · rintro (ho | ho)
    · exact ⟨fun h => hpg h ho, fun h => hsg h ho⟩
    · exact ⟨fun h => hpm h ho, fun h => hsm h ho⟩

/-- Groups and members of `s` were freed, and no more. -/
structure Freed (s t : GroupHal) : Prop where
  same : SameWiring s.toHal t.toHal
  keys : t.headers.map Prod.fst = s.headers.map Prod.fst

lemma Freed.freeObject {t : GroupHal} (hf : Freed s t) (hk : (s.headers.map Prod.fst).Nodup)
    {off : ℕ} (ho : off ∈ t.groups.map Obj.off ∨ off ∈ t.members.map Obj.off) :
    Freed s (t.freeObject off) := by
  have hapart := @groups_apart t (hf.keys.symm ▸ hk) off
  obtain ⟨hp, hs⟩ := hapart.2 ho
  obtain ⟨hc, hi⟩ := hapart.1 (.inr ho)
  refine ⟨hf.same.trans ⟨?_, ?_, findOwningComp_congr (modify_eq_self hc) (modify_eq_self hi),
    rfl⟩, (keys_freeObject off).trans hf.keys⟩
  · change wiring Pin.wire (halgFreeObject off t.pins) = _
    rw [halgFreeObject, modify_eq_self hp]
  · change wiring Sig.wire (halgFreeObject off t.sigs) = _
    rw [halgFreeObject, modify_eq_self hs]

/-- A traversal of members that frees what it visits. -/
lemma Freed.members {t : GroupHal} (hf : Freed s t) (hk : (s.headers.map Prod.fst).Nodup)
    (sel : Obj Member → Bool) :
    Freed s (halgForeach GroupHal.members sel (fun off s => s.freeObject off) t) :=
  halgForeach_rule (P := Freed s)
    (fun _ _ hu hm _ _ => hu.freeObject hk (.inr (List.mem_map_of_mem hm))) hf

/-- Freeing members keeps the offsets of the groups. -/
lemma freeMembers_groups (t : GroupHal) (sel : Obj Member → Bool) :
    (halgForeach GroupHal.members sel (fun off s => s.freeObject off) t).groups.map Obj.off
      = t.groups.map Obj.off :=
  halgForeach_rule (P := fun u : GroupHal => u.groups.map Obj.off = t.groups.map Obj.off)
    (fun u o hu _ _ _ => (keys_free o.off u.groups).trans hu) rfl

lemma Freed.freeGroupStruct {t : GroupHal} (hf : Freed s t) (hk : (s.headers.map Prod.fst).Nodup)
    {group : Obj Group} (hg : group ∈ t.groups) : Freed s (t.freeGroupStruct group) := by
  refine (hf.members hk _).freeObject hk (.inl ?_)
  rw [freeMembers_groups]
  exact List.mem_map_of_mem hg

lemma Freed.freeGroups (hk : (s.headers.map Prod.fst).Nodup) : Freed s s.freeGroups := by
  refine halgForeach_rule (P := Freed s) (fun t g hf hg _ _ => ?_) ⟨.refl _, rfl⟩
  rw [GroupHal.freeGroupAt]
  cases hat : at? Obj.off g.off t.groups with
  | none => exact hf
  | some group => exact hf.freeGroupStruct hk (List.mem_of_find?_eq_some hat)

/-- A call that does not go to the signal functions and is no sweep keeps the wiring. -/
lemma groupCall_wiring (hk : (s.headers.map Prod.fst).Nodup) {a : GroupAct}
    (hnew : ∀ mem name type, a ≠ .signalNew mem name type)
    (hdel : ∀ name, a ≠ .signalDelete name) (hsweep : a ≠ .sweep) :
    SameWiring s.toHal (groupCall s a).2.toHal := by
  have hself : Freed s s := ⟨.refl _, rfl⟩
  cases a with
  | signalNew mem name type => exact absurd rfl (hnew mem name type)
  | signalDelete name => exact absurd rfl (hdel name)
  | sweep => exact absurd rfl hsweep
  | groupNew mem name arg1 arg2 =>
    rw [groupCall, GroupHal.halgGroupNew]
    split_ifs
    · exact .refl _
    · exact .refl _
    · exact .refl _
    · split <;> exact .refl _
  | groupDelete name =>
    rw [groupCall, GroupHal.halgGroupDelete]
    split_ifs
    · exact .refl _
    · cases hf : findByName name s.groups with
      | none => exact .refl _
      | some group =>
        dsimp only
        split_ifs
        · exact .refl _
        · exact (hself.freeGroupStruct hk (findByName_mem hf).1).same
  | refGroup name =>
    rw [groupCall, GroupHal.halRefGroup]
    split
    · exact .refl _
    · next group hg =>
        have ho := List.mem_map_of_mem (f := Obj.off) (findByName_mem hg).1
        exact sameWiring_mapHdr ((groups_apart hk).1 (.inr (.inl ho))) fun _ => ⟨rfl, rfl, rfl⟩
  | unrefGroup name =>
    rw [groupCall, GroupHal.halUnrefGroup]
    split
    · exact .refl _
    · next group hg =>
        have ho := List.mem_map_of_mem (f := Obj.off) (findByName_mem hg).1
        exact sameWiring_mapHdr ((groups_apart hk).1 (.inr (.inl ho))) fun _ => ⟨rfl, rfl, rfl⟩
  | memberNew mem group member arg1 epsIndex =>
    rw [groupCall, halgMemberNew_eq]
    split
    · exact .refl _
    split
    · exact .refl _
    next sig hsig =>
    split_ifs
    · exact .refl _
    split
    · exact .refl _
    · have ho := List.mem_map_of_mem (f := Obj.off) (findByName_mem hsig).1
      exact sameWiring_mapHdr ((groups_apart hk).1 (.inl ho)) fun _ => ⟨rfl, rfl, rfl⟩
  | memberDelete group member =>
    rw [groupCall, halgMemberDelete_eq]
    split
    · exact .refl _
    split
    · next mptr sig hm hs =>
        have ho := List.mem_map_of_mem (f := Obj.off) (findByName_mem hs).1
        have hd : Freed s (s.hoDecref sig.off) :=
          ⟨sameWiring_mapHdr ((groups_apart hk).1 (.inl ho)) fun _ => ⟨rfl, rfl, rfl⟩,
            keys_hoDecref _⟩
        refine (hd.freeObject hk (.inr ?_)).same
        have hkeys : (s.hoDecref sig.off).members.map Obj.off = s.members.map Obj.off :=
          keys_modify fun _ => rfl
        rw [hkeys]
        exact List.mem_map_of_mem (findByName_mem hm).1
    · exact .refl _
  | freeGroups => exact (Freed.freeGroups hk).same
  | freeMembers => exact (hself.members hk _).same

/-! ### Offsets -/

/-- The same objects at the same offsets. -/
structure SameOffs (h h' : Hal) : Prop where
  comps : h'.comps = h.comps
  insts : h'.insts = h.insts
  functs : h'.functs = h.functs
  threads : h'.threads = h.threads
  pins : h'.pins.map Obj.off = h.pins.map Obj.off
  sigs : h'.sigs.map Obj.off = h.sigs.map Obj.off

namespace SameOffs

lemma refl (h : Hal) : SameOffs h h := ⟨rfl, rfl, rfl, rfl, rfl, rfl⟩

lemma of_sameObjs (hs : SameObjs h h') : SameOffs h h' := by
  have hfst : ∀ {β : Type} {l l' : List (Obj β)}, headersOf l' = headersOf l →
      l'.map Obj.off = l.map Obj.off := by
    intro β l l' he
    have hk := congrArg (List.map Prod.fst) he
    rwa [headersOf, headersOf, List.map_map, List.map_map] at hk
  exact ⟨hs.comps, hs.insts, hs.functs, hs.threads, hfst hs.pins, hfst hs.sigs⟩

lemma freePin (hs : SameOffs h h') (off : ℕ) :
    SameOffs h { h' with pins := halgFreeObject off h'.pins } :=
  ⟨hs.comps, hs.insts, hs.functs, hs.threads, (keys_free off _).trans hs.pins, hs.sigs⟩

lemma freeSig (hs : SameOffs h h') (off : ℕ) :
    SameOffs h { h' with sigs := halgFreeObject off h'.sigs } :=
  ⟨hs.comps, hs.insts, hs.functs, hs.threads, hs.pins, (keys_free off _).trans hs.sigs⟩

lemma propagateBarriers (hs : SameOffs h h') (sig : Obj Sig) :
    SameOffs h (h'.propagateBarriers sig) := by
  refine halgForeach_rule (P := SameOffs h) (fun t o ht _ _ _ => ?_) hs
  have hk : (t.propagateBarriersCb sig.hdr o.off).pins.map Obj.off = t.pins.map Obj.off :=
    keys_modify fun _ => rfl
  exact ⟨ht.comps, ht.insts, ht.functs, ht.threads, hk.trans ht.pins, ht.sigs⟩

lemma linkPin (pin : Obj Pin) (sig : Obj Sig) : SameOffs h (h.linkPin pin sig).2 := by
  have hself : SameObjs h h := ⟨rfl, rfl, rfl, rfl, rfl, rfl, rfl⟩
  have hcell := (hself.setCell pin (.value sig.off)).modifyPin pin.off
    fun p => { p with dataPtr := .value sig.off }
  rw [Hal.linkPin]
  dsimp only
  split
  · exact of_sameObjs hcell
  · exact (of_sameObjs ((hcell.modifySig _ _).modifyPin _ _)).propagateBarriers sig

lemma halgLink (pinName sigName : String) : SameOffs h (h.halgLink pinName sigName).2 := by
  rw [Hal.halgLink]
  repeat' split
  all_goals first
    | exact refl h
    | exact linkPin _ _

lemma halgUnlink (pinName : String) : SameOffs h (h.halgUnlink pinName).2 := by
  have hself : SameObjs h h := ⟨rfl, rfl, rfl, rfl, rfl, rfl, rfl⟩
  rw [Hal.halgUnlink]
  repeat' split
  all_goals first
    | exact refl h
    | exact of_sameObjs (hself.unlinkPin _)

lemma halgSignalDelete (name : String) : SameOffs h (h.halgSignalDelete name).2 := by
  rw [Hal.halgSignalDelete]
  repeat' split
  all_goals first
    | exact refl h
    | exact (of_sameObjs (.unlinkAll h _)).freeSig _

end SameOffs

/-- With the same offsets, the offsets of all objects are the same. -/
lemma SameOffs.keys (hs : SameOffs s.toHal h') :
    ({ s with toHal := h' } : GroupHal).headers.map Prod.fst = s.headers.map Prod.fst := by
  rw [keys_eq, keys_eq]
  simp only [hs.comps, hs.insts, hs.functs, hs.threads, hs.pins, hs.sigs]

lemma headers_addPin (new : Obj Pin) (cells : ℕ → Option DataPtr) :
    ({ s with toHal := { s.toHal with pins := addObject new s.pins, cells := cells } } :
      GroupHal).headers.Perm ((new.off, new.hdr) :: s.headers) := by
  have h := perm_insert (a := headersOf s.comps ++ headersOf s.insts)
    (c := headersOf s.sigs ++ headersOf s.functs ++ headersOf s.threads ++ headersOf s.groups
      ++ headersOf s.members ++ headersOf s.vtables) (headersOf_addObject new (l := s.pins))
  simpa only [GroupHal.headers, List.append_assoc] using h

/-! ### The invariant -/

/-- Distinct offsets, and links and counts in order. -/
structure Wired (s : GroupHal) : Prop where
  keys : (s.headers.map Prod.fst).Nodup
  linkage : Linkage s.toHal.asV2

/-- A HAL without pins and signals, whatever else there is. -/
structure GroupHal.Unwired (s : GroupHal) : Prop where
  keys : (s.headers.map Prod.fst).Nodup
  unwired : s.toHal.unwired

lemma Wired.of_unwired (h0 : s.Unwired) : Wired s := by
  refine ⟨h0.keys, Linkage.of_unwired ⟨?_, h0.unwired.2⟩⟩
  rw [Hal.asV2, h0.unwired.1]
  rfl

/-- What is fresh among all objects is fresh among those of `Hal`. -/
lemma fresh_of_freshObj {mem : Option Alloc} (hf : s.freshObj mem = true) :
    s.toHal.fresh mem = true := by
  cases mem with
  | none => rfl
  | some m =>
    simp only [GroupHal.freshObj, Hal.fresh, Option.all_some, decide_eq_true_eq] at hf ⊢
    refine ⟨hf.1, fun ho => hf.2 ?_⟩
    rw [keys_eq]
    simp only [Hal.offsets, List.mem_append] at ho
    simp only [List.flatten_cons, List.mem_append]
    tauto

lemma linkAlloc_of_freshObj {a : LinkAct} (hf : s.freshObj a.mem = true) :
    linkAlloc s.toHal a = true := by
  cases a <;> first | rfl | exact fresh_of_freshObj hf

lemma keys_pinNew (hk : (s.headers.map Prod.fst).Nodup) {mem : Option Alloc}
    (hf : s.freshObj mem = true) (type : HalType) (dir : HalPinDir) (dataPtrAddr : Option ℤ)
    (ownerId : ℤ) (defval : HalDataU) (name : String) :
    (({ s with toHal := (s.toHal.halgPinNewfv mem type dir dataPtrAddr ownerId defval name).2 } :
      GroupHal).headers.map Prod.fst).Nodup := by
  rw [Hal.halgPinNewfv]
  split
  · exact hk
  split
  · exact hk
  split
  · exact hk
  split
  · exact hk
  split
  · exact hk
  split
  · exact hk
  split
  · exact hk
  split
  · exact hk
  next new hnew =>
    obtain ⟨m, rfl, hoff, -⟩ := halgCreateObject_eq hnew
    -- setting the cell of the component moves no object
    obtain ⟨cells, hcell⟩ : ∃ cells, s.toHal.setCell (Hal.newPin new dataPtrAddr)
        (.dummysig (Hal.newPin new dataPtrAddr).off) = { s.toHal with cells := cells } := by
      rw [Hal.setCell]
      split <;> exact ⟨_, rfl⟩
    dsimp only
    rw [hcell]
    refine keys_insert (headers_addPin (Hal.newPin new dataPtrAddr) cells) hk ?_
    exact GroupHal.not_mem_of_freshObj hf rfl hoff

lemma keys_signalNew (hk : (s.headers.map Prod.fst).Nodup) {mem : Option Alloc}
    (hf : s.freshObj mem = true) (name : String) (type : HalType) :
    (({ s with toHal := (s.toHal.halgSignalNew mem name type).2 } :
      GroupHal).headers.map Prod.fst).Nodup := by
  rw [Hal.halgSignalNew]
  split
  · exact hk
  split
  · exact hk
  split
  · exact hk
  split
  · exact hk
  next new hnew =>
    obtain ⟨m, rfl, hoff, -⟩ := halgCreateObject_eq hnew
    have hfresh := GroupHal.not_mem_of_freshObj hf rfl hoff
    cases type <;> first | exact hk | exact keys_insert (headers_addSig new) hk hfresh

/-- A call of the pin and signal functions keeps the offsets distinct. -/
lemma keys_linkStep {a : LinkAct} (hk : (s.headers.map Prod.fst).Nodup)
    (hf : s.freshObj a.mem = true) (hs : linkStep s.toHal a = some h') :
    (({ s with toHal := h' } : GroupHal).headers.map Prod.fst).Nodup := by
  have hself : SameObjs s.toHal s.toHal := ⟨rfl, rfl, rfl, rfl, rfl, rfl, rfl⟩
  have hsame : SameOffs s.toHal h' →
      (({ s with toHal := h' } : GroupHal).headers.map Prod.fst).Nodup :=
    fun h => h.keys.symm ▸ hk
  cases a with
  | pinNew mem type dir dataPtrAddr ownerId defval name =>
    cases hs
    exact keys_pinNew hk hf type dir dataPtrAddr ownerId defval name
  | pinDelete off =>
    simp only [linkStep] at hs
    split at hs
    · split_ifs at hs
      cases hs
      exact hsame ((SameOffs.of_sameObjs (hself.unlinkPin off)).freePin off)
    · simp at hs
  | link pinName sigName =>
    cases hs
    exact hsame (.halgLink pinName sigName)
  | unlink pinName =>
    cases hs
    exact hsame (.halgUnlink pinName)
  | signalNew mem name type =>
    cases hs
    exact keys_signalNew hk hf name type
  | signalDelete name =>
    cases hs
    exact hsame (.halgSignalDelete name)
  | sweep =>
    cases hs
    refine hk.sublist ?_
    rw [keys_eq, keys_eq]
    have hsub : ∀ {β : Type} (l : List (Obj β)),
        List.Sublist ((sweep l).map Obj.off) (l.map Obj.off) :=
      fun l => List.filter_sublist.map Obj.off
    simp only [List.flatten_cons, List.flatten_nil, List.append_nil]
    exact (((List.Sublist.refl _).append ((List.Sublist.refl _).append
      ((hsub _).append ((hsub _).append (List.Sublist.refl _))))))

/-- A call of the group functions keeps the offsets distinct. -/
lemma keys_groupCall {a : GroupAct} (hk : (s.headers.map Prod.fst).Nodup)
    (hf : s.freshObj a.mem = true) : ((groupCall s a).2.headers.map Prod.fst).Nodup := by
  cases groupCall_change hk a with
  | same _ hs => rwa [hs.headers]
  | newSig _ m new hm hoff _ _ _ he =>
    exact he ▸ keys_insert (headers_addSig new) hk (GroupHal.not_mem_of_freshObj hf hm hoff)
  | newGroup _ m new hm hoff _ he =>
    exact he ▸ keys_insert (headers_addGroup new) hk (GroupHal.not_mem_of_freshObj hf hm hoff)
  | newMember m new sig _ _ _ ha _ hoff _ _ _ _ he =>
    rw [he]
    refine keys_insert (headers_addMember new) ?_ ?_
    · rwa [keys_hoIncref]
    · rw [keys_hoIncref]
      exact GroupHal.not_mem_of_freshObj hf (by rw [ha]; rfl) hoff
  | dropMember _ _ _ _ _ _ _ _ he => rwa [he, keys_freeObject, keys_hoDecref]
  | freeSig _ t sig ht hsig he =>
    have ho : sig.off ∈ t.sigs.map Obj.off := by
      have hmem : (sig.off, sig.hdr) ∈ headersOf t.sigs := ht.objs.sigs ▸ mem_headersOf hsig
      obtain ⟨g, hg, hge⟩ := List.mem_map.mp hmem
      exact List.mem_map.mpr ⟨g, hg, (Prod.mk.inj hge).1⟩
    have htk : (t.headers.map Prod.fst).Nodup := by rwa [ht.headers]
    rwa [he, freeSig_eq htk ho, keys_freeObject]
  | free _ offs _ he => rwa [he, keys_freeAll]
  | refGroup _ _ _ _ _ he => rwa [he, keys_hoIncref]
  | unrefGroup _ _ _ _ _ he => rwa [he, keys_hoDecref]
  | sweep _ he =>
    rw [he, GroupHal.headers_halSweep]
    exact hk.sublist (List.filter_sublist.map Prod.fst)

lemma findById_sweep {l : List (Obj α)} (id : ℤ) : findById id (sweep l) = findById id l := by
  rw [findById, findById, sweep, List.find?_filter]
  congr 1
  funext o
  cases o.hdr.valid <;> simp [Bool.beq_eq_decide_eq]

/-- Sweeping the other objects keeps the wiring. -/
lemma sameWiring_halSweep : SameWiring
    { s.toHal with pins := sweep s.pins, sigs := sweep s.sigs } s.halSweep.toHal := by
  refine ⟨rfl, rfl, fun i => ?_, rfl⟩
  have hc : ∀ id, findById id (sweep s.comps) = findById id s.comps := findById_sweep
  have hi : ∀ id, findById id (sweep s.insts) = findById id s.insts := findById_sweep
  have hcomps : s.halSweep.toHal.comps = sweep s.comps := rfl
  have hinsts : s.halSweep.toHal.insts = sweep s.insts := rfl
  simp only [Hal.findOwningComp, hcomps, hinsts, hc, hi]

/-- Up to the wiring, a call of the group functions is nothing, or a call of the signal functions
or a sweep. -/
lemma groupCall_link (hk : (s.headers.map Prod.fst).Nodup) (hf : s.freshObj a.mem = true) :
    ∃ h', (h' = s.toHal ∨ ∃ b, linkOwnCell s.toHal b = true ∧ linkStep s.toHal b = some h') ∧
      SameWiring h' (groupCall s a).2.toHal := by
  by_cases hnew : ∃ mem name type, a = .signalNew mem name type
  · obtain ⟨mem, name, type, rfl⟩ := hnew
    exact ⟨_, .inr ⟨.signalNew mem name type, fresh_of_freshObj hf, rfl⟩, .refl _⟩
  by_cases hdel : ∃ name, a = .signalDelete name
  · obtain ⟨name, rfl⟩ := hdel
    exact ⟨_, .inr ⟨.signalDelete name, rfl, rfl⟩, .refl _⟩
  by_cases hsweep : a = .sweep
  · subst hsweep
    exact ⟨_, .inr ⟨.sweep, rfl, rfl⟩, sameWiring_halSweep⟩
  · refine ⟨s.toHal, .inl rfl, groupCall_wiring hk ?_ ?_ hsweep⟩
    · exact fun mem name type ha => hnew ⟨mem, name, type, ha⟩
    · exact fun name ha => hdel ⟨name, ha⟩

/-- A written value is none of the wiring's business. -/
lemma sameWiring_writeRef (ref : DataRef) (v : HalDataU) : SameWiring h (h.writeRef ref v) := by
  cases ref with
  | value sig =>
    exact ⟨rfl, wiring_modifyBody (F := fun g : Sig => { g with value := v }) sig fun _ => rfl,
      fun _ => rfl, rfl⟩
  | dummysig pin =>
    exact ⟨wiring_modifyBody (F := fun p : Pin => { p with dummysig := v }) pin fun _ => rfl, rfl,
      fun _ => rfl, rfl⟩

/-- A step is, up to the wiring, a call of the pin and signal functions, or nothing. -/
lemma wireStep_link {a : WireAct} (hk : (s.headers.map Prod.fst).Nodup)
    (hok : wireAlloc s a = true) (hs : wireStep s a = some s') :
    ∃ h', (h' = s.toHal ∨ ∃ b, linkAlloc s.toHal b = true ∧
        (wireOwnCell s a = true → linkOwnCell s.toHal b = true) ∧
        linkStep s.toHal b = some h') ∧ SameWiring h' s'.toHal := by
  cases a with
  | link a =>
    obtain ⟨h', hl, rfl⟩ := Option.map_eq_some_iff.mp hs
    refine ⟨h', .inr ⟨a, linkAlloc_of_freshObj hok, fun hown => ?_, hl⟩, .refl _⟩
    simp only [wireOwnCell, Bool.and_eq_true] at hown
    cases a <;> first | rfl | exact fresh_of_freshObj hok | skip
    exact Bool.and_eq_true_iff.mpr ⟨fresh_of_freshObj hok, hown.2⟩
  | group a =>
    rw [wireStep, groupStep] at hs
    split_ifs at hs with hf
    cases hs
    obtain ⟨h', hh, hw⟩ := groupCall_link (a := a) hk hf
    refine ⟨h', hh.imp_right ?_, hw⟩
    rintro ⟨b, hb, hl⟩
    refine ⟨b, ?_, fun _ => hb, hl⟩
    cases b <;> first | rfl | exact hb | exact (Bool.and_eq_true_iff.mp hb).1
  | write ref v =>
    cases hs
    exact ⟨s.toHal, .inl rfl, sameWiring_writeRef ref v⟩

/-- A step keeps the offsets distinct. -/
lemma keys_wireStep {a : WireAct} (hk : (s.headers.map Prod.fst).Nodup)
    (hok : wireAlloc s a = true) (hs : wireStep s a = some s') :
    (s'.headers.map Prod.fst).Nodup := by
  cases a with
  | link a =>
    obtain ⟨h', hl, rfl⟩ := Option.map_eq_some_iff.mp hs
    exact keys_linkStep hk hok hl
  | group a =>
    rw [wireStep, groupStep] at hs
    split_ifs at hs with hf
    cases hs
    exact keys_groupCall hk hf
  | write ref v =>
    cases hs
    have hsame := sameWiring_writeRef (h := s.toHal) ref v
    have hp := keys_of_wiring hsame.pins
    have hg := keys_of_wiring hsame.sigs
    have hoffs : SameOffs s.toHal (s.toHal.writeRef ref v) := by
      cases ref <;> exact ⟨rfl, rfl, rfl, rfl, hp, hg⟩
    exact hoffs.keys.symm ▸ hk

/-- Every step keeps the invariant. -/
lemma Wired.step {a : WireAct} (hw : Wired s) (hok : wireAlloc s a = true)
    (hs : wireStep s a = some s') : Wired s' := by
  refine ⟨keys_wireStep hw.keys hok hs, ?_⟩
  obtain ⟨h', rfl | ⟨b, hb, -, hl⟩, hsame⟩ := wireStep_link hw.keys hok hs
  · exact hw.linkage.sameWiring hsame.asV2
  · exact (Hal.linkage_asV2_step hw.linkage hb hl).sameWiring hsame.asV2

/-- The invariant holds in every state reached. -/
theorem wired_reach {s₀ : GroupHal} (h0 : s₀.Unwired)
    (hr : Reach wireStep (fun s a => wireAlloc s a = true) s₀ s) : Wired s :=
  hr.invariant (Wired.of_unwired h0) fun hw hok hs => hw.step hok hs

/-- If legacy pins have cells of their own, the linkage invariant holds with them. -/
theorem linkage_reach {s₀ : GroupHal} (h0 : s₀.Unwired)
    (hr : Reach wireStep (fun s a => wireOwnCell s a = true) s₀ s) : Linkage s.toHal := by
  have h : (s.headers.map Prod.fst).Nodup ∧ Linkage s.toHal := by
    refine hr.invariant (P := fun s => (s.headers.map Prod.fst).Nodup ∧ Linkage s.toHal)
      ⟨h0.keys, Linkage.of_unwired h0.unwired⟩ ?_
    rintro s a s' ⟨hk, hL⟩ hown hs
    have hok : wireAlloc s a = true := (Bool.and_eq_true_iff.mp hown).1
    refine ⟨keys_wireStep hk hok hs, ?_⟩
    obtain ⟨h', rfl | ⟨b, -, hb, hl⟩, hsame⟩ := wireStep_link hk hok hs
    · exact hL.sameWiring hsame
    · exact (hL.step (hb hown) hl).sameWiring hsame
  exact h.2

end MachinekitHal
