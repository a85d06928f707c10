import MachinekitHal.Lib.Refcount
import MachinekitHal.Lib.Runs
import MachinekitHal.Hal.GroupMembers
import MachinekitHal.Hal.Vtable

/-!
References to HAL objects.

The reference count of an object is a field of 7 bits in its header. The state is
extended with the references that are outstanding: those a caller holds (`hal_ref_group`,
`halg_reference_vtable`, `ho_incref`) and those members hold to their signals. The calls do
not read them.

* `RefHal`, `RefAct`, `refStep`: the state and the calls that take and give back references,
  and that free objects.
* `RefInv`: the counts are the numbers of references modulo 128.
* `refcount_protects`: as long as no object has 128 references, an object is freed only if
  there are no references to it; with 128 of them it is not protected.
* `refcount_protects_overflow`: a vtable is freed while 128 references to it are held.
-/

namespace MachinekitHal

open Store Runs Refcount

/-- The HAL with the references that are outstanding, by the offset of the object. -/
structure RefHal extends GroupHal where
  held : ℕ → ℕ
  memberRefs : ℕ → ℕ

/-- A call that takes or gives back a reference, or frees an object. A reference to a vtable
is given back by the holder of a reference to the vtable at `ref`. -/
inductive RefAct where
  | group (a : GroupAct)
  | exportVtable (mem : Option Alloc) (name : String) (version : ℤ) (vtref : ℕ)
      (compId context : ℤ)
  | removeVtable (vtableId : ℤ)
  | referenceVtable (name : String) (version context : ℤ)
  | unreferenceVtable (ref : ℕ) (context : ℤ)
  | incref (off : ℕ)
  | decref (off : ℕ)
  | free (off : ℕ)

/-- `halg_free_object`, by the header of the object. -/
def Halhdr.freeRc (hh : Halhdr) : Option Errno := if hh.refcnt ≠ 0 then some .EBUSY else none

namespace RefHal

variable (s : RefHal)

/-- The number of outstanding references to the object at each offset. -/
def outstanding (off : ℕ) : ℕ := s.held off + s.memberRefs off

/-- The references held by callers after a call on groups that returned `rc`. -/
def heldAfter (a : GroupAct) (rc : Option Errno) : ℕ → ℕ :=
  match a, rc with
  | .refGroup name, none =>
    match findByName name s.groups with
    | some group => take s.held group.off
    | none => s.held
  | .unrefGroup name, none =>
    match findByName name s.groups with
    | some group => give s.held group.off
    | none => s.held
  | _, _ => s.held

/-- The references held by members after a call on groups that returned `rc`. A member gives
its reference back when it is deleted. -/
def memberRefsAfter (a : GroupAct) (rc : Option Errno) : ℕ → ℕ :=
  match a, rc with
  | .memberNew _ _ member _ _, none =>
    match findByName member s.sigs with
    | some sig => take s.memberRefs sig.off
    | none => s.memberRefs
  | .memberDelete _ member, none =>
    match findByName member s.members with
    | some m => if m.hdr.refcnt = 0 then give s.memberRefs m.body.sigPtr else s.memberRefs
    | none => s.memberRefs
  | _, _ => s.memberRefs

/-- The caller of `hal_unref_group` holds a reference to the group. -/
def holds : GroupAct → Bool
  | .unrefGroup name => (findByName name s.groups).all fun group => 0 < s.held group.off
  | _ => true

/-- There is a valid object at `off`. -/
def validAt (off : ℕ) : Bool := s.headers.any fun p => p.1 == off && p.2.valid

/-- No object has a positive multiple of 128 references. -/
def exact : Bool :=
  s.headers.all fun p => !p.2.valid || s.outstanding p.1 % 128 != 0 || s.outstanding p.1 == 0

/-- `halg_free_object` on the object `hh` at `off` respects the references to it. -/
structure Protected (off : ℕ) (hh : Halhdr) : Prop where
  freed : hh.freeRc = none → s.outstanding off = 0
  busy : 0 < s.outstanding off →
    hh.freeRc = some .EBUSY ∧ (off, hh) ∈ (s.freeObject off).headers

/-- There are no references. -/
structure NoRefs : Prop where
  keys : (s.headers.map Prod.fst).Nodup
  members : s.members = []
  sigNames : NamesUnique s.sigs
  refcnt : ∀ p ∈ s.headers, p.2.valid = true → p.2.refcnt = 0
  outstanding : ∀ off, s.outstanding off = 0

end RefHal

/-- One call; none if the allocator would not return the memory, or if the caller does not
hold the reference it gives back. -/
def refStep (s : RefHal) : RefAct → Option RefHal
  | .group a =>
    if s.freshObj a.mem && s.holds a then
      some
        { toGroupHal := (groupCall s.toGroupHal a).2
          held := s.heldAfter a (groupCall s.toGroupHal a).1
          memberRefs := s.memberRefsAfter a (groupCall s.toGroupHal a).1 }
    else none
  | .exportVtable mem name version vtref compId context =>
    if s.freshObj mem then
      some { s with
        toGroupHal := (s.halgExportVtable mem name version vtref compId context).2 }
    else none
  | .removeVtable vtableId => some { s with toGroupHal := (s.halgRemoveVtable vtableId).2 }
  | .referenceVtable name version context =>
    match s.halgReferenceVtable name version context, s.findVtableByName name version with
    | (.ok _, t), some vt => some { s with toGroupHal := t, held := take s.held vt.off }
    | (_, t), _ => some { s with toGroupHal := t }
  | .unreferenceVtable ref context =>
    match at? Obj.off ref s.vtables with
    | none => none
    | some vt =>
      if vt.hdr.valid && decide (0 < s.held ref) then
        match s.halgUnreferenceVtable vt.hdr.id.toInt context with
        | (none, t) => some { s with toGroupHal := t, held := give s.held ref }
        | (some _, t) => some { s with toGroupHal := t }
      else none
  | .incref off =>
    if s.validAt off then
      some { s with toGroupHal := s.hoIncref off, held := take s.held off }
    else none
  | .decref off =>
    if 0 < s.held off then
      some { s with toGroupHal := s.hoDecref off, held := give s.held off }
    else none
  | .free off => some { s with toGroupHal := s.freeObject off }

/-- The call gives its references back to the objects they were taken of: a vtable still has
the id its reference came with, and a member that is deleted is not referenced itself. -/
def RefAct.designates (s : RefHal) : RefAct → Bool
  | .unreferenceVtable ref _ =>
    match at? Obj.off ref s.vtables with
    | some vt => (findById vt.hdr.id.toInt s.vtables).map Obj.off == some ref
    | none => true
  | .group (.memberDelete _ member) =>
    (findByName member s.members).all fun m => s.outstanding m.off == 0
  | _ => true

/-- The condition on a call: no object has reached 128 references, and the call gives its
references back to the right objects. -/
def refOk (s : RefHal) (a : RefAct) : Bool := s.exact && a.designates s

/-- The invariant: the counts are right modulo 128, and each member holds a reference. -/
structure RefInv (s : RefHal) : Prop where
  members : MembersOk s.toGroupHal
  counted : Counted Prod.fst (fun p => p.2.refcnt) (fun p => p.2.valid) s.headers s.outstanding
  memberRefs : ∀ m ∈ s.members, m.hdr.valid = true → 0 < s.memberRefs m.body.sigPtr

variable {s s' s₀ : RefHal}

/-! ### Counted headers -/

/-- The headers are counted. -/
abbrev HeadersCounted (s : GroupHal) (n : ℕ → ℕ) : Prop :=
  Counted Prod.fst (fun p => p.2.refcnt) (fun p => p.2.valid) s.headers n

namespace HeadersCounted

variable {g : GroupHal} {n : ℕ → ℕ} {off : ℕ}

lemma hoIncref (h : HeadersCounted g n) (hv : ∃ p ∈ g.headers, p.1 = off ∧ p.2.valid = true) :
    HeadersCounted (g.hoIncref off) (take n off) := by
  rw [HeadersCounted, GroupHal.headers_hoIncref]
  exact h.take hv (fun _ => rfl) (fun _ => rfl) fun _ => rfl

lemma hoDecref (h : HeadersCounted g n) (hn : 0 < n off) :
    HeadersCounted (g.hoDecref off) (give n off) := by
  rw [HeadersCounted, GroupHal.headers_hoDecref]
  exact h.give hn (fun _ => rfl) (fun _ => rfl) fun _ => rfl

lemma freeObject (h : HeadersCounted g n) (hn : n off % 128 = 0 → n off = 0) :
    HeadersCounted (g.freeObject off) n := by
  rw [HeadersCounted, GroupHal.headers_freeObject]
  refine h.release hn (fun _ => rfl) (fun p hp => ?_) fun p hp => ?_
  · rw [Halhdr.release, if_pos hp]
  · rw [Halhdr.release, if_neg (by simp [hp])]
    rfl

lemma freeAll {offs : List ℕ} (h : HeadersCounted g n)
    (hn : ∀ off, n off % 128 = 0 → n off = 0) : HeadersCounted (g.freeAll offs) n := by
  induction offs generalizing g with
  | nil => exact h
  | cons off offs ih => exact ih (h.freeObject (hn off))

lemma halSweep (h : HeadersCounted g n) : HeadersCounted g.halSweep n := by
  rw [HeadersCounted, GroupHal.headers_halSweep]
  exact h.sweep

end HeadersCounted

/-! ### Outstanding references -/

/-- With at most 127 references to every valid object there are as many to any offset. -/
lemma RefInv.exact_iff (h : RefInv s) (hex : s.exact = true) (off : ℕ) :
    s.outstanding off % 128 = 0 → s.outstanding off = 0 := by
  intro hm
  by_contra hne
  obtain ⟨p, hp, rfl, hv⟩ := h.counted.live off (Nat.pos_of_ne_zero hne)
  have hp' := List.all_eq_true.1 hex p hp
  simp [hv, hm, hne] at hp'

lemma outstanding_take (off : ℕ) :
    (fun k => take s.held off k + s.memberRefs k) = take s.outstanding off := by
  funext k
  by_cases hk : k = off
  · subst hk
    simp only [take_self, RefHal.outstanding]
    omega
  · simp only [take_of_ne hk, RefHal.outstanding]

lemma outstanding_give {off : ℕ} (h : 0 < s.held off) :
    (fun k => give s.held off k + s.memberRefs k) = give s.outstanding off := by
  funext k
  by_cases hk : k = off
  · subst hk
    simp only [give_self, RefHal.outstanding]
    omega
  · simp only [give_of_ne hk, RefHal.outstanding]

lemma outstanding_takeMember (off : ℕ) :
    (fun k => s.held k + take s.memberRefs off k) = take s.outstanding off := by
  funext k
  by_cases hk : k = off
  · subst hk
    simp only [take_self, RefHal.outstanding]
    omega
  · simp only [take_of_ne hk, RefHal.outstanding]

lemma outstanding_giveMember {off : ℕ} (h : 0 < s.memberRefs off) :
    (fun k => s.held k + give s.memberRefs off k) = give s.outstanding off := by
  funext k
  by_cases hk : k = off
  · subst hk
    simp only [give_self, RefHal.outstanding]
    omega
  · simp only [give_of_ne hk, RefHal.outstanding]

/-- A call that fails, or that is about no reference, leaves the references alone. -/
lemma heldAfter_quiet {a : GroupAct} {rc : Option Errno} (h : a.quiet = true ∨ rc.isSome = true) :
    s.heldAfter a rc = s.held ∧ s.memberRefsAfter a rc = s.memberRefs := by
  rcases h with h | h
  · cases a <;> simp_all [GroupAct.quiet, RefHal.heldAfter, RefHal.memberRefsAfter]
  · obtain ⟨e, rfl⟩ := Option.isSome_iff_exists.1 h
    cases a <;> exact ⟨rfl, rfl⟩

/-! ### What a call keeps -/

namespace RefInv

/-- A signal that is not referenced has no members. -/
lemma safeAt (h : RefInv s) (hex : s.exact = true) (off : ℕ) : SafeAt s.toGroupHal off := by
  rintro g hg hgv rfl hr m hm hv hptr
  have hzero : s.held g.off + s.memberRefs g.off = 0 :=
    (h.counted.zero_iff (s.mem_headers_sigs hg) hgv).2 (h.exact_iff hex g.off) hr
  have hpos := h.memberRefs m hm hv
  rw [hptr] at hpos
  omega

/-- A call that changes no reference keeps the invariant if it keeps the counts and adds no
member. -/
lemma of_quiet (h : RefInv s) {t : GroupHal} (hm : MembersOk t)
    (hc : HeadersCounted t s.outstanding)
    (hsub : ∀ m ∈ t.members, m.hdr.valid = true → m ∈ s.members) :
    RefInv { s with toGroupHal := t } :=
  ⟨hm, hc, fun m hmm hv => h.memberRefs m (hsub m hmm hv) hv⟩

/-- Taking a reference for a caller. -/
lemma take (h : RefInv s) {off : ℕ} (hv : ∃ p ∈ s.headers, p.1 = off ∧ p.2.valid = true) :
    RefInv { s with toGroupHal := s.hoIncref off, held := Refcount.take s.held off } := by
  refine ⟨h.members.hoIncref off, ?_, ?_⟩
  · have hc := HeadersCounted.hoIncref h.counted hv
    rwa [← outstanding_take] at hc
  · refine forall_modify (fun m hm _ => h.memberRefs m hm) fun m hm _ => h.memberRefs m hm

/-- Giving back a reference of a caller. -/
lemma give (h : RefInv s) {off : ℕ} (hh : 0 < s.held off) :
    RefInv { s with toGroupHal := s.hoDecref off, held := Refcount.give s.held off } := by
  refine ⟨h.members.hoDecref off, ?_, ?_⟩
  · have hpos : 0 < s.outstanding off := by
      rw [RefHal.outstanding]
      omega
    have hc := HeadersCounted.hoDecref h.counted hpos
    rwa [← outstanding_give hh] at hc
  · refine forall_modify (fun m hm _ => h.memberRefs m hm) fun m hm _ => h.memberRefs m hm

/-- `halg_free_object` on any object. -/
lemma freeObject (h : RefInv s) (hex : s.exact = true) (off : ℕ) :
    RefInv { s with toGroupHal := s.freeObject off } :=
  h.of_quiet (h.members.freeObject (h.safeAt hex off))
    (HeadersCounted.freeObject h.counted (h.exact_iff hex off)) fun _ hm hv => mem_of_mem_free hm hv

/-- The new member of `halg_member_new`. -/
lemma newMember (h : RefInv s) {new : Obj Member} {sig : Obj Sig}
    (hoff : new.off ∉ s.headers.map Prod.fst) (hnew : new.hdr.New)
    (hsig : findByName new.hdr.name s.sigs = some sig) (hptr : new.body.sigPtr = sig.off)
    (hn : findByName new.hdr.name s.members = none) :
    RefInv
      { s with
        toGroupHal :=
          { s.hoIncref sig.off with members := addObject new (s.hoIncref sig.off).members }
        memberRefs := Refcount.take s.memberRefs sig.off } := by
  obtain ⟨hs, hv⟩ := findByName_mem hsig
  refine ⟨h.members.newMember hoff hsig hptr hn, ?_, ?_⟩
  · have hc := HeadersCounted.hoIncref h.counted ⟨_, s.mem_headers_sigs hs, rfl, hv⟩
    have hins := hc.insert (headers_addMember new) (by rwa [keys_hoIncref]) hnew.refcnt
    rwa [← outstanding_takeMember] at hins
  · have hmem : (s.hoIncref sig.off).members = s.members :=
      h.members.members_hoIncref (List.mem_map_of_mem hs)
    intro m hm hmv
    rcases mem_addObject.1 hm with rfl | hm
    · have hpos : 0 < Refcount.take s.memberRefs sig.off m.body.sigPtr := by
        rw [hptr, take_self]
        omega
      exact hpos
    · exact (h.memberRefs m (hmem ▸ hm) hmv).trans_le (le_take _ _ _)

/-- The deletion of a member that is not referenced itself. -/
lemma dropMember (h : RefInv s) {name : String} {mptr : Obj Member} {sig : Obj Sig}
    (hmptr : findByName name s.members = some mptr) (hsig : findByName name s.sigs = some sig)
    (hzero : s.outstanding mptr.off = 0)
    (h' : MembersOk ((s.hoDecref sig.off).freeObject mptr.off)) :
    RefInv
      { s with
        toGroupHal := (s.hoDecref sig.off).freeObject mptr.off
        memberRefs := Refcount.give s.memberRefs mptr.body.sigPtr } := by
  obtain ⟨hm, hmv⟩ := findByName_mem hmptr
  obtain ⟨hs, hv⟩ := findByName_mem hsig
  have hptr : sig.off = mptr.body.sigPtr := h.members.find_sig hmptr hsig
  have hpos : 0 < s.memberRefs mptr.body.sigPtr := h.memberRefs mptr hm hmv
  have hne : mptr.off ≠ sig.off := fun ho =>
    h.members.member_not_sig hm (ho ▸ List.mem_map_of_mem hs)
  refine ⟨h', ?_, ?_⟩
  · have hout : 0 < s.outstanding sig.off := by
      rw [RefHal.outstanding, hptr]
      omega
    have hc := HeadersCounted.hoDecref h.counted hout
    have hfree : HeadersCounted ((s.hoDecref sig.off).freeObject mptr.off) _ :=
      hc.freeObject (by rw [give_of_ne hne, hzero]; exact fun _ => rfl)
    rw [hptr, ← outstanding_giveMember hpos, ← hptr] at hfree
    rw [← hptr]
    exact hfree
  · have hmem : (s.hoDecref sig.off).members = s.members :=
      h.members.members_hoDecref (List.mem_map_of_mem hs)
    have hr : mptr.hdr.refcnt = 0 := by
      have hcount := h.counted.count _ (s.mem_headers_members hm) hmv
      simp only [hzero] at hcount
      exact hcount
    intro m hmm hmmv
    have hms : m ∈ s.members := hmem ▸ mem_of_mem_free hmm hmmv
    have hk : m.body.sigPtr ≠ mptr.body.sigPtr := by
      intro he
      obtain ⟨g, hg, -, hgo, hgn⟩ := h.members.linked m hms hmmv
      obtain ⟨g', hg', -, hgo', hgn'⟩ := h.members.linked mptr hm hmv
      have hgg : g = g' := eq_of_key h.members.apart.sigs hg hg' (by rw [hgo, hgo', he])
      have hmm' : m = mptr :=
        h.members.memberNames m hms mptr hm hmmv hmv (by rw [← hgn, ← hgn', hgg])
      exact not_mem_free hmv hr (hmm' ▸ hmm)
    have hpos' : 0 < Refcount.give s.memberRefs mptr.body.sigPtr m.body.sigPtr := by
      rw [give_of_ne hk]
      exact h.memberRefs m hms hmmv
    exact hpos'

/-- A call on groups that neither takes nor gives back a reference. -/
lemma quiet (h : RefInv s) (hex : s.exact = true) {a : GroupAct} (hf : s.freshObj a.mem = true)
    {rc : Option Errno} {t : GroupHal} (hq : a.quiet = true ∨ rc.isSome = true)
    (hc : GroupChange s.toGroupHal a rc t) : RefInv { s with toGroupHal := t } := by
  have hm := h.members.change hf (h.safeAt hex) hc
  cases hc with
  | same _ hs =>
    refine h.of_quiet hm ?_ fun m hmm _ => hs.members ▸ hmm
    rw [HeadersCounted, hs.headers]
    exact h.counted
  | newSig _ m new hma hoff hnew _ _ he =>
    subst he
    exact h.of_quiet hm (h.counted.insert (headers_addSig new)
      (GroupHal.not_mem_of_freshObj hf hma hoff) hnew.refcnt)
      fun _ hmm _ => hmm
  | newGroup _ m new hma hoff hnew he =>
    subst he
    exact h.of_quiet hm (h.counted.insert (headers_addGroup new)
      (GroupHal.not_mem_of_freshObj hf hma hoff) hnew.refcnt)
      fun _ hmm _ => hmm
  | freeSig _ t sig ht hsig he =>
    have hts : headersOf t.sigs = headersOf s.sigs := ht.objs.sigs
    have ho : sig.off ∈ t.sigs.map Obj.off := by
      have hmem : (sig.off, sig.hdr) ∈ headersOf t.sigs := hts ▸ mem_headersOf hsig
      obtain ⟨g, hg, hge⟩ := List.mem_map.1 hmem
      exact List.mem_map.2 ⟨g, hg, (Prod.mk.inj hge).1⟩
    have hct : HeadersCounted t s.outstanding := by
      rw [HeadersCounted, ht.headers]
      exact h.counted
    rw [freeSig_eq (h.members.same ht).keys ho] at he
    subst he
    exact h.of_quiet hm (hct.freeObject (h.exact_iff hex sig.off))
      fun m hmm hv => ht.members ▸ mem_of_mem_free hmm hv
  | free _ offs _ he =>
    subst he
    exact h.of_quiet hm (HeadersCounted.freeAll h.counted (h.exact_iff hex))
      fun _ hmm hv => mem_freeAll_members hmm hv
  | sweep _ he =>
    subst he
    exact h.of_quiet hm (HeadersCounted.halSweep h.counted) fun _ hmm _ => (mem_sweep.1 hmm).1
  | newMember _ _ _ _ _ _ ha hrc =>
    rw [ha, hrc] at hq
    simp [GroupAct.quiet] at hq
  | dropMember _ _ _ _ ha hrc =>
    rw [ha, hrc] at hq
    simp [GroupAct.quiet] at hq
  | refGroup _ _ ha hrc =>
    rw [ha, hrc] at hq
    simp [GroupAct.quiet] at hq
  | unrefGroup _ _ ha hrc =>
    rw [ha, hrc] at hq
    simp [GroupAct.quiet] at hq

/-- A call on groups keeps the invariant. -/
lemma group (h : RefInv s) (hex : s.exact = true) {a : GroupAct}
    (hdes : (RefAct.group a).designates s = true) (hf : s.freshObj a.mem = true)
    (hh : s.holds a = true) {rc : Option Errno} {t : GroupHal}
    (hc : GroupChange s.toGroupHal a rc t) :
    RefInv { toGroupHal := t, held := s.heldAfter a rc, memberRefs := s.memberRefsAfter a rc } := by
  by_cases hq : a.quiet = true ∨ rc.isSome = true
  · rw [(heldAfter_quiet hq).1, (heldAfter_quiet hq).2]
    exact h.quiet hex hf hq hc
  have hm := h.members.change hf (h.safeAt hex) hc
  cases hc with
  | newMember m new sig grp arg1 epsIndex ha hrc hoff hnew hsig hptr hn he =>
    have hfresh := GroupHal.not_mem_of_freshObj hf (by rw [ha]; rfl) hoff
    subst ha hrc he
    simp only [RefHal.heldAfter, RefHal.memberRefsAfter, hsig]
    exact h.newMember hfresh hnew hsig hptr hn
  | dropMember grp name mptr sig ha hrc hmptr hsig he =>
    subst ha hrc he
    simp only [RefAct.designates, hmptr, Option.all_some, beq_iff_eq] at hdes
    have hr : mptr.hdr.refcnt = 0 := by
      obtain ⟨hmm, hmv⟩ := findByName_mem hmptr
      have hcount := h.counted.count _ (s.mem_headers_members hmm) hmv
      simp only [hdes] at hcount
      exact hcount
    simp only [RefHal.heldAfter, RefHal.memberRefsAfter, hmptr, if_pos hr]
    exact h.dropMember hmptr hsig hdes hm
  | refGroup name grp ha hrc hgrp he =>
    subst ha hrc he
    obtain ⟨hg, hv⟩ := findByName_mem hgrp
    simp only [RefHal.heldAfter, RefHal.memberRefsAfter, hgrp]
    exact h.take ⟨_, s.mem_headers_groups hg, rfl, hv⟩
  | unrefGroup name grp ha hrc hgrp he =>
    subst ha hrc he
    simp only [RefHal.holds, hgrp, Option.all_some, decide_eq_true_eq] at hh
    simp only [RefHal.heldAfter, RefHal.memberRefsAfter, hgrp]
    exact h.give hh
  | same hrc => exact absurd (.inr hrc) hq
  | newSig ha => exact absurd (.inl ha) hq
  | newGroup ha => exact absurd (.inl ha) hq
  | freeSig ha => exact absurd (.inl ha) hq
  | free ha => exact absurd (.inl ha) hq
  | sweep ha => exact absurd (.inl ha) hq

/-- The new vtable of `halg_export_vtable`. -/
lemma exportVtable (h : RefInv s) {mem : Option Alloc} (hf : s.freshObj mem = true)
    (name : String) (version : ℤ) (vtref : ℕ) (compId context : ℤ) :
    RefInv { s with
      toGroupHal := (s.halgExportVtable mem name version vtref compId context).2 } := by
  have hid : RefInv { s with toGroupHal := s.toGroupHal } := h
  rw [GroupHal.halgExportVtable]
  split_ifs with hlen
  · exact hid
  · exact hid
  · exact hid
  · exact hid
  · split
    · exact hid
    · next vt hvt =>
        obtain ⟨m, rfl, hoff, hnew, -, -⟩ := halgCreateObject_new hlen hvt
        have hfresh := GroupHal.not_mem_of_freshObj hf rfl hoff
        exact h.of_quiet (h.members.addVtable hfresh)
          (h.counted.insert (headers_addVtable vt) hfresh hnew.refcnt) fun _ hmm _ => hmm

lemma removeVtable (h : RefInv s) (hex : s.exact = true) (vtableId : ℤ) :
    RefInv { s with toGroupHal := (s.halgRemoveVtable vtableId).2 } := by
  have hid : RefInv { s with toGroupHal := s.toGroupHal } := h
  rw [GroupHal.halgRemoveVtable]
  split_ifs
  · exact hid
  · split
    · exact hid
    · next vt _ =>
        split_ifs
        · exact hid
        · exact h.freeObject hex vt.off

lemma referenceVtable (h : RefInv s) {name : String} {version context : ℤ}
    (hs : refStep s (.referenceVtable name version context) = some s') : RefInv s' := by
  have hid : RefInv { s with toGroupHal := s.toGroupHal } := h
  rw [refStep, GroupHal.halgReferenceVtable] at hs
  split_ifs at hs
  · exact Option.some.inj hs ▸ hid
  · exact Option.some.inj hs ▸ hid
  · cases hvt : s.findVtableByName name version with
    | none =>
      rw [hvt] at hs
      exact Option.some.inj hs ▸ hid
    | some vt =>
      rw [hvt] at hs
      have hmem : vt ∈ s.vtables := List.mem_of_find?_eq_some hvt
      have hv : vt.hdr.valid = true := by
        have hp := List.find?_some hvt
        simp only [Bool.and_eq_true] at hp
        exact hp.1.1
      by_cases hctx : vt.body.context ≠ context
      · simp only [if_pos hctx, Option.some.injEq] at hs
        exact hs ▸ hid
      · simp only [if_neg hctx, Option.some.injEq] at hs
        exact hs ▸ h.take ⟨_, s.mem_headers_vtables hmem, rfl, hv⟩

/-- `halg_unreference_vtable`, by an id that designates the vtable. -/
lemma unreferenceVtable (h : RefInv s) {ref : ℕ} {context : ℤ}
    (hdes : (RefAct.unreferenceVtable ref context).designates s = true)
    (hs : refStep s (.unreferenceVtable ref context) = some s') : RefInv s' := by
  have hid : RefInv { s with toGroupHal := s.toGroupHal } := h
  cases hat : at? Obj.off ref s.vtables with
  | none => simp [refStep, hat] at hs
  | some vt =>
    simp only [RefAct.designates, hat, beq_iff_eq, Option.map_eq_some_iff] at hdes
    obtain ⟨vt', hfind, hoff⟩ := hdes
    simp only [refStep, hat, GroupHal.halgUnreferenceVtable, hfind] at hs
    split_ifs at hs with hheld hctx
    · exact Option.some.inj hs ▸ hid
    · simp only [Bool.and_eq_true, decide_eq_true_eq] at hheld
      rw [hoff] at hs
      exact Option.some.inj hs ▸ h.give hheld.2

/-- **The step lemma.** A call that meets the condition keeps the invariant. -/
lemma step {a : RefAct} (h : RefInv s) (hok : refOk s a = true) (hs : refStep s a = some s') :
    RefInv s' := by
  obtain ⟨hex, hdes⟩ := Bool.and_eq_true_iff.1 hok
  cases a with
  | group a =>
    rw [refStep] at hs
    split_ifs at hs with hf
    obtain ⟨hf, hh⟩ := Bool.and_eq_true_iff.1 hf
    exact Option.some.inj hs ▸ h.group hex hdes hf hh (groupCall_change h.members.keys a)
  | exportVtable mem name version vtref compId context =>
    rw [refStep] at hs
    split_ifs at hs with hf
    exact Option.some.inj hs ▸ h.exportVtable hf name version vtref compId context
  | removeVtable vtableId => exact Option.some.inj hs ▸ h.removeVtable hex vtableId
  | referenceVtable name version context => exact h.referenceVtable hs
  | unreferenceVtable ref context => exact h.unreferenceVtable hdes hs
  | incref off =>
    rw [refStep] at hs
    split_ifs at hs with hv
    obtain ⟨p, hp, hpv⟩ := List.any_eq_true.1 hv
    simp only [Bool.and_eq_true, beq_iff_eq] at hpv
    exact Option.some.inj hs ▸ h.take ⟨p, hp, hpv⟩
  | decref off =>
    rw [refStep] at hs
    split_ifs at hs with hh
    exact Option.some.inj hs ▸ h.give hh
  | free off => exact Option.some.inj hs ▸ h.freeObject hex off

end RefInv

/-! ### Protection -/

lemma RefInv.of_noRefs (h0 : s₀.NoRefs) : RefInv s₀ := by
  refine ⟨⟨h0.keys, h0.sigNames, ?_, ?_⟩, ⟨h0.keys, ?_, ?_⟩, ?_⟩
  · simp [NamesUnique, h0.members]
  · simp [h0.members]
  · intro p hp hv
    rw [h0.refcnt p hp hv, h0.outstanding]
    rfl
  · intro off ho
    rw [h0.outstanding] at ho
    omega
  · simp [h0.members]

/-- An object is protected by its references exactly if their number is not a positive
multiple of 128. -/
lemma RefInv.protected_iff (h : RefInv s) {off : ℕ} {hh : Halhdr} (hp : (off, hh) ∈ s.headers)
    (hv : hh.valid = true) :
    s.Protected off hh ↔ (s.outstanding off % 128 = 0 → s.outstanding off = 0) := by
  have hz : (hh.refcnt = 0 → s.outstanding off = 0) ↔
      (s.outstanding off % 128 = 0 → s.outstanding off = 0) := h.counted.zero_iff hp hv
  rw [← hz]
  constructor
  · intro hprot hr
    exact hprot.freed (by rw [Halhdr.freeRc, if_neg (by simp [hr])])
  · intro himp
    refine ⟨fun hfree => himp ?_, fun hpos => ?_⟩
    · by_contra hne
      rw [Halhdr.freeRc, if_pos hne] at hfree
      exact absurd hfree (by simp)
    · have hne : hh.refcnt ≠ 0 := fun hr => by
        have hzero := himp hr
        omega
      refine ⟨by rw [Halhdr.freeRc, if_pos hne], ?_⟩
      rw [GroupHal.headers_freeObject]
      refine mem_modify.2 ⟨(off, hh), hp, ?_⟩
      rw [if_pos rfl, Halhdr.release, if_pos hne]

/-- **Reference counts protect objects** as long as no object has reached 128 references and
references are given back to the objects they were taken of: in every state of such a run
all references are to valid objects, and freeing an object fails if and as long as there are
references to it, exactly unless their number is a positive multiple of 128. -/
theorem refcount_protects (h0 : s₀.NoRefs)
    (hr : Reach refStep (fun s a => refOk s a = true) s₀ s) :
    (∀ off, 0 < s.outstanding off → ∃ hh, (off, hh) ∈ s.headers ∧ hh.valid = true) ∧
    ∀ off hh, (off, hh) ∈ s.headers → hh.valid = true →
      (s.Protected off hh ↔ (s.outstanding off % 128 = 0 → s.outstanding off = 0)) := by
  have h : RefInv s := hr.invariant (RefInv.of_noRefs h0) fun h hok hs => h.step hok hs
  refine ⟨fun off ho => ?_, fun off hh hp hv => h.protected_iff hp hv⟩
  obtain ⟨⟨_, hh⟩, hp, rfl, hv⟩ := h.counted.live off ho
  exact ⟨hh, hp, hv⟩

/-- A HAL without objects and references. -/
def emptyRefHal : RefHal :=
  { lock := 0, halSize := 4096, comps := [], insts := [], pins := [], sigs := [], functs := []
    threads := [], functEntryFree := [], cells := fun _ => none, groups := [], members := []
    vtables := [], held := fun _ => 0, memberRefs := fun _ => 0 }

lemma emptyRefHal_noRefs : emptyRefHal.NoRefs := by
  refine ⟨?_, rfl, ?_, ?_, fun _ => rfl⟩ <;>
    simp [emptyRefHal, GroupHal.headers, headersOf, NamesUnique]

/-- A signal is a member of a group, and a vtable is referenced; neither can be freed. -/
def twoRefs : List RefAct :=
  [.group (.signalNew (some ⟨64, 1⟩) "sig" .halBit), .group (.groupNew (some ⟨128, 2⟩) "grp" 0 0),
    .group (.memberNew (some ⟨192, 3⟩) "grp" "sig" 0 0), .group (.signalDelete "sig"),
    .exportVtable (some ⟨256, 4⟩) "vt" 1 8192 0 0, .referenceVtable "vt" 1 0, .free 256,
    .group (.memberDelete "grp" "sig"), .group (.signalDelete "sig")]

/-- The member is gone, the reference is not. -/
theorem refcount_protects_twoRefs : ∃ s, run refStep refOk emptyRefHal twoRefs = some s ∧
    ((s.sigs.map fun g => g.hdr.valid), (s.vtables.map fun v => v.hdr.valid)) = ([false], [true]) ∧
    ∀ off, 0 < s.outstanding off → ∃ hh, (off, hh) ∈ s.headers ∧ hh.valid = true := by
  have hs : (run refStep refOk emptyRefHal twoRefs).map
      (fun s => (s.sigs.map fun g => g.hdr.valid, s.vtables.map fun v => v.hdr.valid))
      = some ([false], [true]) := by decide
  obtain ⟨s, hs, hv, hr⟩ := run_map hs
  exact ⟨s, hs, hv, (refcount_protects emptyRefHal_noRefs hr).1⟩

/-- A vtable is referenced 128 times. -/
def manyRefs : List RefAct :=
  .exportVtable (some ⟨64, 1⟩) "vt" 1 8192 0 0 :: List.replicate 128 (.referenceVtable "vt" 1 0)

/-- The count of 128 references is zero: the vtable can be freed while they are held. -/
theorem refcount_protects_overflow : ¬ ∀ s₀ s : RefHal, s₀.NoRefs →
    Reach refStep (fun _ _ => true = true) s₀ s →
      ∀ off hh, (off, hh) ∈ s.headers → hh.valid = true → s.Protected off hh := by
  intro hall
  have hs : (run refStep (fun _ _ => true) emptyRefHal manyRefs).map
      (fun s => (s.headers.head?.map fun p => (p.1, p.2.valid, p.2.refcnt), s.outstanding 64))
      = some (some (64, true, 0), 128) := by decide +kernel
  obtain ⟨s, -, hv, hreach⟩ := run_map hs
  obtain ⟨hhead, hout⟩ := Prod.mk.inj hv
  obtain ⟨⟨off, hh⟩, hp, hpv⟩ := Option.map_eq_some_iff.mp hhead
  simp only [Prod.mk.injEq] at hpv
  obtain ⟨rfl, hval, hr⟩ := hpv
  have hprot := hall _ s emptyRefHal_noRefs hreach _ hh (List.mem_of_head? hp) hval
  have hzero := hprot.freed (by rw [Halhdr.freeRc, hr, if_neg (by simp)])
  rw [hout] at hzero
  exact absurd hzero (by decide)

end MachinekitHal
