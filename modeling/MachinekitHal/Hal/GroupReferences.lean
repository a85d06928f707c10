import MachinekitHal.Lib.Runs
import MachinekitHal.Hal.GroupMembers

/-!
The references of group members to signals.

* `MemberRefs`: the reference count of a signal is the number of members that refer to
  it, which is at most one.
* `group_references`: this holds in every state as long as no group is deleted while it
  owns members; the signal can then be deleted once no member refers to it.
* `group_references_groupDelete`: deleting a group frees its members, but does not give
  back their references.
-/

namespace MachinekitHal

open Store Runs

variable {s s' s₀ : GroupHal}

/-- The number of valid members that refer to the signal at `off`. -/
def memberCount (members : List (Obj Member)) (off : ℕ) : ℕ :=
  members.countP fun m => m.hdr.valid && m.body.sigPtr == off

/-- The invariant behind the reference counts of signals. -/
structure MemberRefs (s : GroupHal) : Prop extends MembersOk s where
  short : ∀ g ∈ s.sigs, g.hdr.valid = true → ¬ halNameLen < g.hdr.name.length
  unreferenced : ∀ m ∈ s.members, m.hdr.valid = true → m.hdr.refcnt = 0
  count : ∀ g ∈ s.sigs, g.hdr.valid = true →
    g.hdr.refcnt = BitVec.ofNat 7 (memberCount s.members g.off)

/-- What group reference accounting promises about a state: the reference count of a valid
signal is the number of members that refer to it, and without members it can be deleted. -/
structure GroupRefs (s : GroupHal) : Prop where
  count : ∀ sig ∈ s.sigs, sig.hdr.valid = true →
    sig.hdr.refcnt.toInt = memberCount s.members sig.off
  deletable : ∀ sig ∈ s.sigs, sig.hdr.valid = true → memberCount s.members sig.off = 0 →
    s.locked halLockConfig = false →
      (s.signalDelete sig.hdr.name).1 = none ∧
        findByName sig.hdr.name (s.signalDelete sig.hdr.name).2.sigs = none

/-- The state before there are members. -/
structure GroupHal.NoMembers (s : GroupHal) : Prop where
  keys : (s.headers.map Prod.fst).Nodup
  members : s.members = []
  sigNames : NamesUnique s.sigs
  short : ∀ g ∈ s.sigs, g.hdr.valid = true → ¬ halNameLen < g.hdr.name.length
  refcnt : ∀ g ∈ s.sigs, g.hdr.valid = true → g.hdr.refcnt = 0

/-- No deletion of a group takes a valid member with it. -/
def groupOk (s : GroupHal) (a : GroupAct) : Bool :=
  s.members.all fun m => !(m.hdr.valid && a.frees s m)

/-! ### Counting members -/

/-- A signal has at most one member, which bears its name. -/
lemma MembersOk.memberCount_le_one (h : MembersOk s) (off : ℕ) :
    memberCount s.members off ≤ 1 := by
  refine countP_le_one h.apart.members fun m hm m' hm' hp hp' => ?_
  simp only [Bool.and_eq_true, beq_iff_eq] at hp hp'
  obtain ⟨g, hg, -, hgo, hgn⟩ := h.linked m hm hp.1
  obtain ⟨g', hg', -, hgo', hgn'⟩ := h.linked m' hm' hp'.1
  have heq : g = g' := eq_of_key h.apart.sigs hg hg' (by rw [hgo, hgo', hp.2, hp'.2])
  exact h.memberNames m hm m' hm' hp.1 hp'.1 (by rw [← hgn, ← hgn', heq])

/-- Without members of its name a signal has no members. -/
lemma MembersOk.memberCount_eq_zero (h : MembersOk s) {g : Obj Sig} (hg : g ∈ s.sigs)
    (hn : findByName g.hdr.name s.members = none) : memberCount s.members g.off = 0 := by
  refine List.countP_eq_zero.2 fun m hm hp => ?_
  simp only [Bool.and_eq_true, beq_iff_eq] at hp
  obtain ⟨g', hg', -, hgo', hgn'⟩ := h.linked m hm hp.1
  have heq : g' = g := eq_of_key h.apart.sigs hg' hg (by rw [hgo', hp.2])
  exact findByName_none hn m hm hp.1 (by rw [← hgn', heq])

/-- No member refers to an offset where there is no signal. -/
lemma MembersOk.memberCount_fresh (h : MembersOk s) {off : ℕ} (ho : off ∉ s.sigs.map Obj.off) :
    memberCount s.members off = 0 := by
  refine List.countP_eq_zero.2 fun m hm hp => ?_
  simp only [Bool.and_eq_true, beq_iff_eq] at hp
  obtain ⟨g, hg, -, hgo, -⟩ := h.linked m hm hp.1
  exact ho (hp.2 ▸ hgo ▸ List.mem_map_of_mem hg)

lemma memberCount_addObject {new : Obj Member} {l : List (Obj Member)}
    (hv : new.hdr.valid = true) (off : ℕ) :
    memberCount (addObject new l) off
      = memberCount l off + if new.body.sigPtr = off then 1 else 0 := by
  rw [memberCount, (addObject_perm new l).countP_eq, List.countP_cons, memberCount]
  simp [hv]

lemma memberCount_sweep (l : List (Obj Member)) (off : ℕ) :
    memberCount (sweep l) off = memberCount l off := by
  rw [memberCount, sweep, List.countP_filter, memberCount]
  refine List.countP_congr fun m _ => ?_
  simp [and_comm]

/-- A freed member is not counted any more. -/
lemma memberCount_free {l : List (Obj Member)} {m : Obj Member} (hnd : (l.map Obj.off).Nodup)
    (hm : m ∈ l) (hv : m.hdr.valid = true) (hr : m.hdr.refcnt = 0) (off : ℕ) :
    memberCount (halgFreeObject m.off l) off + (if m.body.sigPtr = off then 1 else 0)
      = memberCount l off := by
  have hc := countP_modify (f := Obj.release)
    (p := fun m => m.hdr.valid && m.body.sigPtr == off) hnd hm rfl
  simpa [hv, Obj.release_valid hr, memberCount, halgFreeObject] using hc

/-! ### What a call keeps -/

namespace MemberRefs

/-- A signal that is not referenced has no members. -/
lemma safeAt (h : MemberRefs s) (off : ℕ) : SafeAt s off := by
  rintro g hg hgv rfl hr m hm hv hptr
  have hle := h.memberCount_le_one g.off
  have hpos : 0 < memberCount s.members g.off :=
    List.countP_pos_iff.2 ⟨m, hm, by simp [hv, hptr]⟩
  have hone : memberCount s.members g.off = 1 := by omega
  have hc := h.count g hg hgv
  rw [hr, hone] at hc
  exact absurd hc (by decide)

/-- The same members and the same signals, as far as they are valid. -/
lemma of_subset (h : MemberRefs s) (h' : MembersOk s')
    (hs : ∀ g ∈ s'.sigs, g.hdr.valid = true → ∃ g' ∈ s.sigs, g'.off = g.off ∧ g'.hdr = g.hdr)
    (hm : ∀ m ∈ s'.members, m.hdr.valid = true → m ∈ s.members)
    (hc : ∀ off, memberCount s'.members off = memberCount s.members off) : MemberRefs s' := by
  refine { toMembersOk := h', short := ?_, unreferenced := ?_, count := ?_ }
  · intro g hg hv
    obtain ⟨g', hg', -, hh⟩ := hs g hg hv
    exact hh ▸ h.short g' hg' (hh ▸ hv)
  · exact fun m hmm hv => h.unreferenced m (hm m hmm hv) hv
  · intro g hg hv
    obtain ⟨g', hg', hgo, hh⟩ := hs g hg hv
    rw [hc, ← hgo, ← hh]
    exact h.count g' hg' (hh ▸ hv)

lemma newMember (h : MemberRefs s) {new : Obj Member} {sig : Obj Sig}
    (hoff : new.off ∉ s.headers.map Prod.fst) (hnew : new.hdr.New)
    (hsig : findByName new.hdr.name s.sigs = some sig) (hptr : new.body.sigPtr = sig.off)
    (hn : findByName new.hdr.name s.members = none) :
    MemberRefs
      { s.hoIncref sig.off with members := addObject new (s.hoIncref sig.off).members } := by
  obtain ⟨hs, hv⟩ := findByName_mem hsig
  have hmem : (s.hoIncref sig.off).members = s.members :=
    h.members_hoIncref (List.mem_map_of_mem hs)
  refine { toMembersOk := h.toMembersOk.newMember hoff hsig hptr hn, short := ?_,
           unreferenced := ?_, count := ?_ }
  · refine forall_modify (fun g hg _ => h.short g hg) fun g hg _ => h.short g hg
  · intro m hm hmv
    rcases mem_addObject.1 hm with rfl | hm
    · exact hnew.refcnt
    · exact h.unreferenced m (hmem ▸ hm) hmv
  · simp only [hmem, memberCount_addObject hnew.valid, hptr]
    refine forall_modify (fun g hg hne hgv => ?_) fun g hg hgo hgv => ?_
    · rw [if_neg (Ne.symm hne)]
      exact h.count g hg hgv
    · have hgs : g = sig := eq_of_key h.apart.sigs hg hs hgo
      have hzero : memberCount s.members sig.off = 0 :=
        h.memberCount_eq_zero hs ((findByName_name hsig).symm ▸ hn)
      have hc := h.count g hg hgv
      rw [hgs, hzero] at hc
      simp [Obj.mapHdr, Halhdr.incrRefcnt, hgs, hzero, hc]

lemma dropMember (h : MemberRefs s) {name : String} {mptr : Obj Member} {sig : Obj Sig}
    (hmptr : findByName name s.members = some mptr) (hsig : findByName name s.sigs = some sig)
    (h' : MembersOk ((s.hoDecref sig.off).freeObject mptr.off)) :
    MemberRefs ((s.hoDecref sig.off).freeObject mptr.off) := by
  obtain ⟨hm, hmv⟩ := findByName_mem hmptr
  obtain ⟨hs, hv⟩ := findByName_mem hsig
  have hptr : sig.off = mptr.body.sigPtr := h.find_sig hmptr hsig
  have hmem : (s.hoDecref sig.off).members = s.members :=
    h.members_hoDecref (List.mem_map_of_mem hs)
  have hfree : ∀ m ∈ ((s.hoDecref sig.off).freeObject mptr.off).members, m.hdr.valid = true →
      m ∈ s.members := fun m hm hv => hmem ▸ mem_of_mem_free hm hv
  have hcount : ∀ off, memberCount ((s.hoDecref sig.off).freeObject mptr.off).members off
      + (if sig.off = off then 1 else 0) = memberCount s.members off := by
    intro off
    have hc := memberCount_free h.apart.members hm hmv (h.unreferenced mptr hm hmv) off
    rw [← hptr, ← hmem] at hc
    rw [← hmem]
    exact hc
  refine { toMembersOk := h', short := ?_, unreferenced := ?_, count := ?_ }
  · intro g hg hgv
    obtain ⟨a, ha, rfl⟩ := mem_modify.1 (mem_of_mem_free hg hgv)
    split_ifs at hgv ⊢
    · exact h.short a ha hgv
    · exact h.short a ha hgv
  · exact fun m hmm hmv' => h.unreferenced m (hfree m hmm hmv') hmv'
  · intro g hg hgv
    obtain ⟨a, ha, rfl⟩ := mem_modify.1 (mem_of_mem_free hg hgv)
    split_ifs at hgv ⊢ with hao
    · have hc := h.count a ha hgv
      have hsub := hcount a.off
      rw [if_pos hao.symm] at hsub
      rw [← hsub, BitVec.ofNat_add] at hc
      have hdecr : (Obj.mapHdr Halhdr.decrRefcnt a).hdr.refcnt = a.hdr.refcnt - 1 := rfl
      rw [hdecr, hc]
      exact BitVec.add_sub_cancel _ _
    · have hsub := hcount a.off
      rw [if_neg (Ne.symm hao), add_zero] at hsub
      rw [hsub]
      exact h.count a ha hgv

/-- Freeing groups does not concern signals and members. -/
lemma freeAll (h : MemberRefs s) {offs : List ℕ}
    (hoffs : ∀ off ∈ offs, off ∈ s.groups.map Obj.off) : MemberRefs (s.freeAll offs) := by
  induction offs generalizing s with
  | nil => exact h
  | cons off offs ih =>
    have ho : off ∈ s.groups.map Obj.off := hoffs off (.head _)
    have hmem : (s.freeObject off).members = s.members := modify_eq_self (h.apart.group off ho)
    have hone : MemberRefs (s.freeObject off) := by
      refine h.of_subset (h.freeObject (h.safeAt off)) ?_ ?_ fun off' => by rw [hmem]
      · exact fun g hg hgv => ⟨g, mem_of_mem_free hg hgv, rfl, rfl⟩
      · exact fun m hm hmv => mem_of_mem_free hm hmv
    refine ih hone fun off' ho' => ?_
    have hkeys : (s.freeObject off).groups.map Obj.off = s.groups.map Obj.off := keys_free _ _
    exact hkeys ▸ hoffs off' (.tail _ ho')

/-- Every call that takes no valid member with a group keeps the invariant. -/
theorem change {a : GroupAct} (h : MemberRefs s) (hf : s.freshObj a.mem = true)
    (hok : groupOk s a = true) {rc : Option Errno} (hc : GroupChange s a rc s') :
    MemberRefs s' := by
  have h' : MembersOk s' := h.toMembersOk.change hf h.safeAt hc
  cases hc with
  | same _ hs =>
    refine h.of_subset h' ?_ (fun m hm _ => hs.members ▸ hm) fun off => by rw [hs.members]
    intro g hg _
    have hmem : (g.off, g.hdr) ∈ headersOf s.sigs := hs.objs.sigs ▸ mem_headersOf hg
    obtain ⟨g', hg', he⟩ := List.mem_map.1 hmem
    exact ⟨g', hg', (Prod.mk.inj he).1, (Prod.mk.inj he).2⟩
  | newSig _ m new hm hoff hnew hlen hn he =>
    subst he
    refine { toMembersOk := h', short := ?_, unreferenced := h.unreferenced, count := ?_ }
    · intro g hg hgv
      rcases mem_addObject.1 hg with rfl | hg
      · exact hlen
      · exact h.short g hg hgv
    · intro g hg hgv
      rcases mem_addObject.1 hg with rfl | hg
      · have hno : g.off ∉ s.sigs.map Obj.off := by
          intro hmem
          obtain ⟨a, ha, hao⟩ := List.mem_map.1 hmem
          exact GroupHal.not_mem_of_freshObj hf hm hoff
            (hao ▸ List.mem_map_of_mem (GroupHal.mem_headers_sigs ha))
        rw [hnew.refcnt, h.memberCount_fresh hno]
        rfl
      · exact h.count g hg hgv
  | newGroup _ m new hm hoff _ he =>
    subst he
    exact { toMembersOk := h', short := h.short, unreferenced := h.unreferenced, count := h.count }
  | newMember m new sig _ _ _ ha _ hoff hnew hsig hptr hn he =>
    exact he ▸ h.newMember (GroupHal.not_mem_of_freshObj hf (by rw [ha]; rfl) hoff)
      hnew hsig hptr hn
  | dropMember _ name mptr sig _ _ hmptr hsig he =>
    subst he
    exact h.dropMember hmptr hsig h'
  | freeSig _ t sig ht hsig he =>
    subst he
    refine h.of_subset h' ?_ (fun m hm _ => ht.members ▸ hm) fun off => by rw [← ht.members]
    intro g hg hgv
    have hgt : g ∈ t.sigs := mem_of_mem_free hg hgv
    have hmem : (g.off, g.hdr) ∈ headersOf s.sigs := ht.objs.sigs ▸ mem_headersOf hgt
    obtain ⟨g', hg', he⟩ := List.mem_map.1 hmem
    exact ⟨g', hg', (Prod.mk.inj he).1, (Prod.mk.inj he).2⟩
  | free _ offs hoffs he =>
    refine he ▸ h.freeAll fun off ho => (hoffs off ho).resolve_right ?_
    rintro ⟨m, hm, -, hv, hsel⟩
    have hno := List.all_eq_true.1 hok m hm
    simp [hv, hsel] at hno
  | refGroup name group _ _ hfind he =>
    subst he
    have hgroup := (findByName_mem hfind).1
    have hg := h.group_not_sig (List.mem_map_of_mem hgroup)
    have hs : (s.hoIncref group.off).sigs = s.sigs := modify_eq_self hg
    have hm : (s.hoIncref group.off).members = s.members :=
      modify_eq_self (h.apart.group _ (List.mem_map_of_mem hgroup))
    exact h.of_subset h' (fun g hg _ => ⟨g, hs ▸ hg, rfl, rfl⟩) (fun m hmm _ => hm ▸ hmm)
      fun off => by rw [hm]
  | unrefGroup name group _ _ hfind he =>
    subst he
    have hgroup := (findByName_mem hfind).1
    have hg := h.group_not_sig (List.mem_map_of_mem hgroup)
    have hs : (s.hoDecref group.off).sigs = s.sigs := modify_eq_self hg
    have hm : (s.hoDecref group.off).members = s.members :=
      modify_eq_self (h.apart.group _ (List.mem_map_of_mem hgroup))
    exact h.of_subset h' (fun g hg _ => ⟨g, hs ▸ hg, rfl, rfl⟩) (fun m hmm _ => hm ▸ hmm)
      fun off => by rw [hm]
  | sweep _ he =>
    subst he
    exact h.of_subset h' (fun g hg _ => ⟨g, (mem_sweep.1 hg).1, rfl, rfl⟩)
      (fun m hm _ => (mem_sweep.1 hm).1) fun off => memberCount_sweep s.members off

end MemberRefs

/-! ### Runs -/

lemma MemberRefs.of_noMembers (h0 : s₀.NoMembers) : MemberRefs s₀ := by
  refine { keys := h0.keys, sigNames := h0.sigNames, short := h0.short, memberNames := ?_
           linked := ?_, unreferenced := ?_, count := ?_ }
  · simp [NamesUnique, h0.members]
  · simp [h0.members]
  · simp [h0.members]
  · intro g hg hv
    rw [h0.refcnt g hg hv, h0.members]
    rfl

/-- One call keeps the invariant. -/
lemma MemberRefs.step {a : GroupAct} (h : MemberRefs s) (hok : groupOk s a = true)
    (hs : groupStep s a = some s') : MemberRefs s' := by
  rw [groupStep] at hs
  split_ifs at hs with hf
  cases hs
  exact h.change hf hok (groupCall_change h.keys a)

/-- A valid signal that is not referenced can be deleted by its name. -/
lemma MemberRefs.signalDelete (h : MemberRefs s) {sig : Obj Sig} (hs : sig ∈ s.sigs)
    (hv : sig.hdr.valid = true) (hr : sig.hdr.refcnt = 0)
    (hlock : s.locked halLockConfig = false) :
    (s.signalDelete sig.hdr.name).1 = none ∧
      findByName sig.hdr.name (s.signalDelete sig.hdr.name).2.sigs = none := by
  have hsame := SameObjs.unlinkAll s.toHal sig.off
  have hdel : s.toHal.halgSignalDelete sig.hdr.name = s.toHal.freeSigStruct sig := by
    rw [Hal.halgSignalDelete, if_neg (by simp [hlock]), if_neg (h.short sig hs hv),
      h.sigNames.find hs hv]
  have hrc : (s.toHal.freeSigStruct sig).1 = none := by
    rw [Hal.freeSigStruct, freeRc, if_neg (by simp [hr])]
  have hsigs : (s.toHal.freeSigStruct sig).2.sigs = halgFreeObject sig.off
      (s.toHal.foreachPinBySignal sig.off fun off h => h.unlinkPin off).sigs := rfl
  simp only [GroupHal.signalDelete, hdel]
  refine ⟨hrc, ?_⟩
  rw [hsigs, findByName, List.find?_eq_none]
  intro g hg hp
  simp only [Bool.and_eq_true, beq_iff_eq] at hp
  have hgt := mem_of_mem_free hg hp.1
  have hmem : (g.off, g.hdr) ∈ headersOf s.sigs := hsame.sigs ▸ mem_headersOf hgt
  obtain ⟨g', hg', he⟩ := List.mem_map.1 hmem
  obtain ⟨hgo, hgh⟩ := Prod.mk.inj he
  have hgs : g' = sig := h.sigNames g' hg' sig hs (hgh ▸ hp.1) hv (hgh ▸ hp.2)
  have hoff : g.off = sig.off := by rw [← hgo, hgs]
  have hgr : g.hdr.refcnt = 0 := by rw [← hgh, hgs, hr]
  exact not_mem_free hp.1 hgr (hoff.symm ▸ hg)

lemma MemberRefs.groupRefs (h : MemberRefs s) : GroupRefs s := by
  refine ⟨fun sig hs hv => ?_, fun sig hs hv hc hlock => ?_⟩
  · rw [h.count sig hs hv]
    rcases Nat.le_one_iff_eq_zero_or_eq_one.1 (h.memberCount_le_one sig.off) with hc | hc
    · rw [hc]
      decide
    · rw [hc]
      decide
  · refine h.signalDelete hs hv ?_ hlock
    rw [h.count sig hs hv, hc]
    rfl

/-- **Group reference accounting.** In every run without members at the start in which no
deletion of a group takes valid members with it, the reference count of a signal is the
number of its members, and a signal without members can be deleted. -/
theorem group_references (h0 : s₀.NoMembers)
    (hr : Reach groupStep (fun s a => groupOk s a = true) s₀ s) : GroupRefs s := by
  have h : MemberRefs s := hr.invariant (MemberRefs.of_noMembers h0) fun h hok hs => h.step hok hs
  exact h.groupRefs

/-- A HAL without objects. -/
def emptyGroupHal : GroupHal :=
  { lock := 0, halSize := 4096, comps := [], insts := [], pins := [], sigs := [], functs := []
    threads := [], functEntryFree := [], cells := fun _ => none, groups := [], members := []
    vtables := [] }

lemma emptyGroupHal_noMembers : emptyGroupHal.NoMembers := by
  refine ⟨?_, rfl, ?_, ?_, ?_⟩ <;> simp [emptyGroupHal, GroupHal.headers, headersOf, NamesUnique]

/-- A signal is a member of a group; the member is deleted, then the group. -/
def dropMember : List GroupAct :=
  [.signalNew (some ⟨64, 1⟩) "sig" .halBit, .groupNew (some ⟨128, 2⟩) "grp" 0 0,
    .memberNew (some ⟨192, 3⟩) "grp" "sig" 0 0, .memberDelete "grp" "sig", .groupDelete "grp"]

/-- The signal is free again. -/
theorem group_references_dropMember : ∃ s, run groupStep groupOk emptyGroupHal dropMember = some s ∧
    (s.sigs.map fun g => (g.hdr.valid, g.hdr.refcnt)) = [(true, 0)] ∧ GroupRefs s := by
  have hs : (run groupStep groupOk emptyGroupHal dropMember).map
      (fun s => s.sigs.map fun g => (g.hdr.valid, g.hdr.refcnt)) = some [(true, 0)] := by
    decide
  obtain ⟨s, hs, hv, hr⟩ := run_map hs
  exact ⟨s, hs, hv, group_references emptyGroupHal_noMembers hr⟩

/-- The group is deleted while the signal is a member of it. -/
def dropGroup : List GroupAct :=
  [.signalNew (some ⟨64, 1⟩) "sig" .halBit, .groupNew (some ⟨128, 2⟩) "grp" 0 0,
    .memberNew (some ⟨192, 3⟩) "grp" "sig" 0 0, .groupDelete "grp"]

/-- Deleting the group frees the member without giving back its reference to the signal,
which is referenced from then on. -/
theorem group_references_dropGroup : ¬ ∀ s₀ s : GroupHal, s₀.NoMembers →
    Reach groupStep (fun _ _ => true = true) s₀ s → GroupRefs s := by
  intro hall
  have hs : (run groupStep (fun _ _ => true) emptyGroupHal dropGroup).map (fun s =>
      (s.sigs.head?.map fun g => (g.off, g.hdr.valid, g.hdr.refcnt), memberCount s.members 64))
      = some (some (64, true, 1), 0) := by decide
  obtain ⟨s, -, hv, hr⟩ := run_map hs
  obtain ⟨hsig, hmem⟩ := Prod.mk.inj hv
  obtain ⟨g, hg, hgv⟩ := Option.map_eq_some_iff.mp hsig
  simp only [Prod.mk.injEq] at hgv
  have hc := (hall _ s emptyGroupHal_noMembers hr).count g
    (List.mem_of_head? hg) hgv.2.1
  rw [hgv.1, hmem, hgv.2.2] at hc
  exact absurd hc (by decide)

end MachinekitHal
