import MachinekitHal.Hal.GroupReferences

/-!
Which group a member operation acts on.

Members of all groups are on one list, and both operations look a member up there by its
name alone. So they act on the right group only if the member found is the one of the group
they were given.

* `openGroup`: the checks both operations make first.
* `DeletesOwn`, `RefusesOwn`: deleting acts on the member of the given group and on nothing
  else; adding is refused as a duplicate exactly if the given group has the member.
* `member_ownership`: when each of the two is so.
-/

namespace MachinekitHal

open Runs Store

variable {s : GroupHal} {grp : Obj Group} {group member : String}

namespace GroupHal

variable (s : GroupHal)

/-- The checks of the member operations up to the look-up of the member. A group that does not
exist is reported as `missing`. -/
def openGroup (missing : Errno) (group member : String) : Except Errno (Obj Group) :=
  if s.locked halLockLoad then .error .EPERM else
  if halNameLen < group.length then .error .EINVAL else
  if halNameLen < member.length then .error .EINVAL else
  match findByName group s.groups with
  | none => .error missing
  | some grp => if grp.hdr.refcnt ≠ 0 then .error .EBUSY else .ok grp

/-- The first valid member with the name that `grp` owns. -/
def memberOf (grp : Obj Group) (member : String) : Option (Obj Member) :=
  s.members.find? fun o =>
    o.hdr.valid && o.hdr.name == member && o.hdr.ownerId == grp.hdr.id

/-- Deleting a member of a group: the member of that group is freed, whatever other groups
have; without one the call fails and nothing changes. -/
structure DeletesOwn (grp : Obj Group) (member : String) (r : Option Errno × GroupHal) :
    Prop where
  removed : ∀ o, s.memberOf grp member = some o →
    r.1 = none ∧ r.2.groups = s.groups ∧
      r.2.members = modify Obj.off o.off (Obj.mapHdr Halhdr.clear) s.members
  refused : s.memberOf grp member = none → r.1.isSome = true ∧ r.2 = s

/-- `halg_member_delete` acts on the group it is given. -/
def DeleteRight (group member : String) : Prop :=
  match s.openGroup .EINVAL group member with
  | .error e => s.halgMemberDelete group member = (some e, s)
  | .ok grp => s.DeletesOwn grp member (s.halgMemberDelete group member)

/-- `halg_member_new` calls a member a duplicate exactly if the group it is given has it. -/
def NewRight (mem : Option Alloc) (group member : String) (arg1 : BitVec 32) (epsIndex : ℤ) :
    Prop :=
  match s.openGroup .ENOENT group member with
  | .error e => s.halgMemberNew mem group member arg1 epsIndex = (some e, s)
  | .ok grp => (findByName member s.sigs).isSome = true →
      ((s.halgMemberNew mem group member arg1 epsIndex).1 = some .EBUSY
        ↔ (s.memberOf grp member).isSome = true)

/-- The first member of the name is not one of another group. -/
def DeleteFinds (group member : String) : Prop :=
  ∀ grp, s.openGroup .EINVAL group member = .ok grp →
    ∀ o, findByName member s.members = some o →
      if (findByName member s.sigs).isSome then o.hdr.ownerId = grp.hdr.id ∧ o.hdr.refcnt = 0
      else s.memberOf grp member = none

/-- Some group has the member only if the given one does. -/
def NewFinds (group member : String) : Prop :=
  ∀ grp, s.openGroup .ENOENT group member = .ok grp → (findByName member s.sigs).isSome = true →
    (findByName member s.members).isSome = true → (s.memberOf grp member).isSome = true

end GroupHal

open GroupHal

/-! ### The operations after their checks -/

/-- `halg_member_delete` on a group that passed the checks. -/
lemma halgMemberDelete_eq (s : GroupHal) (group member : String) :
    s.halgMemberDelete group member =
      match s.openGroup .EINVAL group member with
      | .error e => (some e, s)
      | .ok _ =>
        match findByName member s.members, findByName member s.sigs with
        | some mptr, some sig => (none, (s.hoDecref sig.off).freeObject mptr.off)
        | _, _ => (some .ENOENT, s) := by
  rw [halgMemberDelete, openGroup]
  split_ifs
  · rfl
  · rfl
  · rfl
  · cases findByName group s.groups with
    | none => rfl
    | some grp =>
      simp only
      split_ifs
      · rfl
      · cases findByName member s.members <;> cases findByName member s.sigs <;> rfl

/-- `halg_member_new` on a group that passed the checks. -/
lemma halgMemberNew_eq (s : GroupHal) (mem : Option Alloc) (group member : String)
    (arg1 : BitVec 32) (epsIndex : ℤ) :
    s.halgMemberNew mem group member arg1 epsIndex =
      match s.openGroup .ENOENT group member with
      | .error e => (some e, s)
      | .ok grp =>
        match findByName member s.sigs with
        | none => (some .ENOENT, s)
        | some sig =>
        if (findByName member s.members).isSome then (some .EBUSY, s) else
        match halgCreateObject mem grp.hdr.id.toInt member
            { sigPtr := sig.off, userarg1 := arg1, epsIndex := BitVec.ofInt 8 epsIndex : Member }
          with
        | none => (some .ENOMEM, s)
        | some new =>
          (none, { s.hoIncref sig.off with members := addObject new (s.hoIncref sig.off).members })
    := by
  rw [halgMemberNew, openGroup]
  by_cases hlock : s.locked halLockLoad = true
  · rw [if_pos hlock, if_pos hlock]
  rw [if_neg hlock, if_neg hlock]
  by_cases hg : halNameLen < group.length
  · rw [if_pos hg, if_pos hg]
  rw [if_neg hg, if_neg hg]
  by_cases hm : halNameLen < member.length
  · rw [if_pos hm, if_pos hm]
  rw [if_neg hm, if_neg hm]
  cases findByName group s.groups with
  | none => rfl
  | some grp =>
    dsimp only
    by_cases hr : grp.hdr.refcnt ≠ 0
    · rw [if_pos hr, if_pos hr]
    · rw [if_neg hr]
      generalize hopen : (if grp.hdr.refcnt ≠ 0 then .error Errno.EBUSY else .ok grp :
        Except Errno (Obj Group)) = r
      obtain rfl : r = .ok grp := hopen ▸ if_neg hr
      rfl

/-- Past the checks, a member is a duplicate if any group has it. -/
lemma halgMemberNew_busy {mem : Option Alloc} {arg1 : BitVec 32} {epsIndex : ℤ}
    (h : s.openGroup .ENOENT group member = .ok grp)
    (hsig : (findByName member s.sigs).isSome = true) :
    (s.halgMemberNew mem group member arg1 epsIndex).1 = some .EBUSY
      ↔ (findByName member s.members).isSome = true := by
  obtain ⟨sig, hsig⟩ := Option.isSome_iff_exists.mp hsig
  simp only [halgMemberNew_eq, h, hsig]
  by_cases hm : (findByName member s.members).isSome = true
  · rw [if_pos hm]
    exact iff_of_true rfl hm
  · rw [if_neg hm]
    refine iff_of_false ?_ hm
    cases halgCreateObject mem grp.hdr.id.toInt member
      { sigPtr := sig.off, userarg1 := arg1, epsIndex := BitVec.ofInt 8 epsIndex : Member } <;>
      simp

/-! ### The member a group has -/

lemma memberOf_some {o : Obj Member} (h : s.memberOf grp member = some o) :
    o ∈ s.members ∧ o.hdr.valid = true ∧ o.hdr.name = member ∧ o.hdr.ownerId = grp.hdr.id := by
  have hp := List.find?_some h
  simp only [Bool.and_eq_true, beq_iff_eq] at hp
  exact ⟨List.mem_of_find?_eq_some h, hp.1.1, hp.1.2, hp.2⟩

/-- A member of the group has the name, so some member has it. -/
lemma memberOf_findByName {o : Obj Member} (h : s.memberOf grp member = some o) :
    (findByName member s.members).isSome = true := by
  obtain ⟨ho, hv, hn, -⟩ := memberOf_some h
  cases hf : findByName member s.members with
  | some _ => rfl
  | none => exact absurd hn (findByName_none hf o ho hv)

/-- The first member of the name, if it belongs to the group, is the group's member. -/
lemma memberOf_of_owner {o : Obj Member} (hf : findByName member s.members = some o)
    (ho : o.hdr.ownerId = grp.hdr.id) : s.memberOf grp member = some o := by
  rw [findByName, List.find?_eq_some_iff_append] at hf
  obtain ⟨hp, l, l', hl, hno⟩ := hf
  refine List.find?_eq_some_iff_append.mpr ⟨by simp [hp, ho], l, l', hl, ?_⟩
  intro o' ho'
  have hp' := hno o' ho'
  simp only [Bool.not_eq_true'] at hp' ⊢
  rw [hp', Bool.false_and]

/-! ### Deleting the member found -/

/-- Dropping the reference to a signal and freeing a member changes that member only. -/
lemma drop_eq (hk : (s.headers.map Prod.fst).Nodup) {sig : Obj Sig} {mptr : Obj Member}
    (hs : sig ∈ s.sigs) (hm : mptr ∈ s.members) :
    ((s.hoDecref sig.off).freeObject mptr.off).groups = s.groups ∧
      ((s.hoDecref sig.off).freeObject mptr.off).members = halgFreeObject mptr.off s.members := by
  have hka := keysApart hk
  obtain ⟨-, -, -, -, -, hsg, hsm, -⟩ := hka.sig sig.off (List.mem_map_of_mem hs)
  have hmg : mptr.off ∉ s.groups.map Obj.off :=
    fun hg => hka.group _ hg (List.mem_map_of_mem hm)
  constructor
  · change halgFreeObject mptr.off (modify Obj.off sig.off _ s.groups) = s.groups
    rw [modify_eq_self hsg, halgFreeObject, modify_eq_self hmg]
  · change halgFreeObject mptr.off (modify Obj.off sig.off _ s.members) = _
    rw [modify_eq_self hsm]

/-- A freed member that is not referenced is cleared. -/
lemma free_eq_clear {l : List (Obj Member)} {mptr : Obj Member} (hnd : (l.map Obj.off).Nodup)
    (hm : mptr ∈ l) (hr : mptr.hdr.refcnt = 0) :
    halgFreeObject mptr.off l = modify Obj.off mptr.off (Obj.mapHdr Halhdr.clear) l := by
  refine List.map_congr_left fun o ho => ?_
  by_cases hk : o.off = mptr.off
  · obtain rfl := eq_of_key hnd ho hm hk
    rw [if_pos hk, if_pos hk, Obj.release, if_neg (by simp [hr])]
    rfl
  · rw [if_neg hk, if_neg hk]

/-- If the group's member is cleared, it was the one freed, and it was not referenced. -/
lemma freed_of_clear {l : List (Obj Member)} {mptr o : Obj Member} (hm : mptr ∈ l) (ho : o ∈ l)
    (hnd : (l.map Obj.off).Nodup) (hv : o.hdr.valid = true)
    (he : halgFreeObject mptr.off l = modify Obj.off o.off (Obj.mapHdr Halhdr.clear) l) :
    mptr = o ∧ o.hdr.refcnt = 0 := by
  have hgone : o ∉ halgFreeObject mptr.off l := by
    rw [he]
    intro hmem
    obtain ⟨a, ha, hao⟩ := mem_modify.mp hmem
    split_ifs at hao with hka
    · rw [← hao] at hv
      simp [Obj.mapHdr, Halhdr.clear] at hv
    · exact hka (by rw [hao])
  have hoff : o.off = mptr.off := by
    by_contra hne
    exact hgone (mem_modify_of_ne ho hne)
  obtain rfl := eq_of_key hnd hm ho hoff.symm
  refine ⟨rfl, ?_⟩
  by_contra hr
  refine hgone ?_
  have hself := mem_modify_self (f := Obj.release) (k := mptr.off) hm rfl
  rwa [Obj.release, if_pos hr] at hself

/-- A refusal is right exactly if the group has no such member. -/
lemma deletesOwn_refusal {e : Errno} :
    s.DeletesOwn grp member (some e, s) ↔ s.memberOf grp member = none := by
  refine ⟨fun h => ?_, fun h => ⟨fun o ho => ?_, fun _ => ⟨rfl, rfl⟩⟩⟩
  · rw [Option.eq_none_iff_forall_ne_some]
    intro o ho
    exact absurd (h.removed o ho).1 (by simp)
  · simp [h] at ho

/-- A deletion is right exactly if the member it found is the group's and is not referenced. -/
lemma deletesOwn_drop (hk : (s.headers.map Prod.fst).Nodup) {sig : Obj Sig} {mptr : Obj Member}
    (hs : sig ∈ s.sigs) (hf : findByName member s.members = some mptr) :
    s.DeletesOwn grp member (none, (s.hoDecref sig.off).freeObject mptr.off)
      ↔ mptr.hdr.ownerId = grp.hdr.id ∧ mptr.hdr.refcnt = 0 := by
  have hm := (findByName_mem hf).1
  have hnd := (keysApart hk).members
  obtain ⟨hgroups, hmembers⟩ := drop_eq hk hs hm
  constructor
  · intro h
    cases ho : s.memberOf grp member with
    | none => exact absurd (h.refused ho).1 (by simp)
    | some o =>
      obtain ⟨hmem, hv, -, howner⟩ := memberOf_some ho
      have hclear := (h.removed o ho).2.2
      rw [hmembers] at hclear
      obtain ⟨rfl, hr⟩ := freed_of_clear hm hmem hnd hv hclear
      exact ⟨howner, hr⟩
  · rintro ⟨howner, hr⟩
    have hown := memberOf_of_owner hf howner
    refine ⟨fun o ho => ?_, fun hno => by simp [hown] at hno⟩
    obtain rfl : mptr = o := by simpa [hown] using ho
    exact ⟨rfl, hgroups, by rw [hmembers, free_eq_clear hnd hm hr]⟩

/-- Deleting acts on the given group exactly if the member found is that group's. -/
lemma deleteRight_iff (hk : (s.headers.map Prod.fst).Nodup) :
    s.DeleteRight group member ↔ s.DeleteFinds group member := by
  rw [DeleteRight, DeleteFinds]
  cases hg : s.openGroup .EINVAL group member with
  | error e => simp [halgMemberDelete_eq, hg]
  | ok grp =>
  simp only [Except.ok.injEq, forall_eq']
  cases hf : findByName member s.members with
  | none =>
    have hno : s.memberOf grp member = none := by
      rw [Option.eq_none_iff_forall_ne_some]
      intro o ho
      have hsome := memberOf_findByName ho
      simp [hf] at hsome
    simp only [halgMemberDelete_eq, hg, hf]
    exact iff_of_true (deletesOwn_refusal.mpr hno) (by simp)
  | some mptr =>
  simp only [Option.some.injEq, forall_eq']
  cases hs : findByName member s.sigs with
  | none =>
    simp only [halgMemberDelete_eq, hg, hf, hs]
    simpa using deletesOwn_refusal
  | some sig =>
    simp only [halgMemberDelete_eq, hg, hf, hs]
    simpa using deletesOwn_drop hk (findByName_mem hs).1 hf

/-- Adding refuses the right duplicates exactly if no other group alone has the member. -/
lemma newRight_iff {mem : Option Alloc} {arg1 : BitVec 32} {epsIndex : ℤ} :
    s.NewRight mem group member arg1 epsIndex ↔ s.NewFinds group member := by
  rw [NewRight, NewFinds]
  cases hg : s.openGroup .ENOENT group member with
  | error e => simp [halgMemberNew_eq, hg]
  | ok grp =>
    simp only [Except.ok.injEq, forall_eq']
    refine forall_congr' fun hsig => ?_
    rw [halgMemberNew_busy hg hsig]
    refine ⟨fun h => h.mp, fun h => ⟨h, fun hm => ?_⟩⟩
    obtain ⟨o, ho⟩ := Option.isSome_iff_exists.mp hm
    exact memberOf_findByName ho

/-- **Member operations and the right group.** Deleting a member acts on the given group exactly
if the first member of the name on the list is that group's, and adding one refuses the right
duplicates exactly if the given group has the member whenever some group has. -/
theorem member_ownership (hk : (s.headers.map Prod.fst).Nodup) (mem : Option Alloc)
    (group member : String) (arg1 : BitVec 32) (epsIndex : ℤ) :
    (s.DeleteRight group member ↔ s.DeleteFinds group member) ∧
      (s.NewRight mem group member arg1 epsIndex ↔ s.NewFinds group member) :=
  ⟨deleteRight_iff hk, newRight_iff⟩

/-- Two groups, the first with a member. -/
def twoGroupsRun : List GroupAct :=
  [.signalNew (some ⟨64, 1⟩) "sig" .halBit, .groupNew (some ⟨128, 2⟩) "grp" 0 0,
    .groupNew (some ⟨192, 3⟩) "other" 0 0, .memberNew (some ⟨256, 4⟩) "grp" "sig" 0 0]

/-- The state after it. -/
def twoGroups : GroupHal :=
  (run groupStep groupOk emptyGroupHal twoGroupsRun).getD emptyGroupHal

lemma reach_twoGroups :
    Reach groupStep (fun s a => groupOk s a = true) emptyGroupHal twoGroups := by
  have hs : (run groupStep groupOk emptyGroupHal twoGroupsRun).isSome = true := by
    decide
  obtain ⟨s, hs⟩ := Option.isSome_iff_exists.mp hs
  have ht : twoGroups = s := by rw [twoGroups, hs, Option.getD_some]
  exact ht ▸ reach_of_run _ _ hs

/-- The member is deleted, or made once more. -/
theorem member_ownership_twoGroups :
    (twoGroups.headers.map Prod.fst).Nodup ∧
      (twoGroups.DeleteRight "grp" "sig" ↔ twoGroups.DeleteFinds "grp" "sig") ∧
      (twoGroups.NewRight none "grp" "sig" 0 0 ↔ twoGroups.NewFinds "grp" "sig") := by
  have hk : (twoGroups.headers.map Prod.fst).Nodup := by decide
  exact ⟨hk, member_ownership hk none "grp" "sig" 0 0⟩

/-- Adding the member to the other group is refused as a duplicate, and deleting it from the
other group frees the member of the first. -/
theorem member_ownership_fails :
    (¬ ∀ s, Reach groupStep (fun s a => groupOk s a = true) emptyGroupHal s →
      ∀ mem group member, s.NewRight mem group member 0 0) ∧
    ¬ ∀ s, Reach groupStep (fun s a => groupOk s a = true) emptyGroupHal s →
      ∀ group member, s.DeleteRight group member := by
  constructor
  · intro hall
    have h := hall twoGroups reach_twoGroups none "other" "sig"
    have hrc : (twoGroups.halgMemberNew none "other" "sig" 0 0).1 = some .EBUSY := by
      decide
    have hno : (twoGroups.openGroup .ENOENT "other" "sig").toOption.map
        (fun grp => (twoGroups.memberOf grp "sig").isSome) = some false := by decide
    rw [NewRight] at h
    cases hg : twoGroups.openGroup .ENOENT "other" "sig" with
    | error e => simp [hg, Except.toOption] at hno
    | ok grp =>
        simp only [hg, Except.toOption, Option.map_some, Option.some.injEq] at h hno
        have hown := (h (by decide)).mp hrc
        simp [hown] at hno
  · intro hall
    have h := hall twoGroups reach_twoGroups "other" "sig"
    have hrc : (twoGroups.halgMemberDelete "other" "sig").1 = none := by decide
    have hno : (twoGroups.openGroup .EINVAL "other" "sig").toOption.map
        (fun grp => (twoGroups.memberOf grp "sig").isSome) = some false := by decide
    rw [DeleteRight] at h
    cases hg : twoGroups.openGroup .EINVAL "other" "sig" with
    | error e => simp [hg, Except.toOption] at hno
    | ok grp =>
        simp only [hg, Except.toOption, Option.map_some, Option.some.injEq] at h hno
        have hrefused := (h.refused (by simpa using hno)).1
        simp [hrc] at hrefused

end MachinekitHal
