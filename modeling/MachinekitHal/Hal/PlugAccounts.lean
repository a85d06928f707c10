import MachinekitHal.Hal.RingAttachment

/-!
The accounts of rings and plugs.

* `RingAccounts`: the header of every valid ring counts the ringbuffers attached to the ring,
  and names as its reader and writer no one or plugs that are attached to it.
* `plugFits`: the condition on a call.
* `ring_accounts`: the accounts are right in every run whose calls meet the condition, and
  then no ring goes away that is attached; `ring_accounts_duplicate` is a run that does not.
-/

namespace MachinekitHal

open Store Runs Attachments

namespace PlugHal

variable (s : PlugHal)

/-- A header may name `id` in a role: no one, or a plug of the role that is attached. -/
def Named (l : RingLoc) (role : PlugRole) (id : ℤ) : Prop :=
  id = 0 ∨ ∃ p ∈ s.plugs, p.hdr.valid = true ∧ p.body.role = role ∧ p.hdr.id.toInt = id ∧
    s.attached (plugRb p.off) = some l

/-- The state before any ring or plug exists: segments of other users may be mapped, and no
ringbuffer is attached. -/
structure NoPlugs : Prop where
  rings : s.NoRings
  used : ∀ i, (s.shmems i).magic = true → 1 ≤ (s.shmems i).count
  bufs : ∀ rb, (s.bufs rb).magic = false
  plugs : s.plugs = []

end PlugHal

/-- The accounts of the valid rings. -/
def RingAccounts (s : PlugHal) : Prop :=
  ∀ o ∈ s.ringObjs, o.hdr.valid = true → ∃ l, s.ringLoc o.body = some l ∧
    (users s.attached l).Finite ∧ (s.headerAt l).refcount = (users s.attached l).ncard ∧
    s.Named l .plugWriter (s.headerAt l).writer ∧ s.Named l .plugReader (s.headerAt l).reader

/-- The condition on a call. Beside that of `ringFits`: the ringbuffer of a plug that a
header names is not detached by itself; `halg_plug_new` does not fail before it has
initialized its variable, unless that holds NULL anyway; and the configuration is not locked
when a plug is deleted. -/
def plugFits (s : PlugHal) : PlugAct → Bool
  | .ring (.ringDetach rb) => s.locked halLockConfig || !(s.bufs rb).magic ||
      s.plugs.all fun p => !p.hdr.valid || plugRb p.off ≠ rb ||
        (s.headerAt (s.bufs rb).header).user p.body.role ≠ p.hdr.id.toInt
  | .ring a => ringFits s.toRingHal a
  | .plugNew e args => s.locked halLockLoad || e.owner.all fun owner =>
    (s.plugChecks args owner).isSome || e.stale.isNone
  | .plugDelete _ => s.locked halLockLoad || !s.locked halLockConfig

/-- What holds in every state of a run whose calls meet the condition. -/
structure PlugInv (s : PlugHal) : Prop where
  places : RingPlaces s.toRingHal
  accounts : s.Accounted
  nodup : (s.plugs.map Obj.off).Nodup
  unref : ∀ p ∈ s.plugs, p.hdr.valid = true → p.hdr.refcnt = 0
  named : ∀ l ∈ s.liveLocs, ∀ role, s.Named l role ((s.headerAt l).user role)

variable {s s' s₀ : PlugHal} {t : RingHal} {l : RingLoc}

/-- The invariant says that the accounts are right. -/
lemma PlugInv.ringAccounts (hI : PlugInv s) : RingAccounts s := by
  intro o ho hv
  obtain ⟨l, hl⟩ := hI.places.placed o ho hv
  have hlive : l ∈ s.liveLocs := ⟨o, ho, hv, hl⟩
  exact ⟨l, hl, hI.accounts.finite l, hI.accounts.count l hlive, hI.named l hlive .plugWriter,
    hI.named l hlive .plugReader⟩

/-! ### Steps -/

/-- A call on rings keeps the invariant if it takes no plug away that is named. -/
lemma PlugInv.ring (hI : PlugInv s) {lost : Option ℕ} (hk : RingKept s.toRingHal t lost)
    (hlost : ∀ p ∈ s.plugs, p.hdr.valid = true → lost = some (plugRb p.off) →
      ∀ l, s.attached (plugRb p.off) = some l →
        (s.headerAt l).user p.body.role = p.hdr.id.toInt → p.hdr.id.toInt = 0) :
    PlugInv { s with toRingHal := t } := by
  refine ⟨hk.places, hk.accounts, hI.nodup, hI.unref, fun l hl role => ?_⟩
  rcases hk.marks l hl role with hzero | ⟨hlive, hsame⟩
  · exact .inl hzero
  · rw [hsame]
    rcases hI.named l hlive role with hzero | ⟨p, hp, hv, rfl, hid, hatt⟩
    · exact .inl hzero
    · by_cases hb : lost = some (plugRb p.off)
      · exact .inl (hid ▸ hlost p hp hv hb l hatt hid.symm)
      · exact .inr ⟨p, hp, hv, rfl, hid, hk.rest _ l hatt hb⟩

/-- Writing a header that keeps the count keeps the accounts. -/
lemma Accounted.setHeader {s : RingHal} (hA : s.Accounted) {rh : RingHeader}
    (hcount : rh.refcount = (s.headerAt l).refcount) : (s.setHeader l rh).Accounted := by
  have hlive : (s.setHeader l rh).liveLocs = s.liveLocs :=
    liveLocs_congr (fun o _ => by simp) fun r => by simp
  refine hA.congr hlive (fun l' _ => ?_) (attached_congr (by simp))
  by_cases hne : l' = l
  · rw [hne, headerAt_setHeader_self, hcount]
  · rw [headerAt_setHeader_of_ne hne]

/-- The marks of a header are written. -/
lemma PlugInv.setHeader (hI : PlugInv s) {rh : RingHeader}
    (hcount : rh.refcount = (s.headerAt l).refcount)
    (hnamed : l ∈ s.liveLocs → ∀ role, s.Named l role (rh.user role)) :
    PlugInv { s with toRingHal := s.toRingHal.setHeader l rh } := by
  refine ⟨hI.places.setHeader l rh, Accounted.setHeader hI.accounts hcount, hI.nodup, hI.unref, ?_⟩
  have hlive : (s.toRingHal.setHeader l rh).liveLocs = s.liveLocs :=
    liveLocs_congr (fun o _ => by simp) fun r => by simp
  have hatt : (s.toRingHal.setHeader l rh).attached = s.attached := attached_congr (by simp)
  intro l' hl' role
  change l' ∈ (s.toRingHal.setHeader l rh).liveLocs at hl'
  rw [hlive] at hl'
  have hkeep : ∀ id, s.Named l' role id →
      PlugHal.Named { s with toRingHal := s.toRingHal.setHeader l rh } l' role id := by
    rintro id (h | ⟨p, hp, hv, hrole, hid, hpl⟩)
    · exact .inl h
    · exact .inr ⟨p, hp, hv, hrole, hid, hatt ▸ hpl⟩
  by_cases hne : l' = l
  · subst hne
    change PlugHal.Named _ l' role (((s.toRingHal.setHeader l' rh).headerAt l').user role)
    rw [headerAt_setHeader_self]
    exact hkeep _ (hnamed hl' role)
  · change PlugHal.Named _ l' role (((s.toRingHal.setHeader l rh).headerAt l').user role)
    rw [headerAt_setHeader_of_ne hne]
    exact hkeep _ (hI.named l' hl' role)

/-- A plug that is not attached is freed. -/
lemma PlugInv.freePlug (hI : PlugInv s) {plug : ℕ} (hno : s.attached (plugRb plug) = none) :
    PlugInv { s with plugs := halgFreeObject plug s.plugs } := by
  refine ⟨hI.places, hI.accounts, (keys_free plug s.plugs).symm ▸ hI.nodup, ?_, fun l hl role => ?_⟩
  · exact fun p hp hv => hI.unref p (mem_of_mem_free hp hv) hv
  · rcases hI.named l hl role with hzero | ⟨p, hp, hv, hrole, hid, hatt⟩
    · exact .inl hzero
    · have hne : p.off ≠ plug := fun he => by simp [he, hno] at hatt
      exact .inr ⟨p, mem_free_of hp fun he => absurd he hne, hv, hrole, hid, hatt⟩

lemma PlugInv.addPlug (hI : PlugInv s) {new : Obj HalPlug} (href : new.hdr.refcnt = 0)
    (hoff : new.off ∉ s.plugs.map Obj.off) :
    PlugInv { s with plugs := addObject new s.plugs } := by
  refine ⟨hI.places, hI.accounts, nodup_addObject hI.nodup hoff, ?_, fun l hl role => ?_⟩
  · intro p hp hv
    rcases mem_addObject.1 hp with rfl | hp
    · exact href
    · exact hI.unref p hp hv
  · rcases hI.named l hl role with hzero | ⟨p, hp, hrest⟩
    · exact .inl hzero
    · exact .inr ⟨p, mem_addObject.2 (.inr hp), hrest⟩

/-- Plugs that are not valid disappear. -/
lemma PlugInv.sweepPlugs (hI : PlugInv s) : PlugInv { s with plugs := sweep s.plugs } := by
  refine ⟨hI.places, hI.accounts, nodup_sweep hI.nodup, ?_, fun l hl role => ?_⟩
  · exact fun p hp hv => hI.unref p (mem_sweep.1 hp).1 hv
  · rcases hI.named l hl role with hzero | ⟨p, hp, hv, hrest⟩
    · exact .inl hzero
    · exact .inr ⟨p, mem_sweep.2 ⟨hp, hv⟩, hv, hrest⟩

/-- A plug that unmarks itself: the marks that are left are not its own. -/
lemma PlugInv.unmark (hI : PlugInv s) (l : RingLoc) (self : ℤ) :
    PlugInv { s with toRingHal := s.toRingHal.setHeader l ((s.headerAt l).unmark self) } := by
  refine hI.setHeader (by rfl) fun hl role => ?_
  have hnamed := hI.named l hl role
  cases role with
  | plugReader =>
    simp only [RingHeader.unmark, RingHeader.user] at hnamed ⊢
    split_ifs
    · exact .inl rfl
    · exact hnamed
  | plugWriter =>
    simp only [RingHeader.unmark, RingHeader.user] at hnamed ⊢
    split_ifs
    · exact .inl rfl
    · exact hnamed

lemma user_unmark {rh : RingHeader} {self : ℤ} {role : PlugRole}
    (h : (rh.unmark self).user role = self) : self = 0 := by
  cases role <;> simp only [RingHeader.unmark, RingHeader.user] at h <;> split_ifs at h with hs
  · exact h.symm
  · exact absurd h hs
  · exact h.symm
  · exact absurd h hs

/-- What `halg_plug_delete` does to the rings, if it gets to delete the plug. -/
lemma halgPlugDelete_eq {plug : ℕ} {o : Obj HalPlug} (hl : s.locked halLockLoad = false)
    (ho : at? Obj.off plug s.plugs = some o) (hv : o.hdr.valid = true) :
    (halgPlugDelete plug s).2 =
      { s with toRingHal := (halgRingDetach (plugRb plug) (s.toRingHal.setHeader
                  (s.bufs (plugRb plug)).header
                  ((s.headerAt (s.bufs (plugRb plug)).header).unmark o.hdr.id.toInt))).2
               plugs := halgFreeObject plug s.plugs } := by
  simp [halgPlugDelete, hl, ho, hv]

/-- `halg_plug_delete` while the configuration is not locked. -/
lemma PlugInv.plugDelete (hI : PlugInv s) {plug : ℕ}
    (hfit : plugFits s (.plugDelete plug) = true) :
    PlugInv (halgPlugDelete plug s).2 ∧ (halgPlugDelete plug s).2.ringObjs = s.ringObjs := by
  by_cases hl : s.locked halLockLoad = true
  · simpa [halgPlugDelete, hl] using hI
  have hl' : s.locked halLockLoad = false := by simpa using hl
  have hconf : s.locked halLockConfig = false := by simpa [plugFits, hl'] using hfit
  cases ho : at? Obj.off plug s.plugs with
  | none => simpa [halgPlugDelete, hl', ho] using hI
  | some o =>
    by_cases hv : o.hdr.valid = true
    swap
    · simpa [halgPlugDelete, hl', ho, hv] using hI
    rw [halgPlugDelete_eq hl' ho hv]
    obtain ⟨hmem, rfl⟩ := (at?_eq_some hI.nodup).1 ho
    set loc := (s.bufs (plugRb o.off)).header with hloc
    set t := s.toRingHal.setHeader loc ((s.headerAt loc).unmark o.hdr.id.toInt) with ht
    have hI' : PlugInv { s with toRingHal := t } := hI.unmark loc o.hdr.id.toInt
    have hbufs : t.bufs = s.bufs := by simp [ht]
    have hlock : t.locked halLockConfig = false := by
      rw [← hconf, ht, Hal.locked, setHeader_toHal]
      rfl
    by_cases hm : (t.bufs (plugRb o.off)).magic = true
    · have hdet := halgRingDetach_of_attached hlock hm
      rw [hdet, hbufs, ← hloc]
      have hatt : t.attached (plugRb o.off) = some loc := by
        rw [RingHal.attached, if_pos hm, hbufs]
      have hk : RingKept t (t.detachFrom (plugRb o.off) loc) (some (plugRb o.off)) :=
        .detachFrom hI'.places hI'.accounts hatt
      have hgone : (t.detachFrom (plugRb o.off) loc).attached (plugRb o.off) = none := by
        simp
      refine ⟨(hI'.ring hk ?_).freePlug hgone, by simp [RingHal.detachFrom, ht]⟩
      -- the plug does not name itself any more
      intro p hp hpv hpb l hpl huser
      have hpo : p = o := eq_of_key hI.nodup hp hmem (by simpa [plugRb] using hpb.symm)
      subst hpo
      have hll : l = loc := Option.some.inj (hpl.symm.trans hatt)
      subst hll
      rw [ht, headerAt_setHeader_self] at huser
      exact user_unmark huser
    · have href : (t.locked halLockConfig || !(t.bufs (plugRb o.off)).magic) = true := by
        simp [hm]
      rw [halgRingDetach_refused href]
      exact ⟨hI'.freePlug (by simp [RingHal.attached, hm]), by simp [ht]⟩

lemma user_mark {rh : RingHeader} {role : PlugRole} {id : ℤ} :
    (rh.mark role id).user role = id := by
  cases role <;> rfl

lemma user_mark_of_ne {rh : RingHeader} {role role' : PlugRole} {id : ℤ} (h : role' ≠ role) :
    (rh.mark role id).user role' = rh.user role' := by
  cases role <;> cases role' <;> first | rfl | exact absurd rfl h

/-- `halg_plug_new` that does not fail before it has initialized its variable. -/
lemma PlugInv.plugNew (hI : PlugInv s) {e : PlugEnv} {args : PlugArgs}
    (hfresh : s.fresh e.desc = true) (hfit : plugFits s (.plugNew e args) = true) :
    PlugInv (halgPlugNew e args s).2 ∧ (halgPlugNew e args s).2.ringObjs = s.ringObjs := by
  by_cases hl : s.locked halLockLoad = true
  · simpa [halgPlugNew, hl] using hI
  cases howner : e.owner with
  | none => simpa [halgPlugNew, hl, howner] using hI
  | some owner =>
    have hstale : (s.plugChecks args owner).isSome = true ∨ e.stale = none := by
      simpa [plugFits, hl, howner] using hfit
    cases hchk : s.plugChecks args owner with
    | none =>
      have he : e.stale = none := by simpa [hchk] using hstale
      simpa [halgPlugNew, hl, howner, hchk, he, PlugHal.plugFail] using hI
    | some rn =>
      cases hnew : halgCreateObject e.desc owner.id.toInt rn.2
          { flags := args.flags, ringId := rn.1.hdr.id.toInt, role := args.type : HalPlug } with
      | none => simpa [halgPlugNew, hl, howner, hchk, hnew, PlugHal.plugFail] using hI
      | some new =>
        obtain ⟨m, hm, hoff, -, hv, hbody⟩ := halgCreateObject_eq hnew
        have href := halgCreateObject_refcnt hnew
        rw [hm] at hfresh
        simp only [PlugHal.fresh, Bool.and_eq_true, Option.all_some, decide_eq_true_eq,
          Bool.not_eq_true', ← hoff] at hfresh
        obtain ⟨-, hnotin, hmagic⟩ := hfresh
        rcases halgRingAttachfv_cases hI.places e.toRingEnv (some (plugRb new.off))
          rn.1.hdr.name with ⟨err, h⟩ | ⟨h, -⟩ | ⟨o, rb, l, hrb, ho, hloc, h⟩
        · simpa [halgPlugNew, hl, howner, hchk, hnew, h] using hI
        · simp at h
        · cases hrb
          obtain ⟨hmem, hvo⟩ := RingHal.named_some ho
          have hlive : l ∈ s.liveLocs := ⟨o, hmem, hvo, hloc⟩
          have hhead : ((s.attachTo (plugRb new.off) l).bufs (plugRb new.off)).header = l := by
            simp [RingHal.attachTo]
          have hstep : (halgPlugNew e args s).2 =
              { s with toRingHal := (s.attachTo (plugRb new.off) l).setHeader l
                         (((s.attachTo (plugRb new.off) l).headerAt l).mark args.type
                           new.hdr.id.toInt)
                       plugs := addObject new s.plugs } := by
            simp [halgPlugNew, hl, howner, hchk, hnew, h, hhead]
          rw [hstep]
          have hk := RingKept.attachTo hI.places hI.accounts hlive
            (by simp [RingHal.attached, hmagic] : s.attached (plugRb new.off) = none)
          have hI' := (hI.ring hk fun _ _ _ hno => absurd hno (by simp)).addPlug href hnotin
          have hatt : (s.attachTo (plugRb new.off) l).attached (plugRb new.off) = some l := by
            simp
          refine ⟨hI'.setHeader ?_ fun hl' role => ?_, by simp [RingHal.attachTo]⟩
          · cases args.type <;> rfl
          · by_cases hrole : role = args.type
            · -- the new plug names itself
              refine .inr ⟨new, mem_addObject.2 (.inl rfl), hv, by rw [hbody, hrole], ?_, hatt⟩
              rw [hrole, user_mark]
            · rw [user_mark_of_ne hrole]
              exact hI'.named l hl' role

/-- A call on rings, as a step. -/
lemma plugStep_ring {a : RingAct} (hs : plugStep s (.ring a) = some s') :
    ∃ t, ringStep s.toRingHal a = some t ∧
      (∀ e size spSize mode fmt, a = .ringNewfv e size spSize mode fmt →
        s.ringmemFresh e.ringmem = true) ∧
      (s' = { s with toRingHal := t } ∨
        s' = { s with toRingHal := t, plugs := sweep s.plugs }) := by
  cases a with
  | ringNewfv e size spSize mode fmt =>
    simp only [plugStep] at hs
    split_ifs at hs with hmem
    obtain ⟨t, ht, rfl⟩ := Option.map_eq_some_iff.1 hs
    refine ⟨t, ht, ?_, .inl rfl⟩
    rintro _ _ _ _ _ ⟨⟩
    exact hmem
  | ringDeletefv e fmt =>
    refine ⟨_, rfl, fun _ _ _ _ _ h => ?_, .inl (Option.some.inj hs).symm⟩
    cases h
  | ringAttachfv e rb fmt =>
    refine ⟨_, rfl, fun _ _ _ _ _ h => ?_, .inl (Option.some.inj hs).symm⟩
    cases h
  | ringDetach rb =>
    refine ⟨_, rfl, fun _ _ _ _ _ h => ?_, .inl (Option.some.inj hs).symm⟩
    cases h
  | sweep =>
    refine ⟨_, rfl, fun _ _ _ _ _ h => ?_, .inr (Option.some.inj hs).symm⟩
    cases h

/-- A call on rings that meets the condition. -/
lemma PlugInv.kept (hI : PlugInv s) {a : RingAct} (hfit : plugFits s (.ring a) = true)
    (hmem : ∀ e size spSize mode fmt, a = .ringNewfv e size spSize mode fmt →
      s.ringmemFresh e.ringmem = true)
    (ht : ringStep s.toRingHal a = some t) :
    RingKept s.toRingHal t (a.lost s.toRingHal) ∧ PlugInv { s with toRingHal := t } := by
  have hring : ringFits s.toRingHal a = true := by
    cases a with
    | ringDetach rb => rfl
    | _ => exact hfit
  have hk := ringStep_kept hI.places hI.accounts hmem hring ht
  refine ⟨hk, hI.ring hk fun p hp hv hlost l hl huser => ?_⟩
  cases a with
  | ringDetach rb =>
    -- the plug whose ringbuffer is detached is not named
    simp only [RingAct.lost] at hlost
    split_ifs at hlost with href
    cases hlost
    simp only [Bool.or_eq_true, not_or, Bool.not_eq_true, Bool.not_eq_false'] at href
    have hll : (s.bufs (plugRb p.off)).header = l := by
      simpa [RingHal.attached, href.2] using hl
    have hno : (s.headerAt l).user p.body.role ≠ p.hdr.id.toInt := by
      have hall : ∀ q ∈ s.plugs, (!q.hdr.valid || decide (plugRb q.off ≠ plugRb p.off) ||
          decide ((s.headerAt (s.bufs (plugRb p.off)).header).user q.body.role
            ≠ q.hdr.id.toInt)) = true := by
        simpa [plugFits, href.1, href.2] using hfit
      simpa [hv, hll] using hall p hp
    exact absurd huser hno
  | _ => cases hlost

/-- Every call that meets the condition keeps the invariant, and the rings that are
attached. -/
lemma PlugInv.step (hI : PlugInv s) {a : PlugAct} (hfit : plugFits s a = true)
    (hs : plugStep s a = some s') : PlugInv s' ∧
      ∀ o ∈ s.ringObjs, o.hdr.valid = true → ∀ l, s.ringLoc o.body = some l →
        (users s.attached l).Nonempty → o ∈ s'.ringObjs := by
  cases a with
  | ring a =>
    obtain ⟨t, ht, hmem, hs'⟩ := plugStep_ring hs
    obtain ⟨hk, hI'⟩ := hI.kept hfit hmem ht
    rcases hs' with rfl | rfl
    · exact ⟨hI', hk.stays⟩
    · exact ⟨hI'.sweepPlugs, hk.stays⟩
  | plugNew e args =>
    simp only [plugStep] at hs
    split_ifs at hs with hfresh
    cases hs
    obtain ⟨hI', hobjs⟩ := hI.plugNew hfresh hfit
    exact ⟨hI', fun o ho _ _ _ _ => hobjs ▸ ho⟩
  | plugDelete plug =>
    cases hs
    obtain ⟨hI', hobjs⟩ := hI.plugDelete hfit
    exact ⟨hI', fun o ho _ _ _ _ => hobjs ▸ ho⟩

/-- Before there are rings and plugs the accounts are right. -/
lemma PlugInv.of_noPlugs (h : s.NoPlugs) : PlugInv s := by
  have hnil : ∀ o, o ∉ s.ringObjs := by
    rw [h.rings.objs]
    exact fun _ => List.not_mem_nil
  have hlive : ∀ l, l ∉ s.liveLocs := fun l ⟨o, ho, _⟩ => hnil o ho
  have hatt : ∀ rb, s.attached rb = none := fun rb => by simp [RingHal.attached, h.bufs rb]
  refine ⟨⟨.of_noRings h.rings, ?_, ?_, ?_, h.used⟩, ⟨?_, ?_, ?_⟩, ?_, ?_, ?_⟩
  · exact fun o ho => absurd ho (hnil o)
  · exact fun o ho => absurd ho (hnil o)
  · exact fun o ho => absurd ho (hnil o)
  · intro l
    have hno : users s.attached l = ∅ := by
      ext b
      simp [users, hatt b]
    rw [hno]
    exact Set.finite_empty
  · exact fun l hl => absurd hl (hlive l)
  · exact fun b l hb => absurd ((hatt b).symm.trans hb) (by simp)
  · simp [h.plugs]
  · simp [h.plugs]
  · exact fun l hl => absurd hl (hlive l)

/-! ### The result -/

/-- **Ring attachments.** In every run whose calls meet the condition the header of every
ring counts the ringbuffers attached to the ring and names plugs attached to it, and no call
that meets the condition takes away a ring that is attached. -/
theorem ring_accounts (h0 : s₀.NoPlugs)
    (hr : Reach plugStep (fun s a => plugFits s a = true) s₀ s) :
    RingAccounts s ∧ ∀ a s', plugFits s a = true → plugStep s a = some s' →
      ∀ o ∈ s.ringObjs, o.hdr.valid = true → ∀ l, s.ringLoc o.body = some l →
        (users s.attached l).Nonempty → o ∈ s'.ringObjs := by
  have hI : PlugInv s :=
    hr.invariant (P := PlugInv) (.of_noPlugs h0) fun hI hfit hs => (hI.step hfit hs).1
  exact ⟨hI.ringAccounts, fun _ _ hfit hs => (hI.step hfit hs).2⟩

/-- A HAL without rings and plugs. -/
def noPlugs : PlugHal := { noRings with plugs := [] }

lemma noPlugs_noPlugs : noPlugs.NoPlugs := by
  refine ⟨⟨noRings_noRings.objs, noRings_noRings.rings, noRings_noRings.slots⟩, ?_, ?_, rfl⟩
  · intro i hm
    simp [noPlugs, noRings] at hm
  · exact fun rb => rfl

/-- A component, as the owner of plugs. -/
def plugOwner : Halhdr :=
  { id := 5, ownerId := 0, name := "demo", refcnt := 0, legacy := false, valid := true
    rmb := false, wmb := false }

/-- A ring with a ringbuffer, a reader and a writer; the reader goes. -/
def pluggedRing : List PlugAct :=
  [.ring (.ringNewfv ⟨some ⟨64, 1⟩, none, true⟩ 128 0 0 (some "fifo")),
    .ring (.ringAttachfv ⟨none, none, true⟩ (some 0) "fifo"),
    .plugNew ⟨⟨some ⟨128, 2⟩, none, true⟩, some plugOwner, none⟩
      ⟨.plugReader, 0, some "fifo", 0⟩,
    .plugNew ⟨⟨some ⟨192, 3⟩, none, true⟩, some plugOwner, none⟩
      ⟨.plugWriter, 3, none, 1⟩,
    .plugDelete 128, .ring (.ringDeletefv ⟨none, none, true⟩ "fifo")]

/-- The writer and the ringbuffer are left. -/
theorem ring_accounts_pluggedRing : ∃ s,
    run plugStep plugFits noPlugs pluggedRing = some s ∧
    s.validRings.map (fun o => s.ringLoc o.body) = [some (.shm 1)] ∧
    (s.headerAt (.shm 1)).refcount = 2 ∧ (s.headerAt (.shm 1)).writer = 3 ∧ RingAccounts s := by
  have hs : (run plugStep plugFits noPlugs pluggedRing).map (fun s =>
      (s.validRings.map (fun o => s.ringLoc o.body), (s.headerAt (.shm 1)).refcount,
        (s.headerAt (.shm 1)).writer)) = some ([some (.shm 1)], 2, 3) := by decide
  obtain ⟨s, hs, hv, hr⟩ := run_map hs
  simp only [Prod.mk.injEq] at hv
  exact ⟨s, hs, hv.1, hv.2.1, hv.2.2, (ring_accounts noPlugs_noPlugs hr).1⟩

/-- A ring with a ringbuffer is created again: it goes away. -/
theorem ring_accounts_duplicate :
    ¬ ∀ s₀ s : PlugHal, s₀.NoPlugs → Reach plugStep (fun _ _ => true = true) s₀ s →
      RingAccounts s ∧ ∀ a s', plugStep s a = some s' →
        ∀ o ∈ s.ringObjs, o.hdr.valid = true → ∀ l, s.ringLoc o.body = some l →
          (users s.attached l).Nonempty → o ∈ s'.ringObjs := by
  intro h
  have hs : (run plugStep (fun _ _ => true) noPlugs (pluggedRing.take 2)).map (fun s =>
      (s.ringObjs.map (fun o => (o.hdr.valid, s.ringLoc o.body)), s.attached 0,
        (plugStep s (.ring (.ringNewfv ⟨some ⟨128, 2⟩, none, true⟩ 128 0 0 (some "fifo")))).map
          fun s' => s'.ringObjs.map fun o => o.hdr.valid))
      = some ([(true, some (.shm 1))], some (.shm 1), some [false]) := by decide
  obtain ⟨s, -, hv, hr⟩ := run_map hs
  simp only [Prod.mk.injEq] at hv
  obtain ⟨hobjs, hatt, hstep⟩ := hv
  obtain ⟨s', hs', hvalid⟩ := Option.map_eq_some_iff.1 hstep
  obtain ⟨o, ho, heq⟩ := List.mem_map.1 (hobjs.symm ▸ List.mem_singleton_self _)
  simp only [Prod.mk.injEq] at heq
  have hin := (h _ s noPlugs_noPlugs hr).2 _ s' hs' o ho heq.1 _ heq.2
    ⟨0, hatt⟩
  have hmem : true ∈ s'.ringObjs.map fun o => o.hdr.valid := heq.1 ▸ List.mem_map_of_mem hin
  rw [hvalid] at hmem
  exact absurd hmem (by decide)

end MachinekitHal
