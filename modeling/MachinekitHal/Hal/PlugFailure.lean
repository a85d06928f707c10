import MachinekitHal.Hal.PlugAccounts

/-!
`halg_plug_new` that returns NULL.

* `plugAtFail`: the variable `plug` at the label `FAIL`, and whether the call has set it.
* `PlugFailsClean`: a failing call leaves objects and headers as they were, and the label sees
  no pointer that the call has not set.
* `JumpsPast`: the call jumps to the label past the initialization of `plug`, whose memory
  holds a pointer.
* `plug_failure`: a failing call is clean exactly if it does not.
* `plug_failure_twice`: a second plug of the same name fails and frees the first.
-/

namespace MachinekitHal

open Store Runs

/-- The variable `plug` of a call at the label `FAIL`. -/
structure PlugAtFail where
  plug : Option ℕ
  isSet : Bool

/-- `plug` at the label `FAIL` of `halg_plug_new`, if the call gets there. -/
def plugAtFail (e : PlugEnv) (args : PlugArgs) (s : PlugHal) : Option PlugAtFail :=
  if s.locked halLockLoad then none else
  match e.owner with
  | none => none
  | some owner =>
    match s.plugChecks args owner with
    -- the declaration `hal_plug_t *plug = NULL` comes after these jumps
    | none => some ⟨e.stale, false⟩
    | some (ring, plugname) =>
      let body : HalPlug := { flags := args.flags, ringId := ring.hdr.id.toInt, role := args.type }
      match halgCreateObject e.desc owner.id.toInt plugname body with
      | none => some ⟨none, true⟩
      | some plug =>
        match (halgRingAttachfv e.toRingEnv (some (plugRb plug.off)) ring.hdr.name
          s.toRingHal).1 with
        | some _ => some ⟨some plug.off, true⟩
        | none => none

/-- What a failing `halg_plug_new` should leave: all objects, the headers of the rings with
their counts and marks, and every pointer that is not its own. -/
structure PlugFailsClean (e : PlugEnv) (args : PlugArgs) (s : PlugHal) : Prop where
  hal : (halgPlugNew e args s).2.toHal = s.toHal
  rings : (halgPlugNew e args s).2.ringObjs = s.ringObjs
  plugs : (halgPlugNew e args s).2.plugs = s.plugs
  headers : ∀ l, (halgPlugNew e args s).2.headerAt l = s.headerAt l
  pointers : ∀ x, plugAtFail e args s = some x → x.isSet = false → x.plug = none

/-- A call is not refused before it looks for the ring, one of its tests fails, and there is a
pointer in the memory of `plug`. -/
structure JumpsPast (e : PlugEnv) (args : PlugArgs) (s : PlugHal) : Prop where
  unlocked : s.locked halLockLoad = false
  tests : ∃ owner, e.owner = some owner ∧ s.plugChecks args owner = none
  pointer : e.stale ≠ none

variable {s : PlugHal} {e : PlugEnv} {args : PlugArgs}

/-! ### The ways to fail -/

/-- A ring that cannot be attached leaves everything as it was. -/
lemma halgRingAttachfv_error {s t : RingHal} {e : RingEnv} {b : Option ℕ} {fmt : String}
    {err : Errno} (h : halgRingAttachfv e b fmt s = (some err, t)) : t = s := by
  rw [halgRingAttachfv] at h
  split at h
  · exact (Prod.mk.inj h).2.symm
  · split at h
    · exact (Prod.mk.inj h).2.symm
    · next o ho =>
        split at h
        · simp at h
        · next rb =>
            cases hl : s.ringLoc o.body with
            | none =>
              obtain ⟨_, hmap⟩ := @ringMap_of_noLoc _ e _ hl
              rw [hmap] at h
              exact (Prod.mk.inj h).2.symm
            | some l => simp [ringMap_of_ringLoc hl] at h

/-- **What `halg_plug_new` can do**: be refused, fail a test, fail with its variable set, or
make a plug. -/
lemma halgPlugNew_cases (e : PlugEnv) (args : PlugArgs) (s : PlugHal) :
    (halgPlugNew e args s = (none, s) ∧ ∀ x, plugAtFail e args s = some x → x.isSet = true) ∨
    (∃ owner, s.locked halLockLoad = false ∧ e.owner = some owner ∧
      s.plugChecks args owner = none ∧ halgPlugNew e args s = (none, s.plugFail e.stale) ∧
      plugAtFail e args s = some ⟨e.stale, false⟩) ∨
    (halgPlugNew e args s).1 ≠ none := by
  by_cases hl : s.locked halLockLoad = true
  · exact .inl (by simp [halgPlugNew, plugAtFail, hl])
  cases howner : e.owner with
  | none => exact .inl (by simp [halgPlugNew, plugAtFail, hl, howner])
  | some owner =>
  cases hchk : s.plugChecks args owner with
  | none =>
    exact .inr (.inl ⟨owner, by simpa using hl, rfl, hchk,
      by simp [halgPlugNew, hl, howner, hchk], by simp [plugAtFail, hl, howner, hchk]⟩)
  | some found =>
  obtain ⟨ring, plugname⟩ := found
  cases hnew : halgCreateObject e.desc owner.id.toInt plugname
      { flags := args.flags, ringId := ring.hdr.id.toInt, role := args.type : HalPlug } with
  | none =>
    exact .inl (by
      simp [halgPlugNew, plugAtFail, hl, howner, hchk, hnew, PlugHal.plugFail])
  | some plug =>
  rcases hatt : halgRingAttachfv e.toRingEnv (some (plugRb plug.off)) ring.hdr.name s.toRingHal
    with ⟨err | err, t⟩
  · exact .inr (.inr (by simp [halgPlugNew, hl, howner, hchk, hnew, hatt]))
  · -- the descriptor was made and is given back, and the ring was not attached
    obtain rfl := halgRingAttachfv_error hatt
    exact .inl (by simp [halgPlugNew, plugAtFail, hl, howner, hchk, hnew, hatt])

/-! ### The result -/

/-- **Failing plug creation.** A `halg_plug_new` that returns NULL leaves objects and headers
as they were and uses no pointer that it did not set, exactly if it does not jump past the
initialization of `plug` while there is a pointer in its memory. -/
theorem plug_failure (e : PlugEnv) (args : PlugArgs) (s : PlugHal) :
    ((halgPlugNew e args s).1 = none → PlugFailsClean e args s) ↔ ¬ JumpsPast e args s := by
  have hclean : halgPlugNew e args s = (none, s) →
      (∀ x, plugAtFail e args s = some x → x.isSet = false → x.plug = none) →
      PlugFailsClean e args s :=
    fun h hp => ⟨by rw [h], by rw [h], by rw [h], fun l => by rw [h], hp⟩
  constructor
  · rintro himp ⟨hl, ⟨owner, howner, hchk⟩, hstale⟩
    have hnew : halgPlugNew e args s = (none, s.plugFail e.stale) := by
      simp [halgPlugNew, hl, howner, hchk]
    have hfail : plugAtFail e args s = some ⟨e.stale, false⟩ := by
      simp [plugAtFail, hl, howner, hchk]
    exact hstale ((himp (by rw [hnew])).pointers _ hfail rfl)
  · intro hno hnull
    rcases halgPlugNew_cases e args s with
      ⟨h, hset⟩ | ⟨owner, hl, howner, hchk, h, hfail⟩ | h
    · refine hclean h fun x hx hfalse => ?_
      rw [hset x hx] at hfalse
      exact absurd hfalse (by simp)
    · have hstale : e.stale = none := by
        by_contra hs
        exact hno ⟨hl, ⟨owner, howner, hchk⟩, hs⟩
      rw [hstale] at h hfail
      refine hclean h fun x hx _ => ?_
      rw [← Option.some.inj (hfail.symm.trans hx)]
    · exact absurd hnull h

/-- A ring and a plug. -/
def readerPlug : List PlugAct :=
  [.ring (.ringNewfv ⟨some ⟨64, 1⟩, none, true⟩ 128 0 0 (some "fifo")),
    .plugNew ⟨⟨some ⟨128, 2⟩, none, true⟩, some plugOwner, none⟩ ⟨.plugReader, 0, some "fifo", 0⟩]

/-- The plug is made again, and the variable is where that of the first call was. -/
theorem plug_failure_twice : ¬ ∀ (s₀ s : PlugHal) (e : PlugEnv) (args : PlugArgs), s₀.NoPlugs →
    Reach plugStep (fun s a => plugFits s a = true) s₀ s → (halgPlugNew e args s).1 = none →
      PlugFailsClean e args s := by
  intro hall
  have hs : (run plugStep plugFits noPlugs readerPlug).map (fun s =>
      (s.plugs.map fun p => p.hdr.valid,
        (halgPlugNew ⟨⟨some ⟨192, 3⟩, none, true⟩, some plugOwner, some 128⟩
          ⟨.plugReader, 0, some "fifo", 0⟩ s).1,
        (halgPlugNew ⟨⟨some ⟨192, 3⟩, none, true⟩, some plugOwner, some 128⟩
          ⟨.plugReader, 0, some "fifo", 0⟩ s).2.plugs.map fun p => p.hdr.valid)) =
      some ([true], none, [false]) := by decide
  obtain ⟨s, -, hv, hr⟩ := run_map hs
  simp only [Prod.mk.injEq] at hv
  obtain ⟨hbefore, hnull, hafter⟩ := hv
  have hclean := hall _ s _ _ noPlugs_noPlugs hr hnull
  rw [hclean.plugs, hbefore] at hafter
  exact absurd hafter (by decide)

end MachinekitHal
