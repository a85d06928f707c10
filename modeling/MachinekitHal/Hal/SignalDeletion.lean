import MachinekitHal.Hal.WiringRuns

/-!
A deletion of a signal that fails.

`free_sig_struct` unlinks the pins of the signal before `halg_free_object` finds it
referenced.

* `SignalGone`, `FailsWhole`: the deletion has been made, or has failed and changed nothing.
* `DeletionUnlinks`: pins are linked to a signal that is referenced.
* `signal_deletion`: the deletion is made or fails whole exactly if this is not so.
-/

namespace MachinekitHal

open Store Runs

variable {α σ : Type} {h : Hal} {s s₀ : GroupHal} {name : String}

/-- The signal of the name is not valid any more. -/
def SignalGone (h h' : Hal) (name : String) : Prop :=
  ∃ sig, findByName name h.sigs = some sig ∧ ∀ g ∈ h'.sigs, g.off = sig.off → g.hdr.valid = false

/-- A failed call that left links, counts and values alone. -/
structure FailsWhole (h : Hal) (r : Option Errno × Hal) : Prop where
  error : r.1.isSome = true
  pins : r.2.pins = h.pins
  sigs : r.2.sigs = h.sigs
  cells : r.2.cells = h.cells

/-- A deletion that does not delete the signal fails whole. -/
def Hal.DeletionAtomic (h : Hal) (name : String) : Prop :=
  ¬ SignalGone h (h.halgSignalDelete name).2 name → FailsWhole h (h.halgSignalDelete name)

/-- The signal to be deleted is referenced, and pins are linked to it. -/
def Hal.DeletionUnlinks (h : Hal) (name : String) : Prop :=
  h.locked halLockConfig = false ∧ ¬ halNameLen < name.length ∧
    ∃ sig, findByName name h.sigs = some sig ∧ sig.hdr.refcnt ≠ 0 ∧
      ∃ p ∈ h.pins, p.hdr.valid = true ∧ p.body.signal = sig.off

/-- No pin is linked to a signal whose pins were all unlinked. -/
lemma Linkage.unlinkAll_asV2 (hL : Linkage h.asV2) {sig : ℕ} (h0 : sig ≠ 0) :
    ∀ p ∈ (h.foreachPinBySignal sig fun off h => h.unlinkPin off).pins,
      p.hdr.valid = true → p.body.signal ≠ sig := by
  intro p hp hv
  refine (hL.unlinkAll sig h0).2 p.asV2 ?_ hv
  rw [← h.asV2_foreachPinBySignal sig fun off h => h.asV2_unlinkPin off]
  exact List.mem_map_of_mem hp

/-- The deletion of a signal that is referenced: its pins are unlinked, and it stays. -/
lemma freeSigStruct_referenced (hnd : (h.sigs.map Obj.off).Nodup) {sig : Obj Sig}
    (hs : sig ∈ h.sigs) (hr : sig.hdr.refcnt ≠ 0) :
    h.freeSigStruct sig =
      (some .EBUSY, h.foreachPinBySignal sig.off fun off h => h.unlinkPin off) := by
  have hsame := SameObjs.unlinkAll h sig.off
  rw [Hal.freeSigStruct]
  generalize h.foreachPinBySignal sig.off (fun off h => h.unlinkPin off) = t at hsame
  have hmem : (sig.off, sig.hdr) ∈ headersOf t.sigs := hsame.sigs ▸ mem_headersOf hs
  obtain ⟨g, hg, hge⟩ := List.mem_map.mp hmem
  obtain ⟨hgo, hgh⟩ := Prod.mk.inj hge
  have hkeys : t.sigs.map Obj.off = h.sigs.map Obj.off := (SameOffs.of_sameObjs hsame).sigs
  have hfree : halgFreeObject sig.off t.sigs = t.sigs := by
    rw [← hgo]
    exact halgFreeObject_of_ref (hkeys ▸ hnd) hg (hgh ▸ hr)
  simp only [hfree, freeRc, if_pos hr]

/-- The deletion of a signal that is not referenced is made. -/
lemma signalGone_of_unreferenced (hnd : (h.sigs.map Obj.off).Nodup) {sig : Obj Sig}
    (hf : findByName name h.sigs = some sig) (hr : sig.hdr.refcnt = 0) :
    SignalGone h (h.freeSigStruct sig).2 name := by
  refine ⟨sig, hf, fun g hg hgo => ?_⟩
  have hsame := SameObjs.unlinkAll h sig.off
  obtain ⟨a, ha, rfl⟩ := mem_modify.mp hg
  have hao : a.off = sig.off := by
    by_cases hk : a.off = sig.off
    · exact hk
    · rwa [if_neg hk] at hgo
  obtain ⟨b, hb, hbe⟩ := List.mem_map.mp (hsame.sigs ▸ mem_headersOf ha)
  obtain ⟨hbo, hbh⟩ := Prod.mk.inj hbe
  obtain rfl := eq_of_key hnd hb (findByName_mem hf).1 (hbo.trans hao)
  rw [if_pos hao]
  exact Obj.release_valid (hbh ▸ hr)

/-- As long as the headers of the signals are the same, the signal is there. -/
lemma not_signalGone {h' : Hal} (hs : headersOf h'.sigs = headersOf h.sigs) :
    ¬ SignalGone h h' name := by
  rintro ⟨sig, hf, hgone⟩
  obtain ⟨hsig, hv⟩ := findByName_mem hf
  obtain ⟨g, hg, hge⟩ := List.mem_map.mp (hs ▸ mem_headersOf hsig)
  obtain ⟨hgo, hgh⟩ := Prod.mk.inj hge
  have hgv := hgone g hg hgo
  rw [hgh, hv] at hgv
  exact Bool.true_eq_false.mp hgv

/-- A deletion is made or fails whole, exactly if it does not unlink the pins of a signal that is
referenced. -/
lemma deletionAtomic_iff (hL : Linkage h.asV2) :
    h.DeletionAtomic name ↔ ¬ h.DeletionUnlinks name := by
  have hnd : (h.sigs.map Obj.off).Nodup := hL.sigKeys
  have hrefused : ∀ e, ¬ SignalGone h h name → FailsWhole h (some e, h) :=
    fun _ _ => ⟨rfl, rfl, rfl, rfl⟩
  rw [Hal.DeletionAtomic, Hal.DeletionUnlinks, Hal.halgSignalDelete]
  by_cases hlock : h.locked halLockConfig = true
  · rw [if_pos hlock]
    exact iff_of_true (hrefused _) (by simp [hlock])
  rw [if_neg hlock]
  by_cases hlen : halNameLen < name.length
  · rw [if_pos hlen]
    exact iff_of_true (hrefused _) fun hu => hu.2.1 hlen
  rw [if_neg hlen]
  cases hf : findByName name h.sigs with
  | none => exact iff_of_true (hrefused _) (by simp)
  | some sig =>
  have hs := (findByName_mem hf).1
  by_cases hr : sig.hdr.refcnt = 0
  · refine iff_of_true (fun hno => absurd (signalGone_of_unreferenced hnd hf hr) hno) ?_
    rintro ⟨-, -, g, hg, hgr, -⟩
    exact hgr (Option.some.inj hg ▸ hr)
  -- a referenced signal stays, so the call has to have changed nothing
  dsimp only
  rw [freeSigStruct_referenced hnd hs hr]
  constructor
  · rintro hat ⟨-, -, g, hg, -, p, hp, hv, hps⟩
    cases hg
    have hfail := hat (not_signalGone (SameObjs.unlinkAll h sig.off).sigs)
    have hp' : p ∈ (h.foreachPinBySignal sig.off fun off h => h.unlinkPin off).pins := by
      rwa [hfail.pins]
    exact hL.unlinkAll_asV2 (hL.sigNe sig hs) p hp' hv hps
  · intro hno
    have hnone : (h.foreachPinBySignal sig.off fun off h => h.unlinkPin off) = h := by
      refine halgForeach_none fun p hp hv => ?_
      by_contra hsel
      refine hno ⟨by simpa using hlock, hlen, sig, rfl, hr, p, hp, hv, ?_⟩
      simpa [pinLinkedTo] using hsel
    rw [hnone]
    exact hrefused _

/-- **Failing signal deletion.** In every state reached, `halg_signal_delete` deletes the signal
or fails and leaves links, counts and values as they were, exactly if the signal is not
referenced while pins are linked to it. -/
theorem signal_deletion (h0 : s₀.Unwired)
    (hr : Reach wireStep (fun s a => wireAlloc s a = true) s₀ s) (name : String) :
    s.toHal.DeletionAtomic name ↔ ¬ s.toHal.DeletionUnlinks name :=
  deletionAtomic_iff (wired_reach h0 hr).linkage

/-- A HAL with one component and no groups. -/
def oneCompGroups : GroupHal := { oneComp with groups := [], members := [], vtables := [] }

lemma oneCompGroups_unwired : oneCompGroups.Unwired := ⟨by decide, rfl, rfl⟩

/-- An output pin with the value 7 is linked to a signal, which becomes the member of a group. -/
def memberSignal : List WireAct :=
  [.link (.pinNew (some ⟨128, 2⟩) .halS32 .halOut none 1 7 "out"),
    .link (.signalNew (some ⟨256, 3⟩) "sig" .halS32), .link (.link "out" "sig"),
    .group (.groupNew (some ⟨384, 4⟩) "grp" 0 0),
    .group (.memberNew (some ⟨512, 5⟩) "grp" "sig" 0 0)]

/-- Once the pin is unlinked, the deletion is refused and nothing changes. -/
theorem signal_deletion_memberSignal :
    ∃ s, run wireStep wireAlloc oneCompGroups (memberSignal ++ [.link (.unlink "out")]) = some s ∧
      (s.halgSignalDelete "sig").1 = some .EBUSY ∧
      (s.toHal.DeletionAtomic "sig" ↔ ¬ s.toHal.DeletionUnlinks "sig") := by
  have hs : (run wireStep wireAlloc oneCompGroups (memberSignal ++ [.link (.unlink "out")])).map
      (fun s => (s.halgSignalDelete "sig").1) = some (some .EBUSY) := by decide
  obtain ⟨s, hs, hbusy, hr⟩ := run_map hs
  exact ⟨s, hs, hbusy, signal_deletion oneCompGroups_unwired hr "sig"⟩

/-- The deletion of the signal is refused, and the pin is not linked any more. -/
theorem signal_deletion_fails : ¬ ∀ s₀ s : GroupHal, s₀.Unwired →
    Reach wireStep (fun s a => wireAlloc s a = true) s₀ s →
      ∀ name, s.toHal.DeletionAtomic name := by
  intro hall
  have hs : (run wireStep wireAlloc oneCompGroups memberSignal).map (fun s =>
      (s.pins.map fun p => p.body.signal,
        (s.halgSignalDelete "sig").2.pins.map fun p => p.body.signal,
        (s.halgSignalDelete "sig").2.sigs.map fun g => (g.off, g.hdr.valid))) =
      some ([256], [0], [(256, true)]) := by decide
  have hfind : (run wireStep wireAlloc oneCompGroups memberSignal).map (fun s =>
      (findByName "sig" s.sigs).map fun g => g.off) = some (some 256) := by decide
  obtain ⟨s, hs, hv, hr⟩ := run_map hs
  simp only [Prod.mk.injEq] at hv
  obtain ⟨hbefore, hafter, hsigs⟩ := hv
  rw [hs, Option.map_some, Option.some.injEq] at hfind
  have hfail := hall _ s oneCompGroups_unwired hr "sig" ?_
  · rw [hfail.pins, hbefore] at hafter
    exact absurd hafter (by decide)
  · rintro ⟨sig, hf, hgone⟩
    have hoff : sig.off = 256 := by simpa [hf] using hfind
    obtain ⟨g, hg, hge⟩ := List.mem_map.mp (hsigs ▸ List.mem_singleton_self (256, true))
    obtain ⟨hgo, hgv⟩ := Prod.mk.inj hge
    rw [hgone g hg (hgo.trans hoff.symm)] at hgv
    exact Bool.false_ne_true hgv

end MachinekitHal
