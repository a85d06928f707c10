import MachinekitHal.Hal.SignalDeletion
import Mathlib.Data.List.TakeWhile

/-!
`halcmd_commands.c`: the command `delsig`.

The iterator deletes the signals it visits, in the order of the list, and stops at the first
that cannot be deleted. It selects by name for `all`, and visits every signal for another name.

* `foreachSig`: `halg_foreach` over the signals, with a callback whose error stops it.
* `doDelsigCmd`: the command.
* `NamedDeleted`, `AllDeleted`: what it should do for the name of a signal and for `all`.
* `Deletions`, `foreachSig_delete`: what the traversal does.
* `DelsigRight`, `delsig_command`: when it does what it should.
-/

namespace MachinekitHal

open Store Runs

variable {h h' t : Hal} {name : String}

namespace Hal

/-- `halg_foreach` over the signals at the given offsets. -/
def foreachSig (sel : String → Bool) (cb : String → Hal → Option Errno × Hal) :
    List ℕ → Hal → Option Errno × Hal
  | [], h => (none, h)
  | off :: offs, h =>
    match h.sigAt off with
    | none => foreachSig sel cb offs h
    | some g =>
      if g.hdr.valid && sel g.hdr.name then
        match cb g.hdr.name h with
        | (some e, h) => (some e, h)
        | (none, h) => foreachSig sel cb offs h
      else foreachSig sel cb offs h

/-- `unlocked_delete_halobject` for a signal. -/
def unlockedDeleteHalobject (name : String) (h : Hal) : Option Errno × Hal :=
  h.halgSignalDelete name

/-- `args.name`: no name selects every signal. -/
def delsigName (sigName : String) : Option String :=
  if sigName ≠ "all" then none else some sigName

/-- `do_delsig_cmd`. -/
def doDelsigCmd (h : Hal) (sigName : String) : Option Errno × Hal :=
  foreachSig (fun n => (delsigName sigName).all (· == n)) unlockedDeleteHalobject
    (h.sigs.map Obj.off) h

/-- The first checks of `halg_signal_delete` pass. -/
def accepts (h : Hal) (name : String) : Bool :=
  !h.locked halLockConfig && decide (name.length ≤ halNameLen)

/-- A signal with this header can be deleted: it is not referenced, either. -/
def deletable (h : Hal) (hh : Halhdr) : Bool := h.accepts hh.name && hh.refcnt == 0

end Hal

/-- The signal at `off` is gone, and no pin is linked to it. -/
structure SignalDeleted (h : Hal) (off : ℕ) : Prop where
  gone : ∀ g ∈ h.sigs, g.off = off → g.hdr.valid = false
  unlinked : ∀ p ∈ h.pins, p.hdr.valid = true → p.body.signal ≠ off

/-- Exactly the signal of the name is deleted: the other signals and links are as they were,
it is deleted if it can be, and success is returned only if it was. -/
structure NamedDeleted (h : Hal) (name : String) (r : Option Errno × Hal) : Prop where
  others : ∀ g ∈ h.sigs, g.hdr.valid = true → g.hdr.name ≠ name → g ∈ r.2.sigs
  links : ∀ p ∈ h.pins, p.hdr.valid = true →
    (∀ g ∈ h.sigs, g.hdr.valid = true → g.hdr.name = name → p.body.signal ≠ g.off) → p ∈ r.2.pins
  deleted : ∀ g ∈ h.sigs, g.hdr.valid = true → g.hdr.name = name → h.deletable g.hdr = true →
    r.1 = none
  reported : r.1 = none →
    ∃ g ∈ h.sigs, g.hdr.valid = true ∧ g.hdr.name = name ∧ SignalDeleted r.2 g.off

/-- Exactly the signals that can be deleted are deleted. -/
structure AllDeleted (h : Hal) (r : Option Errno × Hal) : Prop where
  deleted : ∀ g ∈ h.sigs, g.hdr.valid = true → h.deletable g.hdr = true →
    SignalDeleted r.2 g.off
  others : ∀ g ∈ h.sigs, g.hdr.valid = true → h.deletable g.hdr = false →
    ∃ g' ∈ r.2.sigs, g'.off = g.off ∧ g'.hdr = g.hdr

/-- What `delsig` should do. -/
def DelsigMeant (h : Hal) (name : String) : Prop :=
  if name = "all" then AllDeleted h (h.doDelsigCmd name)
  else NamedDeleted h name (h.doDelsigCmd name)

/-! ### One deletion -/

/-- The header of a signal that could be deleted is not valid after its release. -/
lemma release_of_deletable {hh : Halhdr} (hd : h.deletable hh = true) :
    hh.release.valid = false := by
  simp only [Hal.deletable, Bool.and_eq_true, beq_iff_eq] at hd
  rw [Halhdr.release, if_neg (not_not.2 hd.2)]
  rfl

/-- Only the signal at `off` and the pins linked to it were changed. -/
structure OnlySig (off : ℕ) (h h' : Hal) : Prop where
  lock : h'.lock = h.lock
  sigKeys : h'.sigs.map Obj.off = h.sigs.map Obj.off
  pinKeys : h'.pins.map Obj.off = h.pins.map Obj.off
  sigs : ∀ g ∈ h.sigs, g.off ≠ off → g ∈ h'.sigs
  pins : ∀ p ∈ h.pins, p.body.signal ≠ off → p ∈ h'.pins

namespace OnlySig

variable {off : ℕ}

lemma refl (off : ℕ) (h : Hal) : OnlySig off h h :=
  ⟨rfl, rfl, rfl, fun _ hg _ => hg, fun _ hp _ => hp⟩

lemma trans (h₁ : OnlySig off h h') (h₂ : OnlySig off h' t) : OnlySig off h t :=
  ⟨h₂.lock.trans h₁.lock, h₂.sigKeys.trans h₁.sigKeys, h₂.pinKeys.trans h₁.pinKeys,
    fun g hg hne => h₂.sigs g (h₁.sigs g hg hne) hne,
    fun p hp hne => h₂.pins p (h₁.pins p hp hne) hne⟩

/-- Unlinking a pin of the signal. -/
lemma unlinkPin (hnd : (h.pins.map Obj.off).Nodup) {p : Obj Pin} (hp : p ∈ h.pins)
    (hs : p.body.signal = off) : OnlySig off h (h.unlinkPin p.off) := by
  have hat : h.pinAt p.off = some p := (at?_eq_some hnd).2 ⟨hp, rfl⟩
  rw [Hal.unlinkPin, hat]
  dsimp only
  split
  · have hsigs : (h.setCell p (.dummysig p.off)).sigs = h.sigs := by simp
    have hpins : (h.setCell p (.dummysig p.off)).pins = h.pins := by simp
    refine ⟨?_, ?_, ?_, fun g hg hne => ?_, fun q hq hne => ?_⟩
    · rw [Hal.setCell]
      split <;> rfl
    · refine Eq.trans ?_ (congrArg (List.map Obj.off) hsigs)
      exact keys_modify fun _ => rfl
    · refine Eq.trans ?_ (congrArg (List.map Obj.off) hpins)
      exact keys_modify fun _ => rfl
    · exact mem_modify_of_ne (hsigs.symm ▸ hg) (by rwa [hs])
    · refine mem_modify_of_ne (hpins.symm ▸ hq) fun hoff => hne ?_
      rw [eq_of_key hnd hq hp hoff, hs]
  · exact refl off h

/-- Unlinking all pins of the signal. -/
lemma unlinkAll (hnd : (h.pins.map Obj.off).Nodup) (off : ℕ) :
    OnlySig off h (h.foreachPinBySignal off fun o h => h.unlinkPin o) :=
  halgForeach_rule (P := OnlySig off h)
    (fun _ _ hu hp _ hsel =>
      hu.trans (unlinkPin (hu.pinKeys.symm ▸ hnd) hp (by simpa [pinLinkedTo] using hsel)))
    (refl off h)

lemma freeSig (hs : OnlySig off h h') :
    OnlySig off h { h' with sigs := halgFreeObject off h'.sigs } :=
  ⟨hs.lock, (keys_free off _).trans hs.sigKeys, hs.pinKeys,
    fun g hg hne => mem_modify_of_ne (hs.sigs g hg hne) hne, hs.pins⟩

end OnlySig

/-- What deletes a signal that is found. -/
lemma delete_accepted {g : Obj Sig} (hf : findByName g.hdr.name h.sigs = some g)
    (ha : h.accepts g.hdr.name = true) :
    Hal.unlockedDeleteHalobject g.hdr.name h = h.freeSigStruct g := by
  simp only [Hal.accepts, Bool.and_eq_true, Bool.not_eq_true', decide_eq_true_eq] at ha
  rw [Hal.unlockedDeleteHalobject, Hal.halgSignalDelete, if_neg (by simp [ha.1]),
    if_neg (not_lt.2 ha.2), hf]

lemma pinKeys_of_asV2 (hL : Linkage h.asV2) : (h.pins.map Obj.off).Nodup := by
  have hk := hL.pinKeys
  rwa [Hal.asV2, List.map_map] at hk

/-- **A signal that can be deleted** is deleted, and nothing else is changed. -/
lemma delete_deletable (hL : Linkage h.asV2) {g : Obj Sig}
    (hf : findByName g.hdr.name h.sigs = some g) (hd : h.deletable g.hdr = true) :
    ∃ h', Hal.unlockedDeleteHalobject g.hdr.name h = (none, h') ∧ OnlySig g.off h h' ∧
      Linkage h'.asV2 ∧ headersOf h'.sigs =
        modify Prod.fst g.off (fun x => (x.1, x.2.release)) (headersOf h.sigs) := by
  simp only [Hal.deletable, Bool.and_eq_true, beq_iff_eq] at hd
  obtain ⟨ha, hr⟩ := hd
  have heq := delete_accepted hf ha
  have hstep : linkStep h (.signalDelete g.hdr.name) = some (h.freeSigStruct g).2 := by
    rw [← heq]
    rfl
  refine ⟨(h.freeSigStruct g).2, ?_, (OnlySig.unlinkAll (pinKeys_of_asV2 hL) g.off).freeSig,
    Hal.linkage_asV2_step hL rfl hstep, ?_⟩
  · rw [heq, Hal.freeSigStruct, freeRc, if_neg (not_not.2 hr)]
  · refine (headersOf_free g.off).trans ?_
    rw [(SameObjs.unlinkAll h g.off).sigs]

/-- **A signal that cannot be deleted** stays, and its pins are unlinked if it is referenced. -/
lemma delete_refused (hL : Linkage h.asV2) {g : Obj Sig}
    (hf : findByName g.hdr.name h.sigs = some g) (hd : h.deletable g.hdr = false) :
    ∃ e, Hal.unlockedDeleteHalobject g.hdr.name h = (some e,
      if h.accepts g.hdr.name then h.foreachPinBySignal g.off fun o h => h.unlinkPin o else h) := by
  by_cases ha : h.accepts g.hdr.name = true
  · have hr : g.hdr.refcnt ≠ 0 := by simpa [Hal.deletable, ha] using hd
    have hg := (findByName_mem hf).1
    exact ⟨.EBUSY, by
      rw [if_pos ha, delete_accepted hf ha, freeSigStruct_referenced (h := h) hL.sigKeys hg hr]⟩
  · rw [if_neg ha, Hal.unlockedDeleteHalobject, Hal.halgSignalDelete]
    by_cases hlock : h.locked halLockConfig = true
    · exact ⟨_, if_pos hlock⟩
    · have hlen : halNameLen < g.hdr.name.length := by
        simpa [Hal.accepts, hlock] using ha
      exact ⟨_, by rw [if_neg hlock, if_pos hlen]⟩

/-! ### The traversal -/

/-- The headers that a selection visits. -/
def selected (sel : String → Bool) (l : List (ℕ × Halhdr)) : List (ℕ × Halhdr) :=
  l.filter fun x => x.2.valid && sel x.2.name

/-- The signals in front of the first that cannot be deleted. -/
def Hal.doomed (h : Hal) (l : List (ℕ × Halhdr)) : List (ℕ × Halhdr) :=
  l.takeWhile fun x => h.deletable x.2

/-- The traversal deletes the doomed of the visited signals `v`. If it does not fail, the rest
is as it was; if it fails at the first, the pins of that may be unlinked. -/
structure Deletions (v : List (ℕ × Halhdr)) (h : Hal) (r : Option Errno × Hal) : Prop where
  rc : r.1 = none ↔ h.doomed v = v
  linkage : Linkage r.2.asV2
  sigKeys : r.2.sigs.map Obj.off = h.sigs.map Obj.off
  gone : ∀ x ∈ h.doomed v, ∀ g ∈ r.2.sigs, g.off = x.1 → g.hdr.valid = false
  kept : ∀ x ∈ headersOf h.sigs, x ∉ h.doomed v → x ∈ headersOf r.2.sigs
  sigs : r.1 = none → ∀ g ∈ h.sigs, (g.off, g.hdr) ∉ v → g ∈ r.2.sigs
  pins : r.1 = none → ∀ p ∈ h.pins, (∀ x ∈ v, p.body.signal ≠ x.1) → p ∈ r.2.pins
  refused : ∀ x ∈ v.head?, h.deletable x.2 = false → r.2 =
    if h.accepts x.2.name then h.foreachPinBySignal x.1 fun o h => h.unlinkPin o else h

/-- Unlinking the pins of a signal keeps links and counts in order. -/
lemma linkage_unlinkAll (hL : Linkage h.asV2) {g : Obj Sig} (hg : g ∈ h.sigs) :
    Linkage (h.foreachPinBySignal g.off fun o h => h.unlinkPin o).asV2 := by
  rw [h.asV2_foreachPinBySignal g.off fun off h => h.asV2_unlinkPin off]
  exact (hL.unlinkAll g.off (hL.sigNe g hg)).1

/-- The place of a header on the list is the place of its signal. -/
lemma exists_of_headersOf {l : List (Obj Sig)} {front back : List (ℕ × Halhdr)} {x : ℕ × Halhdr}
    (hsplit : headersOf l = front ++ x :: back) :
    ∃ l₁ g l₂, l = l₁ ++ g :: l₂ ∧ headersOf l₁ = front ∧ (g.off, g.hdr) = x ∧
      headersOf l₂ = back := by
  obtain ⟨l₁, l', rfl, hfront, hl'⟩ := List.map_eq_append_iff.1 hsplit
  obtain ⟨g, l₂, rfl, hx, hback⟩ := List.map_eq_cons_iff.1 hl'
  exact ⟨l₁, g, l₂, rfl, hfront, hx, hback⟩

/-- The first signal is deleted, and the traversal goes on. -/
lemma Deletions.cons {v : List (ℕ × Halhdr)} {r : Option Errno × Hal} {g : Obj Sig}
    (hdels : Deletions v h' r) (honly : OnlySig g.off h h') (hL : Linkage h.asV2)
    (hg : g ∈ h.sigs) (hd : h.deletable g.hdr = true) (hv : ∀ x ∈ v, x.1 ≠ g.off)
    (hhdr : ∀ x ∈ headersOf h.sigs, x.1 ≠ g.off → x ∈ headersOf h'.sigs)
    (hgone : (g.off, g.hdr.release) ∈ headersOf h'.sigs) :
    Deletions ((g.off, g.hdr) :: v) h r := by
  have hkeys : (h.sigs.map Obj.off).Nodup := hL.sigKeys
  have hdoom : h.doomed ((g.off, g.hdr) :: v) = (g.off, g.hdr) :: h'.doomed v := by
    have hlock : h'.deletable = h.deletable := by
      funext hh
      simp only [Hal.deletable, Hal.accepts, Hal.locked, honly.lock]
    rw [Hal.doomed, Hal.doomed, hlock]
    exact List.takeWhile_cons_of_pos hd
  have hdoomed : ∀ x ∈ h'.doomed v, x ∈ v := fun x hx => (List.takeWhile_sublist _).mem hx
  refine ⟨?_, hdels.linkage, hdels.sigKeys.trans honly.sigKeys, ?_, ?_, ?_, ?_, ?_⟩
  · rw [hdels.rc, hdoom, List.cons.injEq, and_iff_right rfl]
  · intro x hx g' hg' hoff
    rw [hdoom] at hx
    rcases List.mem_cons.1 hx with rfl | hx
    · have hrest := hdels.kept _ hgone fun hm => hv _ (hdoomed _ hm) rfl
      have hrkeys : ((headersOf r.2.sigs).map Prod.fst).Nodup := by
        rw [headersOf, List.map_map]
        have hk : r.2.sigs.map Obj.off = h.sigs.map Obj.off := hdels.sigKeys.trans honly.sigKeys
        exact hk ▸ hkeys
      have heq := eq_of_key hrkeys (mem_headersOf hg') hrest hoff
      rw [(Prod.mk.inj heq).2, release_of_deletable hd]
    · exact hdels.gone x hx g' hg' hoff
  · intro x hx hno
    rw [hdoom, List.mem_cons, not_or] at hno
    refine hdels.kept x (hhdr x hx fun hoff => hno.1 ?_) hno.2
    have hk : ((headersOf h.sigs).map Prod.fst).Nodup := by
      rwa [headersOf, List.map_map]
    exact eq_of_key hk hx (mem_headersOf hg) hoff
  · intro hrc o ho hno
    rw [List.mem_cons, not_or] at hno
    refine hdels.sigs hrc o (honly.sigs o ho fun hoff => hno.1 ?_) hno.2
    rw [eq_of_key hkeys ho hg hoff]
  · intro hrc p hp hno
    exact hdels.pins hrc p (honly.pins p hp (hno _ (.head _)))
      fun x hx => hno x (.tail _ hx)
  · intro x hx hno
    cases hx
    rw [hd] at hno
    exact absurd hno.symm Bool.false_ne_true

/-- The first signal is refused, and the traversal ends. -/
lemma Deletions.refused_head {v : List (ℕ × Halhdr)} {g : Obj Sig} (hL : Linkage h.asV2)
    (hg : g ∈ h.sigs) (hd : h.deletable g.hdr = false) (e : Errno) :
    Deletions ((g.off, g.hdr) :: v) h (some e, if h.accepts g.hdr.name then
      h.foreachPinBySignal g.off fun o h => h.unlinkPin o else h) := by
  have hnone : h.doomed ((g.off, g.hdr) :: v) = [] :=
    List.takeWhile_cons_of_neg (Bool.eq_false_iff.1 hd)
  have hself : SameObjs h h := ⟨rfl, rfl, rfl, rfl, rfl, rfl, rfl⟩
  have hsame : SameObjs h (if h.accepts g.hdr.name then
      h.foreachPinBySignal g.off fun o h => h.unlinkPin o else h) := by
    split
    · exact .unlinkAll h g.off
    · exact hself
  have hL' : Linkage (if h.accepts g.hdr.name then
      h.foreachPinBySignal g.off fun o h => h.unlinkPin o else h).asV2 := by
    split
    · exact linkage_unlinkAll hL hg
    · exact hL
  refine ⟨by simp [hnone], hL', (SameOffs.of_sameObjs hsame).sigs, by simp [hnone],
    fun y hy _ => hsame.sigs.symm ▸ hy, fun hr => absurd hr (by simp),
    fun hr => absurd hr (by simp), fun x hx _ => ?_⟩
  cases hx
  rfl

/-- The first signal that is selected is the one with its name. -/
lemma findByName_selected {sel : String → Bool} {l₁ l₂ : List (Obj Sig)} {g : Obj Sig}
    (hv : g.hdr.valid = true) (hname : sel g.hdr.name = true)
    (hfront : ∀ o ∈ l₁, o.hdr.valid = true → sel o.hdr.name = false) :
    findByName g.hdr.name (l₁ ++ g :: l₂) = some g := by
  have hno : l₁.find? (fun o => o.hdr.valid && o.hdr.name == g.hdr.name) = none := by
    refine List.find?_eq_none.2 fun o ho hp => ?_
    simp only [Bool.and_eq_true, beq_iff_eq] at hp
    have hsel := hfront o ho hp.1
    rw [hp.2, hname] at hsel
    exact Bool.noConfusion hsel
  rw [findByName, List.find?_append, hno, Option.none_or, List.find?_cons_of_pos (by simp [hv])]

/-- The traversal from a place on; the selected signals in front of it are gone. -/
lemma foreachSig_delete {sel : String → Bool} (hL : Linkage h.asV2)
    {front back : List (ℕ × Halhdr)} (hsplit : headersOf h.sigs = front ++ back)
    (hfront : ∀ x ∈ front, x.2.valid = true → sel x.2.name = false) :
    Deletions (selected sel back) h
      (Hal.foreachSig sel Hal.unlockedDeleteHalobject (back.map Prod.fst) h) := by
  induction back generalizing h front with
  | nil =>
    exact ⟨by simp [selected, Hal.doomed, Hal.foreachSig], hL, rfl,
      by simp [selected, Hal.doomed], fun _ hx _ => hx, fun _ _ hg _ => hg,
      fun _ _ hp _ => hp, by simp [selected]⟩
  | cons x back ih =>
    obtain ⟨l₁, g, l₂, hl, hl₁, hx, -⟩ := exists_of_headersOf hsplit
    have hg : g ∈ h.sigs := by simp [hl]
    have hat : h.sigAt x.1 = some g := (at?_eq_some hL.sigKeys).2 ⟨hg, by rw [← hx]⟩
    rw [List.map_cons, Hal.foreachSig, hat]
    subst hx
    dsimp only
    by_cases hsel : (g.hdr.valid && sel g.hdr.name) = true
    swap
    · have hskip : selected sel ((g.off, g.hdr) :: back) = selected sel back :=
        List.filter_cons_of_neg hsel
      rw [if_neg hsel, hskip]
      refine @ih h hL (front ++ [(g.off, g.hdr)]) (by simpa using hsplit) fun y hy hv => ?_
      rcases List.mem_append.1 hy with hy | hy
      · exact hfront y hy hv
      · obtain rfl := List.mem_singleton.1 hy
        simpa [show g.hdr.valid = true from hv] using hsel
    have hvisit : selected sel ((g.off, g.hdr) :: back) =
        (g.off, g.hdr) :: selected sel back := List.filter_cons_of_pos hsel
    rw [if_pos hsel, hvisit]
    obtain ⟨hv, hname⟩ := Bool.and_eq_true_iff.1 hsel
    have hf : findByName g.hdr.name h.sigs = some g := by
      rw [hl]
      exact findByName_selected hv hname fun o ho hov => hfront _ (hl₁ ▸ mem_headersOf ho) hov
    have hkeys : ((front ++ (g.off, g.hdr) :: back).map Prod.fst).Nodup := by
      have hk : (h.sigs.map Obj.off).Nodup := hL.sigKeys
      rwa [← hsplit, headersOf, List.map_map]
    by_cases hd : h.deletable g.hdr = true
    · obtain ⟨h', hrun, honly, hL', hhdr⟩ := delete_deletable hL hf hd
      rw [hrun]
      have hsplit' : headersOf h'.sigs = (front ++ [(g.off, g.hdr.release)]) ++ back := by
        rw [hhdr, hsplit, List.append_assoc]
        exact modify_middle (a := (g.off, g.hdr)) hkeys
      have hback : ∀ x ∈ back, x.1 ≠ g.off := by
        rw [List.map_append, List.map_cons, List.nodup_append, List.nodup_cons] at hkeys
        exact fun x hx hoff => hkeys.2.1.1 (List.mem_map.2 ⟨x, hx, hoff⟩)
      refine (ih hL' hsplit' fun y hy hv' => ?_).cons honly hL hg hd
        (fun x hx => hback x (List.mem_of_mem_filter hx)) ?_ ?_
      · rcases List.mem_append.1 hy with hy | hy
        · exact hfront y hy hv'
        · obtain rfl := List.mem_singleton.1 hy
          rw [release_of_deletable hd] at hv'
          exact absurd hv' Bool.false_ne_true
      · intro y hy hne
        rw [hsplit] at hy
        rw [hsplit', List.append_assoc]
        rcases List.mem_append.1 hy with hy | hy
        · exact List.mem_append_left _ hy
        · refine List.mem_append_right _ (.tail _ ?_)
          exact (List.mem_cons.1 hy).resolve_left fun he => hne (by rw [he])
      · rw [hsplit']
        simp
    · have hd' : h.deletable g.hdr = false := by simpa using hd
      obtain ⟨e, hrun⟩ := delete_refused hL hf hd'
      rw [hrun]
      exact .refused_head hL hg hd' e

/-! ### The result -/

/-- **The traversal of `delsig`.** -/
lemma doDelsigCmd_deletions (hL : Linkage h.asV2) (name : String) :
    Deletions (selected (fun n => (Hal.delsigName name).all (· == n)) (headersOf h.sigs)) h
      (h.doDelsigCmd name) := by
  have hkeys : (headersOf h.sigs).map Prod.fst = h.sigs.map Obj.off := by
    rw [headersOf, List.map_map]
    rfl
  rw [Hal.doDelsigCmd, ← hkeys]
  exact @foreachSig_delete h _ hL [] _ rfl (by simp)

/-- When `delsig` does for the name of a signal what it should: it is the first and only signal,
or the first cannot be deleted, and neither can the signal of the name, and no other link is
lost. -/
def NamedFirst (h : Hal) (name : String) : Prop :=
  match h.sigs.filter fun g => g.hdr.valid with
  | [] => False
  | g :: rest =>
    if h.deletable g.hdr then
      ∀ o ∈ g :: rest, o.hdr.name = name ∧ h.deletable o.hdr = true
    else
      (∀ o ∈ g :: rest, o.hdr.name = name → h.deletable o.hdr = false) ∧
        (h.accepts g.hdr.name = true → g.hdr.name = name ∨
          ∀ p ∈ h.pins, p.hdr.valid = true → p.body.signal ≠ g.off)

/-- When `delsig` does for `all` what it should: the signals that can be deleted have this name
themselves, and are in front of the first of this name that cannot. -/
def AllNamed (h : Hal) : Prop :=
  ∀ g ∈ h.sigs, g.hdr.valid = true → h.deletable g.hdr = true →
    (g.off, g.hdr) ∈ h.doomed (selected ("all" == ·) (headersOf h.sigs))

/-- When `delsig` does what it should. -/
def DelsigRight (h : Hal) (name : String) : Prop :=
  if name = "all" then AllNamed h else NamedFirst h name

/-- A doomed signal is deleted. -/
lemma Deletions.signalDeleted {v : List (ℕ × Halhdr)} {r : Option Errno × Hal} {x : ℕ × Halhdr}
    (hdels : Deletions v h r) (h0 : x.1 ≠ 0) (hx : x ∈ h.doomed v) : SignalDeleted r.2 x.1 := by
  have hgone := hdels.gone x hx
  refine ⟨hgone, fun p hp hv hs => ?_⟩
  rcases (hdels.linkage.pins p.asV2 (List.mem_map_of_mem hp) hv).link with ⟨hs0, -⟩ | hlink
  · exact h0 (hs.symm.trans hs0)
  · obtain ⟨g, hg, hgv, hgo, -⟩ := hlink
    rw [hgone g hg (hgo.trans hs)] at hgv
    exact Bool.false_ne_true hgv

/-- A signal that is not doomed is not deleted. -/
lemma Deletions.not_deleted {v : List (ℕ × Halhdr)} {r : Option Errno × Hal} {g : Obj Sig}
    (hdels : Deletions v h r) (hg : g ∈ h.sigs) (hv : g.hdr.valid = true)
    (hx : (g.off, g.hdr) ∉ h.doomed v) : ¬ SignalDeleted r.2 g.off := by
  intro hdel
  obtain ⟨g', hg', he⟩ := List.mem_map.1 (hdels.kept _ (mem_headersOf hg) hx)
  obtain ⟨hoff, hhdr⟩ := Prod.mk.inj he
  have hno := hdel.gone g' hg' hoff
  rw [hhdr, hv] at hno
  exact absurd hno.symm Bool.false_ne_true

lemma allDeleted_iff (hL : Linkage h.asV2) : AllDeleted h (h.doDelsigCmd "all") ↔ AllNamed h := by
  have hdels := doDelsigCmd_deletions hL "all"
  have hsel : (fun n => (Hal.delsigName "all").all (· == n)) = ("all" == ·) := rfl
  rw [hsel] at hdels
  constructor
  · intro hall g hg hv hd
    by_contra hno
    exact hdels.not_deleted hg hv hno (hall.deleted g hg hv hd)
  · intro hnamed
    refine ⟨fun g hg hv hd => hdels.signalDeleted (hL.sigNe g hg) (hnamed g hg hv hd),
      fun g hg hv hd => ?_⟩
    have hno : (g.off, g.hdr) ∉ h.doomed (selected ("all" == ·) (headersOf h.sigs)) := by
      intro hx
      have hd' := List.mem_takeWhile_imp hx
      rw [hd] at hd'
      exact absurd hd' Bool.false_ne_true
    obtain ⟨g', hg', he⟩ := List.mem_map.1 (hdels.kept _ (mem_headersOf hg) hno)
    exact ⟨g', hg', (Prod.mk.inj he).1, (Prod.mk.inj he).2⟩

/-- All valid signals are visited for another name. -/
lemma selected_named (hn : name ≠ "all") (l : List (Obj Sig)) :
    selected (fun n => (Hal.delsigName name).all (· == n)) (headersOf l) =
      headersOf (l.filter fun g => g.hdr.valid) := by
  have hall : (fun n : String => (Hal.delsigName name).all (· == n)) = fun _ => true := by
    rw [Hal.delsigName, if_pos hn]
    rfl
  rw [hall, selected, headersOf, headersOf, List.filter_map]
  simp [Function.comp_def]

/-- The traversal for another name, if the first signal can be deleted. -/
lemma namedDeleted_first (hL : Linkage h.asV2) {r : Option Errno × Hal} {g : Obj Sig}
    {rest : List (Obj Sig)} (hfilter : (h.sigs.filter fun g => g.hdr.valid) = g :: rest)
    (hdels : Deletions (headersOf (g :: rest)) h r) (hd : h.deletable g.hdr = true) :
    NamedDeleted h name r ↔ ∀ o ∈ g :: rest, o.hdr.name = name ∧ h.deletable o.hdr = true := by
  have hmem : ∀ {o}, o ∈ g :: rest ↔ o ∈ h.sigs ∧ o.hdr.valid = true := by
    intro o
    rw [← hfilter, List.mem_filter]
  constructor
  · intro hnamed
    have hgone : ∀ o ∈ g :: rest, (o.off, o.hdr) ∈ h.doomed (headersOf (g :: rest)) →
        o.hdr.name = name := by
      intro o ho hx
      by_contra hne
      obtain ⟨hos, hov⟩ := hmem.1 ho
      have hno := hdels.gone _ hx o (hnamed.others o hos hov hne) rfl
      rw [hov] at hno
      exact Bool.false_ne_true hno.symm
    have hfirst : (g.off, g.hdr) ∈ h.doomed (headersOf (g :: rest)) := by
      rw [Hal.doomed, headersOf, List.map_cons, List.takeWhile_cons_of_pos (by exact hd)]
      exact (.head _)
    obtain ⟨hgs, hgv⟩ := hmem.1 (.head _)
    have hrc := hnamed.deleted g hgs hgv (hgone g (.head _) hfirst) hd
    intro o ho
    have hx : (o.off, o.hdr) ∈ h.doomed (headersOf (g :: rest)) := by
      rw [hdels.rc.1 hrc]
      exact mem_headersOf ho
    exact ⟨hgone o ho hx, (List.mem_takeWhile_imp hx :)⟩
  · intro hall
    have hdoom : h.doomed (headersOf (g :: rest)) = headersOf (g :: rest) := by
      refine List.takeWhile_eq_self_iff.2 fun x hx => ?_
      obtain ⟨o, ho, rfl⟩ := List.mem_map.1 hx
      exact (hall o ho).2
    have hrc : r.1 = none := hdels.rc.2 hdoom
    obtain ⟨hgs, hgv⟩ := hmem.1 (.head _)
    refine ⟨fun o ho hv hne => hdels.sigs hrc o ho ?_, fun p hp hv hno => hdels.pins hrc p hp ?_,
      fun _ _ _ _ _ => hrc, fun _ => ⟨g, hgs, hgv, (hall g (.head _)).1, ?_⟩⟩
    · intro hx
      obtain ⟨o', ho', he⟩ := List.mem_map.1 hx
      exact hne ((Prod.mk.inj he).2 ▸ (hall o' ho').1)
    · intro x hx
      obtain ⟨o, ho, rfl⟩ := List.mem_map.1 hx
      exact hno o (hmem.1 ho).1 (hmem.1 ho).2 (hall o ho).1
    · exact hdels.signalDeleted (hL.sigNe g hgs) (hdoom ▸ mem_headersOf (.head _))

/-- The traversal for another name, if the first signal cannot be deleted. -/
lemma namedDeleted_refused (hL : Linkage h.asV2) {r : Option Errno × Hal} {g : Obj Sig}
    {rest : List (Obj Sig)} (hfilter : (h.sigs.filter fun g => g.hdr.valid) = g :: rest)
    (hdels : Deletions (headersOf (g :: rest)) h r) (hd : h.deletable g.hdr = false) :
    NamedDeleted h name r ↔
      (∀ o ∈ g :: rest, o.hdr.name = name → h.deletable o.hdr = false) ∧
        (h.accepts g.hdr.name = true → g.hdr.name = name ∨
          ∀ p ∈ h.pins, p.hdr.valid = true → p.body.signal ≠ g.off) := by
  have hmem : ∀ {o}, o ∈ g :: rest ↔ o ∈ h.sigs ∧ o.hdr.valid = true := by
    intro o
    rw [← hfilter, List.mem_filter]
  have hnd : (h.sigs.map Obj.off).Nodup := hL.sigKeys
  obtain ⟨hgs, hgv⟩ := hmem.1 (.head _)
  have hrc : r.1 ≠ none := by
    intro hrc
    have hdoom : h.doomed (headersOf (g :: rest)) = [] :=
      List.takeWhile_cons_of_neg (by rw [hd]; exact Bool.false_ne_true)
    exact List.cons_ne_nil _ _ ((hdels.rc.1 hrc).symm.trans hdoom)
  have hframe : NamedDeleted h name r ↔
      (∀ o ∈ g :: rest, o.hdr.name = name → h.deletable o.hdr = false) ∧
        (∀ o ∈ h.sigs, o.hdr.valid = true → o.hdr.name ≠ name → o ∈ r.2.sigs) ∧
          ∀ p ∈ h.pins, p.hdr.valid = true → (∀ o ∈ h.sigs, o.hdr.valid = true →
            o.hdr.name = name → p.body.signal ≠ o.off) → p ∈ r.2.pins := by
    constructor
    · refine fun hn => ⟨fun o ho hname => ?_, hn.others, hn.links⟩
      by_contra hdo
      exact hrc (hn.deleted o (hmem.1 ho).1 (hmem.1 ho).2 hname (by simpa using hdo))
    · rintro ⟨hno, hothers, hlinks⟩
      refine ⟨hothers, hlinks, fun o ho hv hname hdo => ?_, fun hr => absurd hr hrc⟩
      rw [hno o (hmem.2 ⟨ho, hv⟩) hname] at hdo
      exact absurd hdo Bool.false_ne_true
  rw [hframe, hdels.refused _ rfl hd]
  refine and_congr_right fun _ => ?_
  by_cases ha : h.accepts g.hdr.name = true
  swap
  · rw [if_neg ha]
    exact iff_of_true ⟨fun _ ho _ _ => ho, fun _ hp _ _ => hp⟩ fun h => absurd h ha
  rw [if_pos ha]
  have honly := OnlySig.unlinkAll (pinKeys_of_asV2 hL) g.off
  constructor
  · rintro ⟨-, hlinks⟩ -
    by_contra hno
    simp only [not_or, not_forall, not_not] at hno
    obtain ⟨hne, p, hp, hv, hs⟩ := hno
    refine hL.unlinkAll_asV2 (hL.sigNe g hgs) p (hlinks p hp hv fun o ho _ hname hso => ?_) hv hs
    exact hne (eq_of_key hnd hgs ho (hs.symm.trans hso) ▸ hname)
  · intro hcond
    rcases hcond ha with hname | hnone
    · refine ⟨fun o ho _ hne => honly.sigs o ho fun hoff => hne ?_,
        fun p hp _ hno => honly.pins p hp (hno g hgs hgv hname)⟩
      rw [eq_of_key hnd ho hgs hoff, hname]
    · have hsame : (h.foreachPinBySignal g.off fun o h => h.unlinkPin o) = h :=
        halgForeach_none fun p hp hv => by simpa [pinLinkedTo] using hnone p hp hv
      rw [hsame]
      exact ⟨fun _ ho _ _ => ho, fun _ hp _ _ => hp⟩

/-- The traversal for another name. -/
lemma namedDeleted_iff (hL : Linkage h.asV2) (hn : name ≠ "all") :
    NamedDeleted h name (h.doDelsigCmd name) ↔ NamedFirst h name := by
  have hdels := doDelsigCmd_deletions hL name
  rw [selected_named hn] at hdels
  rw [NamedFirst]
  cases hfilter : h.sigs.filter fun g => g.hdr.valid with
  | nil =>
    refine iff_of_false (fun hnamed => ?_) id
    rw [hfilter] at hdels
    obtain ⟨g, hg, hv, -⟩ := hnamed.reported (hdels.rc.2 rfl)
    have hmem : g ∈ h.sigs.filter fun g => g.hdr.valid := List.mem_filter.2 ⟨hg, hv⟩
    rw [hfilter] at hmem
    exact List.not_mem_nil hmem
  | cons g rest =>
    rw [hfilter] at hdels
    dsimp only
    by_cases hd : h.deletable g.hdr = true
    · rw [if_pos hd]
      exact namedDeleted_first hL hfilter hdels hd
    · rw [if_neg hd]
      exact namedDeleted_refused hL hfilter hdels (by simpa using hd)

/-- **The command `delsig`.** In every state reached, `delsig` does what it should exactly if the
signals it visits are the ones it is given. -/
theorem delsig_command {s₀ s : GroupHal} (h0 : s₀.Unwired)
    (hr : Reach wireStep (fun s a => wireAlloc s a = true) s₀ s) (name : String) :
    DelsigMeant s.toHal name ↔ DelsigRight s.toHal name := by
  have hL := (wired_reach h0 hr).linkage
  rw [DelsigMeant, DelsigRight]
  by_cases hn : name = "all"
  · subst hn
    rw [if_pos rfl, if_pos rfl, allDeleted_iff hL]
  · rw [if_neg hn, if_neg hn, namedDeleted_iff hL hn]

/-- Two signals, the first with a pin. -/
def twoSignals : List WireAct :=
  [.link (.pinNew (some ⟨128, 2⟩) .halS32 .halOut none 1 7 "out"),
    .link (.signalNew (some ⟨256, 3⟩) "speed" .halS32), .link (.link "out" "speed"),
    .link (.signalNew (some ⟨384, 4⟩) "torque" .halS32)]

/-- `delsig` of the signal without a pin. -/
theorem delsig_command_twoSignals :
    ∃ s, run wireStep wireAlloc oneCompGroups twoSignals = some s ∧
      (DelsigMeant s.toHal "torque" ↔ DelsigRight s.toHal "torque") := by
  have hs : (run wireStep wireAlloc oneCompGroups twoSignals).isSome = true := by
    decide
  obtain ⟨s, hs⟩ := Option.isSome_iff_exists.mp hs
  exact ⟨s, hs, delsig_command oneCompGroups_unwired (reach_of_run _ _ hs) "torque"⟩

/-- The deletion of one signal deletes the other one, too. -/
theorem delsig_command_fails : ¬ ∀ s₀ s : GroupHal, s₀.Unwired →
    Reach wireStep (fun s a => wireAlloc s a = true) s₀ s →
      ∀ name, DelsigMeant s.toHal name := by
  intro hall
  have hs : (run wireStep wireAlloc oneCompGroups twoSignals).map (fun s =>
      (s.sigs.map fun g => (g.hdr.valid, g.hdr.name),
        (s.toHal.doDelsigCmd "torque").2.sigs.map fun g => g.hdr.valid)) =
      some ([(true, "speed"), (true, "torque")], [false, false]) := by decide
  obtain ⟨s, -, hv, hr⟩ := run_map hs
  obtain ⟨hbefore, hafter⟩ := Prod.mk.inj hv
  have hmeant := hall _ s oneCompGroups_unwired hr "torque"
  rw [DelsigMeant, if_neg (by decide)] at hmeant
  have hmem : (true, "speed") ∈ s.sigs.map fun g => (g.hdr.valid, g.hdr.name) := by
    rw [hbefore]
    exact (.head _)
  obtain ⟨g, hg, he⟩ := List.mem_map.mp hmem
  obtain ⟨hgv, hname⟩ := Prod.mk.inj he
  have hkept := hmeant.others g hg hgv (by rw [hname]; decide)
  have hin := List.mem_map_of_mem (f := fun g : Obj Sig => g.hdr.valid) hkept
  rw [hafter, hgv] at hin
  exact absurd hin (by decide)

end MachinekitHal
