import MachinekitHal.Lib.Attachments
import MachinekitHal.Lib.Runs
import MachinekitHal.Hal.RingPlaces

/-!
Ring attachments.

* `RingHal.attached`, `RingHal.Accounted`: where the ringbuffers are attached, and that the
  headers count them.
* `ringFits`: the condition on a call: no attached ring is created again, and no attached
  ringbuffer is attached again.
* `RingKept`: what a call on rings keeps of the accounts, the marks in the headers and the
  attachments; `ringStep_kept` says so for every call that meets the condition.
-/

namespace MachinekitHal

open Store Runs Attachments
open Function (update)

variable {s s' : RingHal} {l : RingLoc} {rb : ℕ}

/-- The header a ringbuffer is attached to. -/
def RingHal.attached (s : RingHal) (rb : ℕ) : Option RingLoc :=
  if (s.bufs rb).magic then some (s.bufs rb).header else none

/-- The headers count the ringbuffers attached to them. -/
def RingHal.Accounted (s : RingHal) : Prop :=
  Attachments.Accounted s.liveLocs (fun l => (s.headerAt l).refcount) s.attached

/-- The condition on a call: `halg_ring_newfv` is not given the name of an attached ring, and
`halg_ring_attachfv` no attached ringbuffer, if it finds a ring to attach it to. -/
def ringFits (s : RingHal) : RingAct → Bool
  | .ringNewfv _ _ _ mode fmt => (s.existing mode fmt).all fun o =>
    (s.ringLoc o.body).all fun l => (s.headerAt l).refcount = 0
  | .ringAttachfv _ (some rb) fmt => (s.named fmt).isNone || !(s.bufs rb).magic
  | _ => true

/-- What a call on rings keeps: the places and the accounts; of the marks those that it does
not reset, and of the attachments all but the one it ends. -/
structure RingKept (s s' : RingHal) (lost : Option ℕ) : Prop where
  places : RingPlaces s'
  accounts : s'.Accounted
  marks : ∀ l ∈ s'.liveLocs, ∀ role, (s'.headerAt l).user role = 0 ∨
    l ∈ s.liveLocs ∧ (s'.headerAt l).user role = (s.headerAt l).user role
  stays : ∀ o ∈ s.ringObjs, o.hdr.valid = true → ∀ l, s.ringLoc o.body = some l →
    (users s.attached l).Nonempty → o ∈ s'.ringObjs
  rest : ∀ b l, s.attached b = some l → lost ≠ some b → s'.attached b = some l

/-! ### Calls on rings -/

lemma attached_congr (h : s'.bufs = s.bufs) : s'.attached = s.attached := by
  funext b
  rw [RingHal.attached, RingHal.attached, h]

lemma attached_update (b : ℕ) (m : Bool) :
    RingHal.attached { s with bufs := update s.bufs b ⟨m, l⟩ }
      = update s.attached b (if m then some l else none) := by
  funext c
  by_cases hc : c = b
  · simp [RingHal.attached, hc]
  · simp [RingHal.attached, hc]

@[simp] lemma attached_attachTo : (s.attachTo rb l).attached
    = update s.attached rb (some l) := by
  have hb : ((s.use l).setHeader l
      { s.headerAt l with refcount := (s.headerAt l).refcount + 1 }).bufs = s.bufs := by simp
  rw [RingHal.attachTo, ← hb, attached_update, attached_congr hb]
  rfl

@[simp] lemma attached_detachFrom : (s.detachFrom rb l).attached
    = update s.attached rb none := by
  have hb : (s.setHeader l
      { s.headerAt l with refcount := (s.headerAt l).refcount - 1 }).bufs = s.bufs := by simp
  rw [RingHal.detachFrom, ← hb, attached_update, attached_congr hb]
  rfl

/-- The live places depend on the valid rings and their places. -/
lemma liveLocs_congr (hobjs : ∀ o, o.hdr.valid = true → (o ∈ s'.ringObjs ↔ o ∈ s.ringObjs))
    (hloc : ∀ r, s'.ringLoc r = s.ringLoc r) : s'.liveLocs = s.liveLocs := by
  ext l
  constructor
  · rintro ⟨o, ho, hv, hl⟩
    exact ⟨o, (hobjs o hv).1 ho, hv, (hloc _).symm.trans hl⟩
  · rintro ⟨o, ho, hv, hl⟩
    exact ⟨o, (hobjs o hv).2 ho, hv, (hloc _).trans hl⟩

/-- What changes no attachment, no count and no mark. -/
lemma RingKept.of_same (hA : s.Accounted) (hP : RingPlaces s')
    (hobjs : ∀ o, o.hdr.valid = true → (o ∈ s'.ringObjs ↔ o ∈ s.ringObjs))
    (hloc : ∀ r, s'.ringLoc r = s.ringLoc r) (hhead : ∀ l, s'.headerAt l = s.headerAt l)
    (hbufs : s'.bufs = s.bufs) : RingKept s s' none := by
  have hlive := liveLocs_congr hobjs hloc
  refine ⟨hP, hA.congr hlive (fun l _ => by rw [hhead]) (attached_congr hbufs), ?_, ?_, ?_⟩
  · exact fun l hl role => .inr ⟨hlive ▸ hl, by rw [hhead]⟩
  · exact fun o ho hv _ _ _ => (hobjs o hv).2 ho
  · exact fun b l hb _ => attached_congr hbufs ▸ hb

lemma RingKept.refl (hP : RingPlaces s) (hA : s.Accounted) : RingKept s s none :=
  .of_same hA hP (fun _ _ => Iff.rfl) (fun _ => rfl) (fun _ => rfl) rfl

lemma RingKept.use (hP : RingPlaces s) (hA : s.Accounted) (l : RingLoc) :
    RingKept s (s.use l) none :=
  .of_same hA (hP.use l) (fun _ _ => by simp) (fun r => by simp) (fun l' => by simp) (by simp)

lemma RingKept.sweep (hP : RingPlaces s) (hA : s.Accounted) :
    RingKept s { s with ringObjs := MachinekitHal.sweep s.ringObjs } none := by
  refine .of_same hA hP.sweep (fun o hv => ?_) (fun r => rfl) (fun l' => rfl) rfl
  exact mem_sweep.trans (and_iff_left hv)

/-- A ring that is not attached is freed. -/
lemma RingKept.free (hP : RingPlaces s) (hA : s.Accounted) {o : Obj HalRing}
    (ho : o ∈ s.ringObjs) (hv : o.hdr.valid = true) (hl : s.ringLoc o.body = some l)
    (hzero : (s.headerAt l).refcount = 0) (hP' : RingPlaces s')
    (hobjs : s'.ringObjs = halgFreeObject o.off s.ringObjs)
    (hloc : ∀ r, s'.ringLoc r = s.ringLoc r) (hhead : ∀ l, s'.headerAt l = s.headerAt l)
    (hbufs : s'.bufs = s.bufs) : RingKept s s' none := by
  have hmem : l ∈ s.liveLocs := ⟨o, ho, hv, hl⟩
  have hlive := hP.liveLocs_free ho hv hl hobjs hloc
  refine ⟨hP', ?_, ?_, ?_, ?_⟩
  · refine (hA.remove hmem hzero).congr hlive (fun l _ => ?_) (attached_congr hbufs)
    rw [hhead]
  · intro l' hl' role
    rw [hlive] at hl'
    exact .inr ⟨hl'.1, by rw [hhead]⟩
  · intro o' ho' hv' l' hl' hne
    refine hobjs ▸ mem_free_of ho' fun hoff => ?_
    obtain rfl := eq_of_key hP.ids.nodup ho' ho hoff
    cases hl'.symm.trans hl
    exact absurd ((hA.count_eq_zero hmem).1 hzero) hne.ne_empty
  · exact fun b l' hb _ => attached_congr hbufs ▸ hb

lemma RingKept.created (hP : RingPlaces s) (hA : s.Accounted) (hP' : RingPlaces s')
    {new : Obj HalRing} (h : RingCreated s s' new l) : RingKept s s' none := by
  have hlive := h.liveLocs hP
  have hold : ∀ l' ∈ s.liveLocs, s'.headerAt l' = s.headerAt l' :=
    fun l' hl' => h.others l' fun he => h.fresh (he ▸ hl')
  obtain ⟨hzero, hreader, hwriter⟩ := h.header
  refine ⟨hP', ?_, ?_, ?_, ?_⟩
  · have hacc : Attachments.Accounted (insert l s.liveLocs)
        (fun l => (s'.headerAt l).refcount) s.attached :=
      hA.create h.fresh hzero fun l' hl' => by rw [hold l' hl']
    exact hacc.congr hlive (fun l _ => rfl) (attached_congr h.bufs)
  · intro l' hl' role
    rw [hlive] at hl'
    rcases hl' with rfl | hl'
    · exact .inl (by cases role <;> assumption)
    · exact .inr ⟨hl', by rw [hold l' hl']⟩
  · exact fun o ho _ _ _ _ => h.objs ▸ mem_addObject.2 (.inr ho)
  · exact fun b l' hb _ => attached_congr h.bufs ▸ hb

/-- A ringbuffer that is not attached is attached to a ring. -/
lemma RingKept.attachTo (hP : RingPlaces s) (hA : s.Accounted) (hl : l ∈ s.liveLocs)
    (hrb : s.attached rb = none) : RingKept s (s.attachTo rb l) none := by
  have hlive : (s.attachTo rb l).liveLocs = s.liveLocs := by
    refine liveLocs_congr (fun o _ => ?_) fun r => ?_
    · simp [RingHal.attachTo]
    · exact (setHeader_ringLoc (s.use l) l _ r).trans (use_ringLoc s l r)
  have hself : (s.attachTo rb l).headerAt l
      = { s.headerAt l with refcount := (s.headerAt l).refcount + 1 } :=
    headerAt_setHeader_self (s.use l) l _
  have hother : ∀ l', l' ≠ l → (s.attachTo rb l).headerAt l' = s.headerAt l' :=
    fun l' hne => (headerAt_setHeader_of_ne hne).trans (use_headerAt s l l')
  refine ⟨hP.attachTo rb l, ?_, ?_, ?_, ?_⟩
  · have hacc : Attachments.Accounted s.liveLocs
        (fun l' => ((s.attachTo rb l).headerAt l').refcount)
        (update s.attached rb (some l)) :=
      hA.attach hl hrb (by simp only [hself]) fun l' _ hne => by rw [hother l' hne]
    exact hacc.congr hlive (fun _ _ => rfl) attached_attachTo
  · intro l' hl' role
    refine .inr ⟨hlive ▸ hl', ?_⟩
    by_cases hne : l' = l
    · rw [hne, hself]
      cases role <;> rfl
    · rw [hother l' hne]
  · intro o ho _ _ _ _
    simpa [RingHal.attachTo] using ho
  · intro b l' hb _
    have hne : b ≠ rb := fun he => by simp [← he, hb] at hrb
    rw [attached_attachTo, Function.update_of_ne hne, hb]

/-- A ringbuffer is detached. -/
lemma RingKept.detachFrom (hP : RingPlaces s) (hA : s.Accounted)
    (hrb : s.attached rb = some l) : RingKept s (s.detachFrom rb l) (some rb) := by
  have hlive : (s.detachFrom rb l).liveLocs = s.liveLocs := by
    refine liveLocs_congr (fun o _ => ?_) fun r => ?_
    · simp [RingHal.detachFrom]
    · exact setHeader_ringLoc s l _ r
  have hself : (s.detachFrom rb l).headerAt l
      = { s.headerAt l with refcount := (s.headerAt l).refcount - 1 } :=
    headerAt_setHeader_self s l _
  have hother : ∀ l', l' ≠ l → (s.detachFrom rb l).headerAt l' = s.headerAt l' :=
    fun l' hne => headerAt_setHeader_of_ne hne
  refine ⟨hP.detachFrom rb l, ?_, ?_, ?_, ?_⟩
  · have hacc : Attachments.Accounted s.liveLocs
        (fun l' => ((s.detachFrom rb l).headerAt l').refcount)
        (update s.attached rb none) :=
      hA.detach hrb (by simp only [hself]) fun l' _ hne => by rw [hother l' hne]
    exact hacc.congr hlive (fun _ _ => rfl) attached_detachFrom
  · intro l' hl' role
    refine .inr ⟨hlive ▸ hl', ?_⟩
    by_cases hne : l' = l
    · rw [hne, hself]
      cases role <;> rfl
    · rw [hother l' hne]
  · intro o ho _ _ _ _
    simpa [RingHal.detachFrom] using ho
  · intro b l' hb hne
    have hbr : b ≠ rb := fun he => hne (by rw [he])
    rw [attached_detachFrom, Function.update_of_ne hbr, hb]

/-! ### One call -/

/-- The attachment that a call ends. -/
def RingAct.lost (s : RingHal) : RingAct → Option ℕ
  | .ringDetach rb => if s.locked halLockConfig || !(s.bufs rb).magic then none else some rb
  | _ => none

lemma halgRingNewfv_kept (hP : RingPlaces s) (hA : s.Accounted) {e : RingEnv} {size spSize : ℤ}
    {mode : ℕ} {fmt : Option String} (hmem : s.ringmemFresh e.ringmem = true)
    (hfit : ringFits s (.ringNewfv e size spSize mode fmt) = true)
    (hs : ringStep s (.ringNewfv e size spSize mode fmt) = some s') : RingKept s s' none := by
  have hI := hP.ids.effect (ringStep_effect hP.ids hs)
  simp only [ringStep] at hs
  split_ifs at hs
  cases hs
  rcases halgRingNewfv_places hP e size spSize mode fmt hmem with
    h | ⟨o, ho, h⟩ | ⟨new, l, h⟩
  · rw [h]
    exact .refl hP hA
  · -- the ring that is freed is not attached
    obtain ⟨hmem', hv⟩ := RingHal.existing_mem ho
    obtain ⟨l, hl⟩ := hP.placed o hmem' hv
    have hzero : (s.headerAt l).refcount = 0 := by simpa [ringFits, ho, hl] using hfit
    rw [h]
    exact .free hP hA hmem' hv hl hzero (hP.freeRingObject _) rfl (fun _ => rfl) (fun _ => rfl) rfl
  · exact .created hP hA (hP.created hI h) h

/-- **What a call on rings keeps.** -/
theorem ringStep_kept (hP : RingPlaces s) (hA : s.Accounted) {a : RingAct}
    (hmem : ∀ e size spSize mode fmt, a = .ringNewfv e size spSize mode fmt →
      s.ringmemFresh e.ringmem = true)
    (hfit : ringFits s a = true) (hs : ringStep s a = some s') : RingKept s s' (a.lost s) := by
  cases a with
  | ringNewfv e size spSize mode fmt =>
    exact halgRingNewfv_kept hP hA (hmem e size spSize mode fmt rfl) hfit hs
  | ringDeletefv e fmt =>
    cases hs
    rcases halgRingDeletefv_cases hP e fmt with
      h | ⟨o, l, ho, hv, hl, ⟨-, h⟩ | ⟨hzero, h⟩⟩
    · rw [h]
      exact .refl hP hA
    · rw [h]
      exact .use hP hA l
    · rw [h]
      exact .free hP hA ho hv hl hzero (hP.remove ho hv) rfl (fun _ => rfl) (fun _ => rfl) rfl
  | ringAttachfv e b fmt =>
    cases hs
    rcases halgRingAttachfv_cases hP e b fmt with
      ⟨err, h⟩ | ⟨-, h⟩ | ⟨o, rb, l, rfl, ho, hl, h⟩
    · rw [h]
      exact .refl hP hA
    · rw [h]
      exact .refl hP hA
    · obtain ⟨hmem', hv⟩ := RingHal.named_some ho
      have hrb : (s.bufs rb).magic = false := by simpa [ringFits, ho] using hfit
      rw [h]
      exact .attachTo hP hA ⟨o, hmem', hv, hl⟩ (by simp [RingHal.attached, hrb])
  | ringDetach rb =>
    cases hs
    by_cases hlost : (s.locked halLockConfig || !(s.bufs rb).magic) = true
    · rw [halgRingDetach_refused hlost, RingAct.lost, if_pos hlost]
      exact .refl hP hA
    · rw [RingAct.lost, if_neg hlost]
      simp only [Bool.or_eq_true, not_or, Bool.not_eq_true, Bool.not_eq_false'] at hlost
      rw [halgRingDetach_of_attached hlost.1 hlost.2]
      exact .detachFrom hP hA (by simp [RingHal.attached, hlost.2])
  | sweep =>
    cases hs
    exact .sweep hP hA

end MachinekitHal
