import MachinekitHal.Lib.Runs
import MachinekitHal.Lib.Updates
import MachinekitHal.Hal.ChangeTracking

/-!
`haltalk_rcomp.cc`, `haltalk_group.cc`: what the subscribers of a topic are sent.

A topic is a remote component or a group. Each subscription is answered by a full update
with the current values, and a timer matches the values against the tracking values and then
publishes those that changed, reading them again. Everything published goes to all
subscribers.

* `TopicSys`: the values, the compiled topic, and what one subscriber holds.
* `TopicAct`, `Topic.step`: value changes, subscriptions, matches and reports as steps.
* `Topic.Scans`: a whole scan, with what it reads last of each object.
* `Topic.current`: the condition under which a scan leaves the subscriber with the value of
  an object.
* `subscriber_consistent`: after a scan the subscriber has the value exactly if the scan
  meets the condition, in every run whose earlier scans met it.
-/

namespace MachinekitHal

open Runs Updates

/-- A topic with one of its subscribers. `value` are the values behind the pins, or of the
signals, by handle; `held` is what the subscriber holds, `none` before it subscribed. While
`pending`, a match has found changes that are not reported yet. `sent` records what updates
sent since the last match. -/
structure TopicSys where
  value : ℤ → HalDataU
  entries : List Compiled
  scanning : Bool
  pending : Bool
  held : Option (ℤ → Option HalDataU)
  sent : ℤ → Option HalDataU

/-- What happens to a topic. `self` says that it is our subscriber that subscribes. -/
inductive TopicAct where
  | change (value : ℤ → HalDataU)
  | subscribe (self : Bool)
  | unsubscribe
  | compiledMatch
  | compiledReport

/-- The values of some objects as a message carries them. -/
def updateOf (value : ℤ → HalDataU) (objs : List (ℤ × HalType)) : List (ℤ × HalDataU) :=
  objs.filterMap fun o => (toPb o.2 (value o.1)).map fun v => (o.1, v)

/-- What a subscriber holds after it applied a message. -/
def receive (f : ℤ → Option HalDataU) (msg : List (ℤ × HalDataU)) : ℤ → Option HalDataU :=
  applyAll f (msg.map fun p => (p.1, some p.2))

namespace Topic

variable (t : Topic) (exceeds : ℤ → HalDataU → HalDataU → Bool)

/-- The full update, `halpr_describe_component` or `halpr_describe_group`. The description of
a pin asserts that it has a value. -/
def fullUpdate (value : ℤ → HalDataU) : Option (List (ℤ × HalDataU)) :=
  if t.kind = .rcomp ∧ ¬t.objs.all fun o => (toPb o.type (value o.handle)).isSome then none
  else some (updateOf value (t.objs.map fun o => (o.handle, o.type)))

/-- The incremental update, `comp_report_cb` or `group_report_cb`, which asserts that a
signal has a value. -/
def incrementalUpdate (value : ℤ → HalDataU) (es : List Compiled) :
    Option (List (ℤ × HalDataU)) :=
  if t.kind ≠ .rcomp ∧
    ¬(t.report es).all fun e => (toPb e.type (value e.handle)).isSome then none
  else some (updateOf value ((t.report es).map fun e => (e.handle, e.type)))

/-- One step. Subscribing is `handle_rcomp_input` and `handle_group_input`, a match with
the report it asks for `handle_rcomp_timer` and `handle_group_timer`; the last one to
unsubscribe stops the scanning. These handlers run one after the other, while the values
may change at any time. A match, a report and a full update read each object once, so that
`value` stands for what they read, whenever that was. -/
def step (s : TopicSys) : TopicAct → Option TopicSys
  | .change value => some { s with value := value }
  | .subscribe self =>
    if s.pending then none else
    (t.fullUpdate s.value).map fun msg =>
      { s with
        scanning := true
        sent := receive s.sent msg
        held := if self then some (receive (s.held.getD fun _ => none) msg)
          else s.held.map (receive · msg) }
  | .unsubscribe =>
    if s.pending then none else some { s with scanning := false, held := none }
  | .compiledMatch =>
    if !s.scanning || s.pending then none else
    let r := t.matchChanged exceeds s.value s.entries
    some { s with entries := r.2, sent := fun _ => none, pending := r.1 ≠ some 0 }
  | .compiledReport =>
    if !s.pending then none else
    (t.incrementalUpdate s.value s.entries).map fun msg =>
      { s with
        held := s.held.map (receive · msg)
        sent := receive s.sent msg
        pending := false }

/-- A topic that was just compiled: nobody has subscribed, and nothing was sent. -/
def adopted (s : TopicSys) : Prop :=
  t.compile = some s.entries ∧ s.scanning = false ∧ s.pending = false ∧ s.held = none ∧
    s.sent = fun _ => none

/-- What a scan read last of each object: the report reads again what it reports. -/
def readings (s : TopicSys) (value : ℤ → HalDataU) (handle : ℤ) : HalDataU :=
  if (t.report s.entries).any fun e => e.handle = handle then value handle else s.value handle

/-- A whole scan with its readings: a match, and the report if it found changes. -/
inductive Scans (s : TopicSys) : (ℤ → HalDataU) → TopicSys → Prop
  | silent {s' : TopicSys} (hm : t.step exceeds s .compiledMatch = some s')
      (hp : s'.pending = false) : Scans s s.value s'
  | reported {s₁ s' : TopicSys} {value : ℤ → HalDataU}
      (hm : t.step exceeds s .compiledMatch = some s₁)
      (hs : t.step exceeds { s₁ with value := value } .compiledReport = some s') :
      Scans s (t.readings s₁ value) s'

/-- A scan reports an element: it changed, or all are reported and one of them changed. -/
def reports (s : TopicSys) (e : Compiled) : Bool :=
  e.changes exceeds s.value ||
    t.reportsAll s.entries && s.entries.any fun e => e.changes exceeds s.value

/-- A scan that does not report an object finds that the last update since the match
before it, if one had the object, sent the tracking value. -/
def current (handle : ℤ) (s : TopicSys) : Prop :=
  ∀ e ∈ s.entries, e.handle = handle → e.monitored = true → t.reports exceeds s e = false →
    s.sent handle = none ∨ s.sent handle = toPb e.type e.tracking
  deriving Decidable

/-- The compiled elements are those of the objects. -/
structure Tracks (es : List Compiled) : Prop where
  nodup : (es.map Compiled.handle).Nodup
  obj : ∀ e ∈ es, ∃ o ∈ t.objs,
    e.handle = o.handle ∧ e.type = o.type ∧ e.monitored = t.monitors o
  elem : ∀ o ∈ t.objs, t.monitors o = true → ∃ e ∈ es,
    e.handle = o.handle ∧ e.type = o.type ∧ e.monitored = true

end Topic

/-! ### Messages -/

/-- What a subscriber holds of an object after a message. -/
lemma receive_apply (f : ℤ → Option HalDataU) (msg : List (ℤ × HalDataU)) (handle : ℤ) :
    receive f msg handle = (Updates.lastAt msg handle).or (f handle) := by
  rw [receive, applyAll_apply, lastAt_map]
  cases Updates.lastAt msg handle <;> rfl

/-- The objects of a message are among those it is about. -/
lemma updateOf_fst {value : ℤ → HalDataU} {objs : List (ℤ × HalType)} :
    List.Sublist ((updateOf value objs).map Prod.fst) (objs.map Prod.fst) := by
  induction objs with
  | nil => exact List.Sublist.slnil
  | cons o objs ih =>
    rw [updateOf, List.filterMap_cons, List.map_cons]
    cases toPb o.2 (value o.1) with
    | none => exact ih.cons _
    | some v => exact ih.cons_cons _

/-- A message has the value of each object it is about. -/
lemma lastAt_updateOf {value : ℤ → HalDataU} {objs : List (ℤ × HalType)} {o : ℤ × HalType}
    (hnd : (objs.map Prod.fst).Nodup) (ho : o ∈ objs) :
    Updates.lastAt (updateOf value objs) o.1 = toPb o.2 (value o.1) := by
  have hnd' : ((updateOf value objs).map Prod.fst).Nodup := hnd.sublist updateOf_fst
  refine Option.ext fun v => ?_
  rw [lastAt_eq_some hnd', updateOf, List.mem_filterMap]
  constructor
  · rintro ⟨o', ho', hv⟩
    obtain ⟨w, hw, he⟩ := Option.map_eq_some_iff.1 hv
    obtain ⟨hfst, rfl⟩ := Prod.mk.inj he
    rwa [List.inj_on_of_nodup_map hnd ho' ho hfst] at hw
  · intro hv
    exact ⟨o, ho, by rw [hv]; rfl⟩

/-- A message has no value of other objects. -/
lemma lastAt_updateOf_none {value : ℤ → HalDataU} {objs : List (ℤ × HalType)} {handle : ℤ}
    (h : handle ∉ objs.map Prod.fst) : Updates.lastAt (updateOf value objs) handle = none :=
  lastAt_eq_none.2 fun hm => h (updateOf_fst.subset hm)

/-! ### The elements of a topic -/

variable {t : Topic} {exceeds : ℤ → HalDataU → HalDataU → Bool} {value : ℤ → HalDataU}
  {es : List Compiled} {e : Compiled} {s s' : TopicSys} {handle : ℤ}

/-- Matching keeps the handles. -/
lemma map_matched_handle :
    (es.map fun e => e.matched exceeds value).map Compiled.handle = es.map Compiled.handle := by
  rw [List.map_map]
  exact List.map_congr_left fun e _ => e.matched_handle

/-- Matching keeps the number of monitored elements. -/
lemma nMonitored_matched :
    nMonitored (es.map fun e => e.matched exceeds value) = nMonitored es := by
  rw [nMonitored, nMonitored, List.countP_map]
  exact List.countP_congr fun e _ => by simp

namespace Topic

/-- Compiling makes an element of each object that is monitored. -/
lemma compile_tracks (hc : t.compile = some es) : t.Tracks es := by
  have hhandle : ∀ l : List TopicObj, (l.map t.element).map Compiled.handle
      = l.map TopicObj.handle := fun l => by
    rw [List.map_map]
    rfl
  have hobj : ∀ l : List TopicObj, (∀ o ∈ l, o ∈ t.objs) → ∀ e ∈ l.map t.element, ∃ o ∈ t.objs,
      e.handle = o.handle ∧ e.type = o.type ∧ e.monitored = t.monitors o := by
    intro l hl e he
    obtain ⟨o, ho, rfl⟩ := List.mem_map.1 he
    exact ⟨o, hl o ho, rfl, rfl, rfl⟩
  have helem : ∀ l : List TopicObj, ∀ o ∈ l, t.monitors o = true → ∃ e ∈ l.map t.element,
      e.handle = o.handle ∧ e.type = o.type ∧ e.monitored = true :=
    fun l o ho hm => ⟨t.element o, List.mem_map_of_mem ho, rfl, rfl, hm⟩
  rw [compile] at hc
  cases hk : t.kind with
  | rcomp =>
    simp only [hk] at hc
    split at hc
    · cases hc
    · cases hc
      refine ⟨?_, hobj _ fun o ho => (List.mem_filter.1 ho).1, fun o ho hm =>
        helem _ o (List.mem_filter.2 ⟨ho, hm⟩) hm⟩
      rw [hhandle]
      exact t.nodup.sublist (List.filter_sublist.map _)
  | group userarg2 =>
    simp only [hk] at hc
    split at hc
    · cases hc
    · cases hc
      refine ⟨?_, hobj _ fun o ho => ho, helem _⟩
      rw [hhandle]
      exact t.nodup

/-- Matching keeps what the elements are of. -/
lemma Tracks.matched (hT : t.Tracks es) : t.Tracks (es.map fun e => e.matched exceeds value) := by
  refine ⟨by rw [map_matched_handle]; exact hT.nodup, ?_, ?_⟩
  · intro e' he'
    obtain ⟨e, he, rfl⟩ := List.mem_map.1 he'
    obtain ⟨o, ho, h1, h2, h3⟩ := hT.obj e he
    exact ⟨o, ho, by simpa using h1, by simpa using h2, by simpa using h3⟩
  · intro o ho hm
    obtain ⟨e, he, h1, h2, h3⟩ := hT.elem o ho hm
    exact ⟨_, List.mem_map_of_mem he, by simpa using h1, by simpa using h2, by simpa using h3⟩

/-- All objects have types that a message has fields for. -/
def Typed (t : Topic) : Prop := ∀ o ∈ t.objs, (toPb o.type 0).isSome = true

lemma Tracks.typed (hT : t.Tracks es) (hty : t.Typed) (he : e ∈ es) :
    (toPb e.type 0).isSome = true := by
  obtain ⟨o, ho, _, h2, _⟩ := hT.obj e he
  rw [h2]
  exact hty o ho

/-- A match that monitors something goes through all elements. -/
lemma matchChanged_eq (hT : t.Tracks es) (hty : t.Typed) (hm : 0 < nMonitored es) :
    t.matchChanged exceeds value es =
      (some (es.countP fun e => e.changes exceeds value),
        es.map fun e => e.matched exceeds value) := by
  rw [← matchEntries_eq fun e he _ => hT.typed hty he, matchChanged]
  split
  · rfl
  · rw [if_pos (.inr hm)]

/-- A match keeps what the elements are of. -/
lemma Tracks.matchChanged (hT : t.Tracks es) (hty : t.Typed) :
    t.Tracks (t.matchChanged exceeds value es).2 := by
  by_cases hm : 0 < nMonitored es
  · rw [matchChanged_eq hT hty hm]
    exact hT.matched
  · have hen := @matchEntries_eq exceeds value es fun e he _ => hT.typed hty he
    rw [Topic.matchChanged]
    split
    · rw [hen]
      exact hT.matched
    · split
      · rw [hen]
        exact hT.matched
      · exact hT

/-- A full update is sent by a topic all of whose objects have values. -/
lemma typed_of_fullUpdate {msg : List (ℤ × HalDataU)} (h : t.fullUpdate value = some msg) :
    t.Typed ∧ msg = updateOf value (t.objs.map fun o => (o.handle, o.type)) := by
  rw [fullUpdate] at h
  split at h
  · cases h
  · next hc =>
      refine ⟨?_, (Option.some.inj h).symm⟩
      by_cases hk : t.kind = .rcomp
      · intro o ho
        have hall : t.objs.all (fun o => (toPb o.type (value o.handle)).isSome) = true := by
          by_contra hno
          exact hc ⟨hk, hno⟩
        rw [toPb_isSome o.type 0 (value o.handle)]
        exact List.all_eq_true.1 hall o ho
      · exact t.sigTypes hk

/-- A full update has the values of all monitored objects. -/
lemma lastAt_fullUpdate {msg : List (ℤ × HalDataU)} (hT : t.Tracks es) (he : e ∈ es)
    (h : t.fullUpdate value = some msg) :
    Updates.lastAt msg e.handle = toPb e.type (value e.handle) := by
  obtain ⟨_, rfl⟩ := typed_of_fullUpdate h
  obtain ⟨o, ho, h1, h2, _⟩ := hT.obj e he
  have hnd : ((t.objs.map fun o => (o.handle, o.type)).map Prod.fst).Nodup := by
    rw [List.map_map]
    exact t.nodup
  have hlast := @lastAt_updateOf value _ _ hnd (List.mem_map_of_mem ho)
  rw [h1, h2]
  exact hlast

/-- An incremental update is sent, with the values of the elements reported. -/
lemma incrementalUpdate_eq (hT : t.Tracks es) (hty : t.Typed) :
    t.incrementalUpdate value es =
      some (updateOf value ((t.report es).map fun e => (e.handle, e.type))) := by
  rw [incrementalUpdate, if_neg]
  rintro ⟨_, hno⟩
  refine hno (List.all_eq_true.2 fun e he => ?_)
  rw [toPb_isSome e.type (value e.handle) 0]
  exact hT.typed hty (List.mem_filter.1 he).1

/-- What an incremental update has of an object: its value if it is reported, and nothing
otherwise. -/
lemma lastAt_report (hT : t.Tracks es) (he : e ∈ es) :
    Updates.lastAt (updateOf value ((t.report es).map fun e => (e.handle, e.type))) e.handle =
      if t.reportsAll es || e.changed then toPb e.type (value e.handle) else none := by
  have hnd : (((t.report es).map fun e => (e.handle, e.type)).map Prod.fst).Nodup := by
    rw [List.map_map]
    exact hT.nodup.sublist (List.filter_sublist.map _)
  split_ifs with hr
  · exact @lastAt_updateOf value _ _ hnd (List.mem_map_of_mem (List.mem_filter.2 ⟨he, hr⟩))
  · refine lastAt_updateOf_none fun hmem => hr ?_
    rw [List.map_map] at hmem
    obtain ⟨e', hrep, hh⟩ := List.mem_map.1 hmem
    obtain ⟨hin, hc⟩ := List.mem_filter.1 hrep
    rwa [List.inj_on_of_nodup_map hT.nodup hin he hh] at hc

/-- The report of a scan reads again the elements it reports. -/
lemma readings_eq (hT : t.Tracks s.entries) (he : e ∈ s.entries) :
    t.readings s value e.handle =
      if t.reportsAll s.entries || e.changed then value e.handle else s.value e.handle := by
  rw [readings]
  refine if_congr (List.any_eq_true.trans ⟨?_, fun hr => ?_⟩) rfl rfl
  · rintro ⟨e', hrep, hh⟩
    obtain ⟨hin, hc⟩ := List.mem_filter.1 hrep
    rwa [List.inj_on_of_nodup_map hT.nodup hin he (of_decide_eq_true hh)] at hc
  · exact ⟨e, List.mem_filter.2 ⟨he, hr⟩, decide_eq_true rfl⟩

/-- A match goes through the elements, and asks for a report if one changed. -/
lemma match_effect (hT : t.Tracks s.entries) (hty : t.Typed) (he : e ∈ s.entries)
    (hm : e.monitored = true) (hs : t.step exceeds s .compiledMatch = some s') :
    s.pending = false ∧
    s' = { s with
      entries := s.entries.map (fun e => e.matched exceeds s.value)
      sent := fun _ => none
      pending := s.entries.any fun e => e.changes exceeds s.value } := by
  have hmon : 0 < nMonitored s.entries := List.countP_pos_iff.2 ⟨e, he, hm⟩
  simp only [step, matchChanged_eq hT hty hmon] at hs
  split at hs
  · cases hs
  next hg =>
  cases hs
  have hany : decide (some (s.entries.countP fun e => e.changes exceeds s.value) ≠ some 0) =
      s.entries.any fun e => e.changes exceeds s.value := by
    rw [Bool.eq_iff_iff, decide_eq_true_iff, List.any_eq_true, ne_eq, Option.some_inj,
      List.countP_eq_zero]
    simp
  exact ⟨by simp_all, by rw [hany]⟩

/-- A report sends the incremental update of the match. -/
lemma report_effect (hT : t.Tracks s.entries) (hty : t.Typed)
    (hs : t.step exceeds s .compiledReport = some s') :
    s.pending = true ∧
    ∃ msg, msg = updateOf s.value ((t.report s.entries).map fun e => (e.handle, e.type)) ∧
      s' = { s with
        held := s.held.map (receive · msg)
        sent := receive s.sent msg
        pending := false } := by
  simp only [step, incrementalUpdate_eq hT hty] at hs
  split at hs
  · cases hs
  next hp =>
  exact ⟨by simpa using hp, _, rfl, (Option.some.inj hs).symm⟩

/-- What a match has a report publish. -/
lemma reported_matched (e : Compiled) (hany : s.entries.any (fun e => e.changes exceeds s.value)) :
    (t.reportsAll (s.entries.map fun e => e.matched exceeds s.value) ||
      (e.matched exceeds s.value).changed) = t.reports exceeds s e := by
  rw [reports, hany, Bool.and_true, Bool.or_comm, Compiled.matched_changed, reportsAll, reportsAll,
    nMonitored_matched]

/-! ### Whole runs -/

/-- What a subscriber holds of an object that is not about to be reported: what was sent
since the last match, or else the tracking value. -/
structure SubscriberInv (t : Topic) (handle : ℤ) (s : TopicSys) : Prop where
  tracks : t.Tracks s.entries
  typed : s.scanning = true → t.Typed
  pending : s.pending = true → s.scanning = true
  held : ∀ m, s.held = some m → ∀ e ∈ s.entries, e.handle = handle → e.monitored = true →
    e.type ≠ .halFloat → s.pending = true ∧ (t.reportsAll s.entries || e.changed) = true ∨
      m handle = (s.sent handle).or (toPb e.type e.tracking)

lemma SubscriberInv.start (h0 : t.adopted s) : t.SubscriberInv handle s := by
  obtain ⟨hc, hsc, hp, hh, _⟩ := h0
  refine ⟨compile_tracks hc, ?_, ?_, ?_⟩
  · intro h
    rw [hsc] at h
    cases h
  · intro h
    rw [hp] at h
    cases h
  · intro m hm
    rw [hh] at hm
    cases hm

/-- A match only runs when the topic is scanned, and keeps what the elements are of. -/
lemma SubscriberInv.match_tracks (hI : t.SubscriberInv handle s)
    (hs : t.step exceeds s .compiledMatch = some s') :
    s.scanning = true ∧ s'.scanning = true ∧ t.Tracks s'.entries := by
  simp only [Topic.step] at hs
  split at hs
  · cases hs
  next hg =>
  have hsc : s.scanning = true := by simp_all
  cases hs
  exact ⟨hsc, hsc, hI.tracks.matchChanged (hI.typed hsc)⟩

/-- An element that is not reported reads as its tracking value. -/
lemma toPb_unreported (hT : t.Tracks s.entries) (hty : t.Typed) (he : e ∈ s.entries)
    (hmon : e.monitored = true) (hf : e.type ≠ .halFloat) (hr : t.reports exceeds s e = false) :
    toPb e.type e.tracking = toPb e.type (s.value e.handle) := by
  by_contra hne
  have hd : e.differs exceeds s.value = some true := (e.differs_iff (hT.typed hty he) hf).2 hne
  simp [reports, Compiled.changes, hmon, hd] at hr

/-- Whether the subscriber has the value of an object that a scan does not report. -/
lemma SubscriberInv.unreported (hI : t.SubscriberInv handle s) (hp : s.pending = false)
    (hty : t.Typed) (he : e ∈ s.entries) (hh : e.handle = handle) (hmon : e.monitored = true)
    (hf : e.type ≠ .halFloat) (hr : t.reports exceeds s e = false) {m : ℤ → Option HalDataU}
    (hm : s.held = some m) :
    m handle = toPb e.type (s.value handle) ↔ t.current exceeds handle s := by
  have hheld : m handle = (s.sent handle).or (toPb e.type e.tracking) := by
    rcases hI.held m hm e he hh hmon hf with ⟨hp', _⟩ | hheld
    · rw [hp] at hp'
      cases hp'
    · exact hheld
  have hsame := toPb_unreported hI.tracks hty he hmon hf hr
  rw [hheld, ← hh, ← hsame]
  constructor
  · intro heq e' he' hh' _ _
    obtain rfl : e' = e := List.inj_on_of_nodup_map hI.tracks.nodup he' he hh'
    cases hsent : s.sent e'.handle with
    | none => exact .inl rfl
    | some v =>
      rw [hsent, Option.some_or] at heq
      exact .inr heq
  · intro hcur
    rcases hcur e he rfl hmon hr with hsent | hsent
    · rw [hsent, Option.none_or]
    · rw [hsent, Option.or_self]

/-- Whether the subscriber has the value of an object after a scan. -/
lemma SubscriberInv.scan (hI : t.SubscriberInv handle s) (he : e ∈ s.entries)
    (hh : e.handle = handle) (hmon : e.monitored = true) (hf : e.type ≠ .halFloat)
    {readings : ℤ → HalDataU} (hs : t.Scans exceeds s readings s') {m : ℤ → Option HalDataU}
    (hm : s'.held = some m) :
    m handle = toPb e.type (readings handle) ↔ t.current exceeds handle s := by
  cases hs with
  | silent hmatch hp' =>
    have hty : t.Typed := hI.typed (hI.match_tracks hmatch).1
    obtain ⟨hp, rfl⟩ := match_effect hI.tracks hty he hmon hmatch
    -- nothing changed, and nothing is reported
    have hr : t.reports exceeds s e = false := by
      have hany : (s.entries.any fun e => e.changes exceeds s.value) = false := hp'
      have hno : e.changes exceeds s.value = false :=
        Bool.eq_false_iff.2 (List.any_eq_false.1 hany e he)
      rw [reports, hno, hany, Bool.and_false, Bool.or_false]
    exact hI.unreported hp hty he hh hmon hf hr hm
  | @reported s₁ _ value hmatch hreport =>
    obtain ⟨hsc, _, hT'⟩ := hI.match_tracks hmatch
    have hty : t.Typed := hI.typed hsc
    obtain ⟨hany, msg, rfl, rfl⟩ := report_effect (s := { s₁ with value := value }) hT' hty hreport
    obtain ⟨hp, rfl⟩ := match_effect hI.tracks hty he hmon hmatch
    obtain ⟨m₁, hm₁, rfl⟩ := Option.map_eq_some_iff.1 hm
    have he' : e.matched exceeds s.value ∈ s.entries.map fun e => e.matched exceeds s.value :=
      List.mem_map_of_mem he
    have hread := @readings_eq t value _ _ hT' he'
    have hlast := @lastAt_report t value _ _ hT' he'
    rw [reported_matched e hany, Compiled.matched_handle, hh] at hread hlast
    rw [hread, receive_apply, hlast, Compiled.matched_type]
    cases hr : t.reports exceeds s e with
    | true =>
      obtain ⟨v, hv⟩ := Option.isSome_iff_exists.1
        ((toPb_isSome e.type (value handle) 0).trans (hI.tracks.typed hty he))
      have hcur : t.current exceeds handle s := by
        intro e' he' hh' _ hr'
        rw [List.inj_on_of_nodup_map hI.tracks.nodup he' he (hh'.trans hh.symm), hr] at hr'
        cases hr'
      rw [if_pos rfl, if_pos rfl, hv, Option.some_or]
      exact iff_of_true rfl hcur
    | false =>
      rw [if_neg Bool.false_ne_true, if_neg Bool.false_ne_true, Option.none_or]
      exact hI.unreported hp hty he hh hmon hf hr hm₁

/-- A full update gives the subscriber the values it sends. -/
lemma SubscriberInv.full (hI : t.SubscriberInv handle s) {msg : List (ℤ × HalDataU)}
    (hmsg : t.fullUpdate s.value = some msg) (f g : ℤ → Option HalDataU) (he : e ∈ s.entries) :
    receive f msg e.handle = (receive g msg e.handle).or (toPb e.type e.tracking) := by
  have hty := (typed_of_fullUpdate hmsg).1
  obtain ⟨v, hv⟩ := Option.isSome_iff_exists.1
    ((toPb_isSome e.type (s.value e.handle) 0).trans (hI.tracks.typed hty he))
  rw [receive_apply, receive_apply, lastAt_fullUpdate hI.tracks he hmsg, hv, Option.some_or,
    Option.some_or, Option.some_or]

/-- A match keeps the invariant if it meets the condition. -/
lemma SubscriberInv.match_inv (hI : t.SubscriberInv handle s)
    (hok : s.held ≠ none → t.current exceeds handle s)
    (hs : t.step exceeds s .compiledMatch = some s') : t.SubscriberInv handle s' := by
  obtain ⟨hsc, hsc', hT'⟩ := hI.match_tracks hs
  have hty : t.Typed := hI.typed hsc
  refine ⟨hT', fun _ => hty, fun _ => hsc', ?_⟩
  intro m hm e' he' hh' hmon' hf'
  -- the element before the match
  obtain ⟨o, ho, h1, h2, h3⟩ := hT'.obj e' he'
  obtain ⟨e, he, k1, k2, hmon⟩ := hI.tracks.elem o ho (h3 ▸ hmon')
  obtain ⟨hp, rfl⟩ := match_effect hI.tracks hty he hmon hs
  have hf : e.type ≠ .halFloat := by rwa [k2, ← h2]
  have hh : e.handle = handle := k1.trans (h1.symm.trans hh')
  obtain rfl : e' = e.matched exceeds s.value := by
    refine List.inj_on_of_nodup_map hT'.nodup he' (List.mem_map_of_mem he) ?_
    rw [Compiled.matched_handle, h1, k1]
  cases hr : t.reports exceeds s e with
  | true =>
    have hany : s.entries.any (fun e => e.changes exceeds s.value) = true := by
      rcases Bool.or_eq_true_iff.1 hr with hc | hc
      · exact List.any_eq_true.2 ⟨e, he, hc⟩
      · exact (Bool.and_eq_true_iff.1 hc).2
    exact .inl ⟨hany, (reported_matched e hany).trans hr⟩
  | false =>
    have hcur := hok (by rw [hm]; exact Option.some_ne_none m)
    refine .inr ?_
    rw [(hI.unreported hp hty he hh hmon hf hr hm).2 hcur, Option.none_or, Compiled.matched_type,
      e.toPb_matched hmon (hI.tracks.typed hty he) hf, hh]

/-- A report keeps the invariant. -/
lemma SubscriberInv.report_inv (hI : t.SubscriberInv handle s)
    (hs : t.step exceeds s .compiledReport = some s') : t.SubscriberInv handle s' := by
  have hp : s.pending = true := by
    by_contra hp
    simp [Topic.step, hp] at hs
  have hsc := hI.pending hp
  obtain ⟨_, msg, rfl, rfl⟩ := report_effect hI.tracks (hI.typed hsc) hs
  refine ⟨hI.tracks, hI.typed, fun _ => hsc, ?_⟩
  intro m' hm' e he hh hmon hf
  obtain ⟨m, hm, rfl⟩ := Option.map_eq_some_iff.1 hm'
  have hlast := @lastAt_report t s.value _ _ hI.tracks he
  rw [hh] at hlast
  refine .inr (show receive m _ handle = (receive s.sent _ handle).or _ from ?_)
  rw [receive_apply, receive_apply, hlast, Option.or_assoc]
  cases hr : t.reportsAll s.entries || e.changed with
  | true =>
    obtain ⟨v, hv⟩ := Option.isSome_iff_exists.1
      ((toPb_isSome e.type (s.value handle) 0).trans (hI.tracks.typed (hI.typed hsc) he))
    rw [if_pos rfl, hv, Option.some_or, Option.some_or]
  | false =>
    rcases hI.held m hm e he hh hmon hf with ⟨_, hr'⟩ | hheld
    · rw [hr] at hr'
      cases hr'
    · rw [if_neg Bool.false_ne_true, Option.none_or, Option.none_or, hheld]

/-- Every step keeps the invariant, a match if it meets the condition. -/
lemma SubscriberInv.step {a : TopicAct} (hI : t.SubscriberInv handle s)
    (hok : a = .compiledMatch → s.held ≠ none → t.current exceeds handle s)
    (hs : t.step exceeds s a = some s') : t.SubscriberInv handle s' := by
  cases a with
  | change value =>
    cases hs
    exact ⟨hI.tracks, hI.typed, hI.pending, hI.held⟩
  | subscribe self =>
    simp only [Topic.step] at hs
    split at hs
    · cases hs
    obtain ⟨msg, hmsg, rfl⟩ := Option.map_eq_some_iff.1 hs
    refine ⟨hI.tracks, fun _ => (typed_of_fullUpdate hmsg).1, fun _ => rfl, ?_⟩
    rintro m hm e he rfl _ _
    cases self with
    | true =>
      cases hm
      exact .inr (hI.full hmsg _ _ he)
    | false =>
      obtain ⟨m, _, rfl⟩ := Option.map_eq_some_iff.1 hm
      exact .inr (hI.full hmsg _ _ he)
  | unsubscribe =>
    simp only [Topic.step] at hs
    split at hs
    · cases hs
    next hp =>
    cases hs
    exact ⟨hI.tracks, nofun, fun h => absurd h hp, nofun⟩
  | compiledMatch => exact hI.match_inv (hok rfl) hs
  | compiledReport => exact hI.report_inv hs

/-- **Subscriber consistency.** In every run from a topic just compiled in which each match
since the subscriber came meets the condition for an object that is not a float, the
subscriber has the value that the next scan reads of the object exactly if that scan meets
the condition. -/
theorem subscriber_consistent {s₀ : TopicSys} {o : TopicObj} (ho : o ∈ t.objs)
    (hm : t.monitors o = true) (hf : o.type ≠ .halFloat) (h0 : t.adopted s₀)
    (hr : Reach (t.step exceeds)
      (fun s a => a = .compiledMatch → s.held ≠ none → t.current exceeds o.handle s) s₀ s)
    {readings : ℤ → HalDataU} (hs : t.Scans exceeds s readings s') {m : ℤ → Option HalDataU}
    (hheld : s'.held = some m) :
    m o.handle = toPb o.type (readings o.handle) ↔ t.current exceeds o.handle s := by
  have hI : t.SubscriberInv o.handle s :=
    hr.invariant (SubscriberInv.start h0) fun hI hok hs => hI.step hok hs
  obtain ⟨e, he, h1, h2, hmon⟩ := hI.tracks.elem o ho hm
  rw [← h2] at hf ⊢
  exact hI.scan he h1 hmon hf hs hheld

end Topic

/-- A remote component with one `HAL_S32` pin. -/
def panelTopic : Topic :=
  { kind := .rcomp
    objs := [⟨2, .halS32, 0⟩]
    nodup := by decide
    sigTypes := fun h => absurd rfl h }

/-- The component when it was adopted, with the pin at 0. -/
def panelAdopted : TopicSys :=
  { value := fun _ => 0, entries := [⟨2, .halS32, true, 0, false⟩], scanning := false
    pending := false, held := none, sent := fun _ => none }

/-- No float differs. -/
def noFloats : ℤ → HalDataU → HalDataU → Bool := fun _ _ _ => false

/-- A match meets the condition for the pin. -/
def scanCurrent (s : TopicSys) : TopicAct → Bool
  | .compiledMatch => panelTopic.current noFloats 2 s
  | _ => true

/-- The pin changes, a client subscribes, the pin changes again between match and report of
a scan, two more scans run, the last of them silent, and the pin changes. -/
def watched : List TopicAct :=
  [.change fun _ => 5, .subscribe true, .compiledMatch, .change fun _ => 7, .compiledReport,
    .compiledMatch, .compiledReport, .compiledMatch, .change fun _ => 9]

/-- The next match reads 9, its report reads 8, and the subscriber holds 8. -/
theorem subscriber_consistent_watched : ∃ s s' : TopicSys, ∃ readings : ℤ → HalDataU,
    ∃ m : ℤ → Option HalDataU,
    run (panelTopic.step noFloats) scanCurrent panelAdopted watched = some s ∧
    panelTopic.Scans noFloats s readings s' ∧ s'.held = some m ∧ s.value 2 = 9 ∧
    readings 2 = 8 ∧ m 2 = some 8 := by
  have hv : ((run (panelTopic.step noFloats) scanCurrent panelAdopted watched).bind fun s =>
      (panelTopic.step noFloats s .compiledMatch).bind fun s₁ =>
        (panelTopic.step noFloats { s₁ with value := fun _ => 8 } .compiledReport).map fun s' =>
          (decide (panelTopic.current noFloats 2 s), s.value 2,
            panelTopic.readings s₁ (fun _ => 8) 2, s'.held.isSome)) =
      some (true, 9, 8, true) := by decide
  obtain ⟨s, hrun, hstep⟩ := Option.bind_eq_some_iff.1 hv
  obtain ⟨s₁, hmatch, hstep⟩ := Option.bind_eq_some_iff.1 hstep
  obtain ⟨s', hs, hval⟩ := Option.map_eq_some_iff.1 hstep
  simp only [Prod.mk.injEq] at hval
  obtain ⟨hcur, hval, hread, hheld⟩ := hval
  obtain ⟨m, hm⟩ := Option.isSome_iff_exists.1 hheld
  have hr : Reach (panelTopic.step noFloats)
      (fun s a => a = .compiledMatch → s.held ≠ none → panelTopic.current noFloats 2 s)
      panelAdopted s := by
    refine (reach_of_run _ _ hrun).mono fun hok ha _ => ?_
    subst ha
    exact of_decide_eq_true hok
  have hscan := Topic.Scans.reported hmatch hs
  refine ⟨s, s', _, m, hrun, hscan, hm, hval, hread, ?_⟩
  rw [(Topic.subscriber_consistent (List.mem_singleton.2 rfl) (by decide) (by decide)
    ⟨by decide, rfl, rfl, rfl, rfl⟩ hr hscan hm).2 (of_decide_eq_true hcur), hread]
  decide

/-- The pin changes, a client subscribes, and the pin changes back. -/
def changedBack : List TopicAct := [.change fun _ => 5, .subscribe true, .change fun _ => 0]

/-- The full update does not touch the tracking values: a pin that is back at its tracking
value at the next scan is not reported, and the subscriber is left with the value the full
update had. -/
theorem subscriber_consistent_changedBack : ¬ ∀ (t : Topic)
    (exceeds : ℤ → HalDataU → HalDataU → Bool) (s₀ s s' : TopicSys) (o : TopicObj)
    (readings : ℤ → HalDataU) (m : ℤ → Option HalDataU), o ∈ t.objs → t.monitors o = true →
    o.type ≠ .halFloat → t.adopted s₀ → Reach (t.step exceeds) (fun _ _ => True) s₀ s →
    t.Scans exceeds s readings s' → s'.held = some m →
    m o.handle = toPb o.type (readings o.handle) := by
  intro hall
  have hv : ((run (panelTopic.step noFloats) (fun _ _ => true) panelAdopted changedBack).bind
      fun s => (panelTopic.step noFloats s .compiledMatch).map fun s' =>
        (s'.pending, s.value 2, s'.held.map fun m => m 2)) = some (false, 0, some (some 5)) := by
    decide
  obtain ⟨s, hrun, hstep⟩ := Option.bind_eq_some_iff.1 hv
  obtain ⟨s', hs, hval⟩ := Option.map_eq_some_iff.1 hstep
  simp only [Prod.mk.injEq] at hval
  obtain ⟨hp, hval, hheld⟩ := hval
  obtain ⟨m, hm, hm2⟩ := Option.map_eq_some_iff.1 hheld
  have hr : Reach (panelTopic.step noFloats) (fun _ _ => True) panelAdopted s :=
    (reach_of_run _ _ hrun).mono fun _ => trivial
  have hsame := hall panelTopic noFloats panelAdopted s s' ⟨2, .halS32, 0⟩ _ m
    (List.mem_singleton.2 rfl) (by decide) (by decide) ⟨by decide, rfl, rfl, rfl, rfl⟩ hr
    (.silent hs hp) hm
  rw [hm2, hval] at hsame
  exact absurd hsame (by decide)

end MachinekitHal
