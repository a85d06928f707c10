import MachinekitHal.Hal.CompiledArrays
import MachinekitHal.Hal.ChangeTracking
import MachinekitHal.Hal.SignalDeletion

/-!
`hal_group.c`: compiled groups.

* `CompiledGroup`: `hal_compiled_group_t`, in the memory of a process.
* `halprGroupCompile`: counts the members in two ways and fills the arrays;
  `halprGroupCompile_cases` says with what.
* `CgroupAct`, `cgroupRun`: signals change, and the group is matched and reported, in any order.
* `cgroup_exact`: it does, in every state of every run, and no access is outside an array;
  `cgroup_exact_fails`: a change can be reported twice or never.

A member is compiled as its descriptor, which does not change while the group is referenced.
The type and value of its signal are read with every call (`SigEnv`).
-/

namespace MachinekitHal

open Store Runs

/-- `hal_compiled_group_t`; `changed` and `tracking` may be NULL. -/
structure CompiledGroup where
  magic : Bool
  group : Obj Group
  nMembers : ℕ
  mbrIndex : ℕ
  monIndex : ℕ
  member : List (Option (Obj Member))
  changed : Option (Bitmap.Words 64)
  nMonitored : ℕ
  tracking : Option (List HalDataU)
  deriving DecidableEq

/-- The signals, by offset. `halg_signal_new` makes signals of the types that the match has a
case for. -/
structure SigEnv where
  type : ℕ → HalType
  value : ℕ → HalDataU
  made : ∀ sig, matchTypes (type sig) = true

/-- The signal of a member as the match sees it. -/
def SigEnv.watch (v : SigEnv) (m : Obj Member) : Watched :=
  ⟨v.type m.body.sigPtr, m.body.epsIndex, v.value m.body.sigPtr⟩

/-- A signal gets another value. -/
def SigEnv.set (v : SigEnv) (sig : ℕ) (u : HalDataU) : SigEnv :=
  { v with value := Function.update v.value sig u }

/-- Whether changes of a member are monitored. -/
def Group.monitors (group : Group) (m : Obj Member) : Bool :=
  m.body.userarg1 &&& memberMonitorChange ≠ 0 ∨ group.userarg2 &&& groupMonitorAllMembers ≠ 0

/-- `userarg2 & (GROUP_REPORT_ON_CHANGE|GROUP_REPORT_CHANGED_MEMBERS)`. -/
def Group.onChange (group : Group) : Bool :=
  group.userarg2 &&& (groupReportOnChange ||| groupReportChangedMembers) ≠ 0

/-! ### Compiling -/

/-- `cgroup_size_cb`, on `n_members` and `n_monitored`. -/
def cgroupSizeCb (group : Group) (tc : ℕ × ℕ) (m : Obj Member) : ℕ × ℕ :=
  (tc.1 + 1, if group.monitors m then tc.2 + 1 else tc.2)

/-- `cgroup_init_members_cb`, on `member`, `mbr_index` and `mon_index`. -/
def cgroupInitMembersCb (group : Group) (tc : List (Option (Obj Member)) × ℕ × ℕ)
    (m : Obj Member) : Option (List (Option (Obj Member)) × ℕ × ℕ) :=
  (store tc.1 tc.2.1 (some m)).map fun member =>
    (member, tc.2.1 + 1, if group.monitors m then tc.2.2 + 1 else tc.2.2)

/-- The members of a group, in the order `halg_foreach` visits them. -/
def GroupHal.groupMembers (s : GroupHal) (grp : Obj Group) : List (Obj Member) :=
  s.members.filter fun m => m.hdr.valid && ownedBy grp.hdr.id.toInt m

/-- `halpr_group_compile`; there is no result when an access is outside an array or an assertion
fails. -/
def GroupHal.halprGroupCompile (e : Mallocs) (name : String) (s : GroupHal) :
    Option (Except Errno CompiledGroup × GroupHal) :=
  match findByName name s.groups with
  | none => some (.error .EINVAL, s)
  | some grp =>
    if e.struct = false then some (.error .ENOMEM, s) else
    -- first pass: determine sizes
    let sizes := (s.groupMembers grp).foldl (cgroupSizeCb grp.body) (0, 0)
    if e.objs = false then some (.error .ENOMEM, s) else
    -- second pass: fill in references
    ((s.groupMembers grp).foldlM (cgroupInitMembersCb grp.body)
      (List.replicate sizes.1 none, 0, 0)).bind fun tc =>
      if tc.2.2 ≠ sizes.2 ∨ tc.2.1 ≠ sizes.1 then none else
      if grp.body.onChange ∧ sizes.2 = 0 then some (.error .EINVAL, s) else
      let cg : CompiledGroup :=
        { magic := true, group := grp, nMembers := sizes.1, mbrIndex := tc.2.1
          monIndex := tc.2.2, member := tc.1, changed := none, nMonitored := 0, tracking := none }
      if grp.body.onChange ∨ 0 < sizes.2 then
        if ¬ (e.tracking ∧ e.changed) then some (.error .ENOMEM, s) else
        some (.ok { cg with changed := some (Bitmap.zero 64 sizes.1), nMonitored := sizes.2
                            tracking := some (List.replicate sizes.2 0) }, s.hoIncref grp.off)
      else some (.ok cg, s.hoIncref grp.off)

/-! ### Matching and reporting -/

/-- What the loop finds at an index. -/
def CompiledGroup.entry (v : SigEnv) (cg : CompiledGroup) (i : ℕ) : Option (Option Watched) :=
  cg.member[i]?.join.map fun m => if cg.group.body.monitors m then some (v.watch m) else none

/-- Whether the match walks the group. -/
def CompiledGroup.monitor (cg : CompiledGroup) : Bool := cg.group.body.onChange ∨ 0 < cg.nMonitored

/-- `hal_cgroup_match`. -/
def halCgroupMatch (exceeds : BitVec 8 → HalDataU → HalDataU → Bool) (v : SigEnv)
    (cg : CompiledGroup) : Option (Except Errno ℕ × CompiledGroup) :=
  if cg.magic = false then none else
  if cg.monitor then
    cg.changed.bind fun changed => cg.tracking.bind fun tracking =>
      (Bitmap.clear changed cg.nMembers).bind fun changed =>
        (matchLoop exceeds (cg.entry v) cg.nMembers 0 0 ⟨0, changed, tracking⟩).map fun r =>
          (matchRc r.1 r.2, { cg with changed := some r.2.changed, tracking := some r.2.tracking })
  else some (.ok 1, cg)

/-- Whether a report is about all members. -/
def CompiledGroup.reportall (cg : CompiledGroup) (forceAll : Bool) : Bool :=
  forceAll ∨ cg.nMonitored = 0 ∨ cg.group.body.userarg2 &&& groupReportChangedMembers = 0

/-- `hal_cgroup_report`, with the calls made; a callback gets a signal. -/
def halCgroupReport (cg : CompiledGroup) (reportCb : Option (List (ReportCall ℕ) → ℤ))
    (forceAll : Bool) : Option ((ℤ × List (ReportCall ℕ)) × CompiledGroup) :=
  (report reportCb
    (fun i => if cg.reportall forceAll then some true
      else cg.changed.bind fun changed => Bitmap.test changed i)
    (fun i => cg.member[i]?.join.map fun m => m.body.sigPtr) cg.nMembers).map fun r => (r, cg)

/-- Whether a member is flagged. -/
def CompiledGroup.bit (cg : CompiledGroup) (i : ℕ) : Bool := cg.changed.any fun b => Bitmap.bit b i

/-- The signals a report is about. -/
def CompiledGroup.reported (cg : CompiledGroup) (forceAll : Bool) : List ℕ :=
  (cg.member.reduceOption.zipIdx.filter fun p => cg.reportall forceAll || cg.bit p.2).map fun p =>
    p.1.body.sigPtr

/-! ### Runs -/

/-- A signal changes, or the group is matched or reported. -/
inductive CgroupAct where
  | setSignal (sig : ℕ) (u : HalDataU)
  | cgroupMatch
  | cgroupReport (forceAll : Bool)
  deriving DecidableEq

/-- What a run shows: the number of changes of a match, and the calls of reports. -/
inductive CgroupEvent where
  | found (n : ℕ)
  | call (c : ReportCall ℕ)
  deriving DecidableEq

/-- The signals and the compiled group. -/
structure CgroupState where
  env : SigEnv
  cg : CompiledGroup

/-- One step; every call of the callback is answered with 0. A match that fails ends the run. -/
def cgroupStep (exceeds : BitVec 8 → HalDataU → HalDataU → Bool) (s : CgroupState) :
    CgroupAct → Option (CgroupState × List CgroupEvent)
  | .setSignal sig u => some ({ s with env := s.env.set sig u }, [])
  | .cgroupMatch =>
    match halCgroupMatch exceeds s.env s.cg with
    | some (.ok n, cg) => some ({ s with cg := cg }, [.found n])
    | _ => none
  | .cgroupReport forceAll =>
    (halCgroupReport s.cg (some fun _ => 0) forceAll).map fun r =>
      ({ s with cg := r.2 }, r.1.2.map .call)

/-- A run, with what it shows. -/
def cgroupRun (exceeds : BitVec 8 → HalDataU → HalDataU → Bool) (s : CgroupState) :
    List CgroupAct → Option (CgroupState × List CgroupEvent)
  | [] => some (s, [])
  | a :: acts =>
    (cgroupStep exceeds s a).bind fun r => (cgroupRun exceeds r.1 acts).map fun r' =>
      (r'.1, r.2 ++ r'.2)

/-! ### What should hold -/

/-- The place of the tracking value of a member: the number of monitored members before it. -/
def CompiledGroup.slot (cg : CompiledGroup) (i : ℕ) : ℕ :=
  (cg.member.take i).countP fun m => m.any cg.group.body.monitors

/-- **A match** that returned `n` is exact: a group that is not walked matches by default; else the
monitored members that differ from their tracking values are flagged and counted, their values
are taken over and no others. -/
structure CgroupMatched (exceeds : BitVec 8 → HalDataU → HalDataU → Bool) (v : SigEnv)
    (cg : CompiledGroup) (n : ℕ) (cg' : CompiledGroup) : Prop where
  quiet : cg.monitor = false → n = 1 ∧ cg' = cg
  count : cg.monitor = true → n = (List.range cg.nMembers).countP cg'.bit
  places : ∀ i m, cg.member[i]? = some (some m) → cg.group.body.monitors m = true →
    ∃ t, cg.tracking.bind (·[cg.slot i]?) = some t ∧
      cg'.bit i = (v.watch m).differs exceeds t ∧
      cg'.tracking.bind (·[cg.slot i]?) = some ((v.watch m).matched exceeds t)
  others : cg.monitor = true → ∀ i m, cg.member[i]? = some (some m) →
    cg.group.body.monitors m = false → cg'.bit i = false
  member : cg'.member = cg.member

/-- What an act other than a match shows. -/
def CompiledGroup.shows (cg : CompiledGroup) : CgroupAct → List CgroupEvent
  | .cgroupReport forceAll => (reportCalls (cg.reported forceAll)).map .call
  | _ => []

/-- In a state the next match is exact; a report after it has the signals of all members, or of
the flagged ones, every one once, up to an answer that is negative; and until the match after
that, every report does. -/
def CgroupExact (exceeds : BitVec 8 → HalDataU → HalDataU → Bool) (s : CgroupState) : Prop :=
  ∃ n cg', halCgroupMatch exceeds s.env s.cg = some (.ok n, cg') ∧
    CgroupMatched exceeds s.env s.cg n cg' ∧
    (cg'.reportall false = false → (cg'.reported false).length = n) ∧
    (∀ cb forceAll, ∃ r, halCgroupReport cg' (some cb) forceAll = some (r, cg') ∧
      Told cb (reportCalls (cg'.reported forceAll)) r) ∧
    ∀ acts v, CgroupAct.cgroupMatch ∉ acts → ∃ s',
      cgroupRun exceeds ⟨v, cg'⟩ acts = some (s', acts.flatMap cg'.shows) ∧ s'.cg = cg'

variable {exceeds : BitVec 8 → HalDataU → HalDataU → Bool} {cg : CompiledGroup} {v : SigEnv}
  {ms : List (Obj Member)} {e : Mallocs} {name : String} {s : GroupHal}

/-! ### What is compiled -/

lemma foldl_cgroupSizeCb (group : Group) (ms : List (Obj Member)) (tc : ℕ × ℕ) :
    ms.foldl (cgroupSizeCb group) tc = (tc.1 + ms.length, tc.2 + ms.countP group.monitors) := by
  induction ms generalizing tc with
  | nil => rfl
  | cons m ms ih =>
    rw [List.foldl_cons, ih, List.countP_cons, List.length_cons, cgroupSizeCb]
    refine Prod.ext (by simp only; omega) ?_
    by_cases hm : group.monitors m = true
    · simp [hm]
      omega
    · simp [hm]

lemma foldlM_cgroupInitMembersCb (group : Group) (ms : List (Obj Member))
    (tc : List (Option (Obj Member)) × ℕ × ℕ) :
    ms.foldlM (cgroupInitMembersCb group) tc = (fill tc.1 tc.2.1 (ms.map some)).map fun r =>
      (r.1, r.2, tc.2.2 + ms.countP group.monitors) := by
  induction ms generalizing tc with
  | nil => rfl
  | cons m ms ih =>
    rw [List.foldlM_cons, List.map_cons, fill, List.countP_cons]
    cases hs : store tc.1 tc.2.1 (some m) with
    | none => simp [cgroupInitMembersCb, hs]
    | some member =>
      simp only [cgroupInitMembersCb, hs, Option.map_some, Option.bind_eq_bind,
        Option.bind_some, ih]
      by_cases hm : group.monitors m = true
      · simp [hm, add_assoc, add_comm 1]
      · simp [hm]

/-- A compiled group, its arrays and what they are for have the same sizes. -/
structure CompiledGroup.Sized (cg : CompiledGroup) (ms : List (Obj Member)) : Prop where
  magic : cg.magic = true
  nMembers : cg.nMembers = ms.length
  member : cg.member = ms.map some
  nMonitored : cg.nMonitored = ms.countP cg.group.body.monitors
  arrays : cg.monitor = true → ∃ b ts, cg.changed = some b ∧ cg.tracking = some ts ∧
    b.length = Bitmap.size 64 ms.length ∧ ts.length = ms.countP cg.group.body.monitors

/-- **`halpr_group_compile`** fails with an error, or has the members of the group and the arrays
for them. -/
lemma halprGroupCompile_cases (e : Mallocs) (name : String) (s : GroupHal) :
    (∃ err s', s.halprGroupCompile e name = some (.error err, s')) ∨
    ∃ grp cg, findByName name s.groups = some grp ∧ cg.group = grp ∧
      cg.Sized (s.groupMembers grp) ∧
      s.halprGroupCompile e name = some (.ok cg, s.hoIncref grp.off) := by
  rw [GroupHal.halprGroupCompile]
  cases hgrp : findByName name s.groups with
  | none => exact .inl ⟨_, _, rfl⟩
  | some grp =>
  simp only [foldl_cgroupSizeCb, foldlM_cgroupInitMembersCb, zero_add]
  set ms := s.groupMembers grp with hms
  have hfill : fill (List.replicate ms.length none) 0 (ms.map some) =
      some (ms.map some, ms.length) := by
    rw [fill_eq (by simp), List.length_map]
  simp only [hfill, Option.map_some, Option.bind_some, ne_eq, not_true_eq_false, or_self, if_false]
  by_cases hstruct : e.struct = false
  · exact .inl ⟨_, _, if_pos hstruct⟩
  by_cases hobjs : e.objs = false
  · exact .inl ⟨_, _, by rw [if_neg hstruct, if_pos hobjs]⟩
  rw [if_neg hstruct, if_neg hobjs]
  split_ifs with hsense hwalk hmem
  · exact .inl ⟨_, _, rfl⟩
  · exact .inr ⟨grp, _, rfl, rfl, ⟨rfl, rfl, rfl, rfl, fun _ =>
      ⟨_, _, rfl, rfl, Bitmap.length_zero, List.length_replicate⟩⟩, rfl⟩
  · exact .inl ⟨_, _, rfl⟩
  · rw [not_or, Nat.pos_iff_ne_zero, not_not] at hwalk
    refine .inr ⟨grp, _, rfl, rfl, ⟨rfl, rfl, rfl, hwalk.2.symm, fun hmon => ?_⟩, rfl⟩
    simp [CompiledGroup.monitor, hwalk.1] at hmon

/-! ### What is matched -/

namespace CompiledGroup.Sized

/-- The members as the loop finds them. -/
def entries (v : SigEnv) (grp : Group) (ms : List (Obj Member)) : List (Option Watched) :=
  ms.map fun m => if grp.monitors m then some (v.watch m) else none

lemma monitored_entries (v : SigEnv) (grp : Group) (ms : List (Obj Member)) :
    monitored (entries v grp ms) = ms.countP grp.monitors := by
  rw [monitored, entries, List.countP_map]
  refine List.countP_congr fun m _ => ?_
  by_cases hm : grp.monitors m = true <;> simp [hm]

/-- The two counters of the loop stay in line with the two counts of the compilation. -/
lemma monitored_take (hs : cg.Sized ms) (i : ℕ) :
    monitored ((entries v cg.group.body ms).take i) = cg.slot i := by
  have htake : (entries v cg.group.body ms).take i = entries v cg.group.body (ms.take i) := by
    rw [entries, entries, List.map_take]
  rw [htake, monitored_entries, CompiledGroup.slot, hs.member, ← List.map_take, List.countP_map]
  rfl

variable (exceeds) in
/-- **The match** of a group that is walked, in terms of the pairs of members and tracking
values. -/
lemma match_eq (hs : cg.Sized ms) (hmon : cg.monitor = true) (v : SigEnv) :
    ∃ ts b, cg.tracking = some ts ∧ Aligned (entries v cg.group.body ms) ts ∧
      halCgroupMatch exceeds v cg =
        some (.ok ((paired (entries v cg.group.body ms) ts).countP (flagged exceeds)),
          { cg with changed := some b
                    tracking := some (matchedValues exceeds
                      (paired (entries v cg.group.body ms) ts)) }) ∧
      b.length = Bitmap.size 64 ms.length ∧
      ∀ j, Bitmap.bit b j =
        ((paired (entries v cg.group.body ms) ts)[j]?).any (flagged exceeds) := by
  obtain ⟨b₀, ts, hchanged, htracking, hb₀, hts⟩ := hs.arrays hmon
  have hal : Aligned (entries v cg.group.body ms) ts :=
    aligned_of_length (by rw [monitored_entries, hts])
  have hlen : (entries v cg.group.body ms).length = ms.length := by simp [entries]
  obtain ⟨b, hloop, hb, hbits⟩ := matchLoop_eq exceeds (cg.entry v) hal
    (fun k hk => by
      have hk' : k < ms.length := hlen ▸ hk
      simp [CompiledGroup.entry, hs.member, entries, List.getElem?_eq_getElem hk'])
    (fun o ho => by
      obtain ⟨m, -, hm⟩ := List.mem_map.1 ho
      split_ifs at hm
      exact Option.some.inj hm ▸ v.made m.body.sigPtr)
  rw [hlen] at hloop hb
  refine ⟨ts, b, htracking, hal, ?_, hb, hbits⟩
  rw [halCgroupMatch, hs.magic, if_neg (by simp), if_pos hmon, hchanged, htracking,
    Option.bind_some, Option.bind_some, hs.nMembers, Bitmap.clear_eq hb₀, Option.bind_some, hloop]
  rfl

variable (exceeds) in
lemma matched (hs : cg.Sized ms) {ts : List HalDataU} {b : Bitmap.Words 64}
    (h : Aligned (entries v cg.group.body ms) ts) (hb : b.length = Bitmap.size 64 ms.length) :
    CompiledGroup.Sized
      { cg with changed := some b
                tracking := some (matchedValues exceeds
                  (paired (entries v cg.group.body ms) ts)) } ms := by
  refine ⟨hs.magic, hs.nMembers, hs.member, hs.nMonitored, fun _ => ⟨_, _, rfl, rfl, hb, ?_⟩⟩
  rw [(h.matched exceeds).length_eq, monitored_entries]

variable (exceeds) in
/-- **A match** does not fail, is exact, and leaves arrays of the right sizes. -/
lemma cgroupMatch (hs : cg.Sized ms) (v : SigEnv) :
    ∃ n cg', halCgroupMatch exceeds v cg = some (.ok n, cg') ∧ cg'.Sized ms ∧
      CgroupMatched exceeds v cg n cg' := by
  by_cases hmon : cg.monitor = true
  · obtain ⟨ts, b, htr, hal, hmatch, hb, hbits⟩ := hs.match_eq exceeds hmon v
    refine ⟨_, _, hmatch, hs.matched exceeds hal hb, ?_, ?_, ?_, ?_, rfl⟩
    · exact fun hno => absurd hmon (by simp [hno])
    · intro _
      have hlen : (entries v cg.group.body ms).length = cg.nMembers := by
        simp [entries, hs.nMembers]
      rw [count_bits hal hbits, hlen]
      rfl
    · intro i m hm hmonitors
      have hmi : ms[i]? = some m := by simpa [hs.member] using hm
      have hent : (entries v cg.group.body ms)[i]? = some (some (v.watch m)) := by
        simp [entries, hmi, hmonitors]
      obtain ⟨t, ht, -⟩ := hal.paired_some hent
      obtain ⟨hpair, htaken⟩ := hal.matched_at exceeds hent ht
      rw [hs.monitored_take] at ht htaken
      exact ⟨t, by simpa [htr] using ht, by simp [CompiledGroup.bit, hbits, hpair],
        by simpa using htaken⟩
    · intro _ i m hm hmonitors
      have hmi : ms[i]? = some m := by simpa [hs.member] using hm
      have hent : (entries v cg.group.body ms)[i]? = some none := by
        simp [entries, hmi, hmonitors]
      simp [CompiledGroup.bit, hbits, hal.paired_none hent]
  · have hno : cg.monitor = false := by simpa using hmon
    refine ⟨1, cg, by simp [halCgroupMatch, hs.magic, hno], hs, fun _ => ⟨rfl, rfl⟩,
      fun hyes => absurd hyes hmon, ?_, fun hyes => absurd hyes hmon, rfl⟩
    -- no member of a group that is not walked is monitored
    intro i m hm hmonitors
    have hzero : ms.countP cg.group.body.monitors = 0 := by
      have hnone : ¬ 0 < cg.nMonitored := by
        simp only [CompiledGroup.monitor, decide_eq_false_iff_not, not_or] at hno
        exact hno.2
      rw [← hs.nMonitored]
      omega
    have hmem : m ∈ ms := List.mem_of_getElem? (i := i) (by simpa [hs.member] using hm)
    exact absurd hmonitors (List.countP_eq_zero.1 hzero m hmem)

/-- A group that is not reported as a whole is walked by the match. -/
lemma monitor_of_reportall {forceAll : Bool} (h : cg.reportall forceAll = false) :
    cg.monitor = true := by
  simp only [CompiledGroup.reportall, decide_eq_false_iff_not, not_or] at h
  simp only [CompiledGroup.monitor, decide_eq_true_eq]
  omega

lemma cgroupReport (hs : cg.Sized ms) (cb : List (ReportCall ℕ) → ℤ) (forceAll : Bool) :
    ∃ r, halCgroupReport cg (some cb) forceAll = some (r, cg) ∧
      Told cb (reportCalls (cg.reported forceAll)) r := by
  set ps := ms.zipIdx.map fun p =>
    (p.1.body.sigPtr, cg.reportall forceAll || cg.bit p.2) with hps
  have hlen : ps.length = ms.length := by simp [hps]
  have hget : ∀ k (hk : k < ms.length),
      ps[k]? = some (ms[k].body.sigPtr, cg.reportall forceAll || cg.bit k) := by
    intro k hk
    simp [hps, List.getElem?_eq_getElem hk]
  obtain ⟨r, hr, htold⟩ := report_told cb
    (fun i => if cg.reportall forceAll then some true
      else cg.changed.bind fun changed => Bitmap.test changed i)
    (fun i => cg.member[i]?.join.map fun m => m.body.sigPtr)
    (fun k (hk : k < ps.length) => by
      have hk' : k < ms.length := hlen ▸ hk
      rw [hget k hk']
      cases hall : cg.reportall forceAll with
      | true => rfl
      | false =>
        -- a group that is not reported as a whole has a monitored member, and so a bitmap
        obtain ⟨b, ts, hb, -, hblen, -⟩ := hs.arrays (monitor_of_reportall hall)
        have hw : k / 64 < b.length := by
          rw [hblen]
          exact Bitmap.word_lt (by decide) hk'
        simp [hb, CompiledGroup.bit, Bitmap.test_eq (by decide : 0 < 64) hw])
    (fun k hk => by
      have hk' : k < ms.length := hlen ▸ hk
      rw [hget k hk']
      simp [hs.member, List.getElem?_eq_getElem hk'])
  refine ⟨r, ?_, ?_⟩
  · rw [halCgroupReport, hs.nMembers, ← hlen, hr]
    rfl
  · have hrep : (ps.filter Prod.snd).map Prod.fst = cg.reported forceAll := by
      rw [CompiledGroup.reported, hs.member, reduceOption_map_some, hps,
        List.filter_map, List.map_map]
      rfl
    exact hrep ▸ htold

/-- A report that is not about the whole group has as many signals as bits are set. -/
lemma length_reported (hs : cg.Sized ms) (hall : cg.reportall false = false) :
    (cg.reported false).length = (List.range cg.nMembers).countP cg.bit := by
  have hsnd : ms.zipIdx.map Prod.snd = List.range ms.length := by
    rw [List.zipIdx_map_snd, List.range_eq_range']
  rw [CompiledGroup.reported, List.length_map, hs.member,
    reduceOption_map_some, hs.nMembers, ← hsnd,
    List.countP_map, List.countP_eq_length_filter, hall]
  rfl

/-- Until the next match, what is shown depends on the acts only. -/
lemma run_quiet (hs : cg.Sized ms) (v : SigEnv) {acts : List CgroupAct}
    (hno : CgroupAct.cgroupMatch ∉ acts) :
    ∃ s', cgroupRun exceeds ⟨v, cg⟩ acts = some (s', acts.flatMap cg.shows) ∧ s'.cg = cg := by
  induction acts generalizing v with
  | nil => exact ⟨_, rfl, rfl⟩
  | cons a acts ih =>
    have hrest : CgroupAct.cgroupMatch ∉ acts := fun hm => hno (.tail _ hm)
    cases a with
    | setSignal sig u =>
      obtain ⟨s', hrun, hcg⟩ := ih (v.set sig u) hrest
      exact ⟨s', by simp [cgroupRun, cgroupStep, hrun, CompiledGroup.shows], hcg⟩
    | cgroupMatch => exact absurd (.head _) hno
    | cgroupReport forceAll =>
      obtain ⟨s', hrun, hcg⟩ := ih v hrest
      obtain ⟨r, hrep, htold⟩ := hs.cgroupReport (fun _ => 0) forceAll
      rw [htold.all fun _ => le_refl _] at hrep
      exact ⟨s', by simp [cgroupRun, cgroupStep, hrep, hrun, CompiledGroup.shows], hcg⟩

/-- **What should hold does**, in a state whose arrays have the right sizes. -/
lemma exact (hs : cg.Sized ms) (v : SigEnv) : CgroupExact exceeds ⟨v, cg⟩ := by
  obtain ⟨n, cg', hmatch, hs', hexact⟩ := hs.cgroupMatch exceeds v
  refine ⟨n, cg', hmatch, hexact, fun hall => ?_, fun cb forceAll => hs'.cgroupReport cb forceAll,
    fun acts v' hno => hs'.run_quiet v' hno⟩
  have hmon : cg.monitor = true := by
    by_contra hno
    obtain ⟨-, rfl⟩ := hexact.quiet (by simpa using hno)
    exact hno (monitor_of_reportall hall)
  rw [hs'.length_reported hall, hexact.count hmon, hs'.nMembers, hs.nMembers]

variable (exceeds) in
lemma step (hs : cg.Sized ms) (v : SigEnv) (a : CgroupAct) :
    ∃ s' log, cgroupStep exceeds ⟨v, cg⟩ a = some (s', log) ∧ s'.cg.Sized ms := by
  cases a with
  | setSignal sig u => exact ⟨_, _, rfl, hs⟩
  | cgroupMatch =>
    obtain ⟨n, cg', hmatch, hs', -⟩ := hs.cgroupMatch exceeds v
    exact ⟨_, _, by rw [cgroupStep, hmatch], hs'⟩
  | cgroupReport forceAll =>
    obtain ⟨r, hrep, -⟩ := hs.cgroupReport (fun _ => 0) forceAll
    exact ⟨_, _, by rw [cgroupStep, hrep]; rfl, hs⟩

variable (exceeds) in
lemma run (hs : cg.Sized ms) (v : SigEnv) (acts : List CgroupAct) :
    ∃ s' log, cgroupRun exceeds ⟨v, cg⟩ acts = some (s', log) ∧ s'.cg.Sized ms := by
  induction acts generalizing v cg with
  | nil => exact ⟨_, _, rfl, hs⟩
  | cons a acts ih =>
    obtain ⟨s₁, log₁, hstep, hs₁⟩ := hs.step exceeds v a
    obtain ⟨s', log, hrun, hs'⟩ := ih hs₁ s₁.env
    exact ⟨s', log₁ ++ log, by rw [cgroupRun, hstep, Option.bind_some, hrun]; rfl, hs'⟩

end CompiledGroup.Sized

/-! ### The result -/

/-- **A compiled group** works on its arrays only: compiling fails with an error or gives arrays
such that, after any changes of signals, matches and reports, the next match is exact, and every
report until the one after it has the flagged members. -/
theorem cgroup_exact (e : Mallocs) (name : String) (s : GroupHal) :
    (s.halprGroupCompile e name).isSome = true ∧
    ∀ cg s', s.halprGroupCompile e name = some (.ok cg, s') → ∀ v acts,
      ∃ r log, cgroupRun exceeds ⟨v, cg⟩ acts = some (r, log) ∧ CgroupExact exceeds r := by
  rcases halprGroupCompile_cases e name s with ⟨err, t, herr⟩ | ⟨grp, cg₀, -, -, hs, hok⟩
  · refine ⟨by rw [herr]; rfl, fun cg s' hc => ?_⟩
    simp [herr] at hc
  · refine ⟨by rw [hok]; rfl, fun cg s' hc v acts => ?_⟩
    rw [hok, Option.some.injEq, Prod.mk.injEq, Except.ok.injEq] at hc
    obtain ⟨rfl, -⟩ := hc
    obtain ⟨r, log, hrun, hs'⟩ := hs.run exceeds v acts
    exact ⟨r, log, hrun, hs'.exact r.env⟩

/-- The valid signals of every state reached have the types that the match has a case for. -/
lemma sigEnv_of_reach {s₀ : GroupHal} (h0 : s₀.Unwired)
    (hr : Reach wireStep (fun s a => wireAlloc s a = true) s₀ s) :
    ∃ v : SigEnv, ∀ g ∈ s.sigs, g.hdr.valid = true →
      v.type g.off = g.body.type ∧ v.value g.off = g.body.value := by
  have hL := (wired_reach h0 hr).linkage
  have hty : ∀ g ∈ s.sigs, g.hdr.valid = true → matchTypes g.body.type = true := by
    intro g hg hv
    have hcopy := (hL.sigs g hg hv).type
    cases ht : g.body.type <;> simp [ht, copyValue] at hcopy ⊢ <;> rfl
  have hat : ∀ g ∈ s.sigs, s.toHal.sigAt g.off = some g := fun g hg =>
    (at?_eq_some hL.sigKeys).2 ⟨hg, rfl⟩
  refine ⟨⟨fun off => ((s.toHal.sigAt off).filter fun g => g.hdr.valid).elim .halBit (·.body.type),
    fun off => (s.toHal.sigAt off).elim 0 (·.body.value), fun off => ?_⟩, ?_⟩
  · cases hf : (s.toHal.sigAt off).filter fun g => g.hdr.valid with
    | none => rfl
    | some g =>
      obtain ⟨hsig, hv⟩ := Option.filter_eq_some_iff.1 hf
      exact hty g (List.mem_of_find?_eq_some hsig) hv
  · intro g hg hv
    simp [hat g hg, Option.filter, hv]

/-- A member that is monitored, or not. -/
def watchedMember (off : ℕ) (id : Int16) (name : String) (sig : ℕ) (monitored : BitVec 32) :
    Obj Member :=
  ⟨off, ⟨id, 4, name, 0, false, true, false, false⟩, ⟨sig, monitored, 0⟩⟩

/-- A group that reports changed members, with two members, one of them monitored. -/
def watchedGroup : GroupHal :=
  { oneCompGroups with
    groups := [⟨384, ⟨4, 0, "grp", 0, false, true, false, false⟩, ⟨0, 5⟩⟩]
    members := [watchedMember 512 5 "a" 256 1, watchedMember 576 6 "b" 320 0] }

/-- The signals are 0 and of type s32. -/
def zeroSig : SigEnv := ⟨fun _ => .halS32, fun _ => 0, fun _ => rfl⟩

/-- The group compiled. -/
def compiledGroup : CompiledGroup :=
  { magic := true, group := ⟨384, ⟨4, 0, "grp", 0, false, true, false, false⟩, ⟨0, 5⟩⟩
    nMembers := 2, mbrIndex := 2, monIndex := 1
    member := [some (watchedMember 512 5 "a" 256 1), some (watchedMember 576 6 "b" 320 0)]
    changed := some [0], nMonitored := 1, tracking := some [0] }

lemma compile_watchedGroup :
    ∃ s', watchedGroup.halprGroupCompile enough "grp" = some (.ok compiledGroup, s') := by
  have h : (watchedGroup.halprGroupCompile enough "grp").map Prod.fst =
      some (.ok compiledGroup) := by decide
  obtain ⟨⟨_, s'⟩, hs, rfl⟩ := Option.map_eq_some_iff.1 h
  exact ⟨s', hs⟩

/-- A group one member of which is monitored. -/
theorem cgroup_exact_watchedGroup : ∃ r log,
    cgroupRun (fun _ _ _ => false) ⟨zeroSig, compiledGroup⟩
      [.setSignal 320 9, .setSignal 256 7, .cgroupMatch, .cgroupReport false] = some (r, log) ∧
    CgroupExact (fun _ _ _ => false) r := by
  obtain ⟨s', hc⟩ := compile_watchedGroup
  exact (cgroup_exact enough "grp" watchedGroup).2 compiledGroup s' hc zeroSig _

/-- The changes a match found. -/
def CgroupEvent.changes : CgroupEvent → ℕ
  | .found n => n
  | .call _ => 0

/-- A signal reported. -/
def CgroupEvent.reports : CgroupEvent → ℕ
  | .call (.reportItem _) => 1
  | _ => 0

/-- A change that two matches have passed is not reported, and one that two reports have passed is
reported twice. -/
theorem cgroup_exact_fails :
    (¬ ∀ (s s' : GroupHal) (cg : CompiledGroup) (v : SigEnv) (acts : List CgroupAct)
        (r : CgroupState) (log : List CgroupEvent),
      s.halprGroupCompile enough "grp" = some (.ok cg, s') → cg.reportall false = false →
      cgroupRun (fun _ _ _ => false) ⟨v, cg⟩ (acts ++ [.cgroupReport false]) = some (r, log) →
      (log.map CgroupEvent.changes).sum ≤ (log.map CgroupEvent.reports).sum) ∧
    ¬ ∀ (s s' : GroupHal) (cg : CompiledGroup) (v : SigEnv) (acts : List CgroupAct)
        (r : CgroupState) (log : List CgroupEvent),
      s.halprGroupCompile enough "grp" = some (.ok cg, s') → cg.reportall false = false →
      cgroupRun (fun _ _ _ => false) ⟨v, cg⟩ (acts ++ [.cgroupReport false]) = some (r, log) →
      (log.map CgroupEvent.reports).sum ≤ (log.map CgroupEvent.changes).sum := by
  obtain ⟨s', hc⟩ := compile_watchedGroup
  constructor
  · intro hall
    have hlog : (cgroupRun (fun _ _ _ => false) ⟨zeroSig, compiledGroup⟩
        ([.setSignal 256 7, .cgroupMatch, .cgroupMatch] ++ [.cgroupReport false])).map Prod.snd =
        some [.found 1, .found 0, .call .reportBegin, .call .reportEnd] := by decide
    obtain ⟨⟨r, log⟩, hrun, hlog⟩ := Option.map_eq_some_iff.1 hlog
    have hle := hall _ _ _ _ _ _ _ hc (by decide) hrun
    rw [show log = _ from hlog] at hle
    exact absurd hle (by decide)
  · intro hall
    have hlog : (cgroupRun (fun _ _ _ => false) ⟨zeroSig, compiledGroup⟩
        ([.setSignal 256 7, .cgroupMatch, .cgroupReport false] ++ [.cgroupReport false])).map
          Prod.snd =
        some [.found 1, .call .reportBegin, .call (.reportItem 256), .call .reportEnd,
          .call .reportBegin, .call (.reportItem 256), .call .reportEnd] := by decide
    obtain ⟨⟨r, log⟩, hrun, hlog⟩ := Option.map_eq_some_iff.1 hlog
    have hle := hall _ _ _ _ _ _ _ hc (by decide) hrun
    rw [show log = _ from hlog] at hle
    exact absurd hle (by decide)

end MachinekitHal
