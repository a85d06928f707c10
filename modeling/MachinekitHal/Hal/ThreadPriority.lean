import MachinekitHal.Hal.Thread

/-!
The order of the threads, by priority and in the list of threads.

`hal_create_xthread` compares the new thread with the first one of the list and inserts it
before the root, which is the end of the list. So the first thread is the oldest one.

* `ThreadInv R`: the list of threads holds the valid thread objects, and `R` relates
  earlier ones to later ones; `ThreadInv.step` says what a call has to meet to keep it.
* `RateMonotonic`, `SlowestFirst`: what is expected of priorities and of the list.
* `rate_monotonic`: while no thread is created beside two others the priorities are rate
  monotonic; the list is in the order expected if all periods are equal, too.
* `rate_monotonic_thirdThread`: the third thread gets the priority of the second.
-/

namespace MachinekitHal.Threads

open Store Dlist Runs

variable {s s' s₀ : ThreadHal} {R : XThread → XThread → Prop} {xs : List ℕ}

/-- The list of threads holds the valid threads, and `R` relates earlier to later ones. -/
structure ThreadInv (R : XThread → XThread → Prop) (s : ThreadHal) (xs : List ℕ) : Prop where
  ring : IsRing s.links s.root xs
  nodup : (s.objs.map Obj.off).Nodup
  listed : ∀ o ∈ s.objs, o.hdr.valid = true → o.off ∈ xs
  threads : ∀ x ∈ xs, ∃ o ∈ s.objs, o.off = x ∧ o.hdr.valid = true
  refs : ∀ o ∈ s.objs, o.hdr.refcnt = 0
  order : xs.Pairwise fun x y => ∀ t u, s.threadAt x = some t → s.threadAt y = some u →
    R t.body u.body

/-- A shorter period means a higher priority, and no two threads share one. -/
structure RateMonotonic (s : ThreadHal) : Prop where
  faster : ∀ t ∈ s.objs, ∀ u ∈ s.objs, t.hdr.valid = true → u.hdr.valid = true →
    t.body.period < u.body.period → u.body.priority < t.body.priority
  distinct : ∀ t ∈ s.objs, ∀ u ∈ s.objs, t.hdr.valid = true → u.hdr.valid = true → t ≠ u →
    t.body.priority ≠ u.body.priority

/-- The list of threads has the slowest thread first. -/
def SlowestFirst (s : ThreadHal) : Prop :=
  (entries s.links s.root s.objs.length).Pairwise fun x y =>
    ∀ t ∈ s.threadAt x, ∀ u ∈ s.threadAt y, u.body.period ≤ t.body.period
  deriving Decidable

/-- The state before any thread exists. -/
structure ThreadHal.NoThreads (s : ThreadHal) : Prop where
  next : s.links.next s.root = s.root
  prev : s.links.prev s.root = s.root
  objs : s.objs = []

/-- The valid threads. -/
def ThreadHal.threads (s : ThreadHal) : List (Obj XThread) := s.objs.filter fun o => o.hdr.valid

/-- The priorities below that of the first thread are not exhausted. -/
def prioritiesLeft (s : ThreadHal) : ThreadAct → Bool
  | .createXthread _ _ => s.firstThread.all fun t => rtapiPrioLowest < t.body.priority
  | _ => true

/-- A thread is created when there is at most one, or the call is refused. -/
def oneThread (s : ThreadHal) : ThreadAct → Bool
  | .createXthread _ args => rejected s args || s.threads.length ≤ 1
  | _ => true

/-- A thread that is created beside another one has the same period. -/
def samePeriod (s : ThreadHal) : ThreadAct → Bool
  | .createXthread _ args =>
    rejected s args || s.firstThread.all fun t => s.rounded args.periodNsec = t.body.period
  | _ => true

/-! ### The list of threads -/

lemma threadAt_some (hnd : (s.objs.map Obj.off).Nodup) {x : ℕ} {t : Obj XThread} :
    s.threadAt x = some t ↔ t ∈ s.objs ∧ t.off = x :=
  at?_eq_some hnd

lemma ThreadInv.of_noThreads (h : s.NoThreads) : ThreadInv R s [] := by
  refine ⟨⟨List.nodup_singleton _, h.next, h.prev, trivial⟩, ?_, ?_, ?_, ?_, List.Pairwise.nil⟩
  · simp [h.objs]
  · simp [h.objs]
  · simp
  · simp [h.objs]

/-- With one thread, it is the first one. -/
lemma ThreadInv.firstThread (h : ThreadInv R s xs) {x : ℕ} {post : List ℕ} (hx : xs = x :: post)
    {t : Obj XThread} (ht : s.threadAt x = some t) : s.firstThread = some t := by
  have hnext := h.ring.next_root
  have hnd := h.ring.nodup
  subst hx
  rw [List.nodup_cons, List.mem_cons, not_or] at hnd
  simp only [List.cons_append, List.head_cons] at hnext
  rw [ThreadHal.firstThread, hnext, if_neg (Ne.symm hnd.1.1), ht]

lemma ThreadInv.length_le (h : ThreadInv R s xs) : xs.length ≤ s.threads.length := by
  have hsub : xs ⊆ s.threads.map Obj.off := by
    intro x hx
    obtain ⟨o, ho, rfl, hv⟩ := h.threads x hx
    exact List.mem_map_of_mem (List.mem_filter.2 ⟨ho, hv⟩)
  have hle := (List.subperm_of_subset (List.nodup_cons.1 h.ring.nodup).2 hsub).length_le
  rwa [List.length_map] at hle

/-- A new thread at the end of the list. -/
lemma ThreadInv.create (h : ThreadInv R s xs) {args : ThreadArgs} {new : Obj XThread}
    (hc : Created s args s' new)
    (hR : ∀ x ∈ xs, ∀ t, s.threadAt x = some t → R t.body new.body) :
    ThreadInv R s' (xs ++ [new.off]) := by
  have hnd : (s'.objs.map Obj.off).Nodup := by
    rw [hc.objs]
    exact nodup_addObject h.nodup hc.fresh.1
  have hnew : ∀ x ∈ xs, x ≠ new.off := by
    rintro x hx rfl
    obtain ⟨o, ho, hoff, -⟩ := h.threads _ hx
    exact hc.fresh.1 (hoff ▸ List.mem_map_of_mem ho)
  have hat : ∀ x ∈ xs, ∀ t, s'.threadAt x = some t → s.threadAt x = some t := by
    intro x hx t ht
    obtain ⟨hmem, hoff⟩ := (threadAt_some hnd).1 ht
    rw [hc.objs, mem_addObject] at hmem
    rcases hmem with rfl | hmem
    · exact absurd hoff.symm (hnew x hx)
    · exact (threadAt_some h.nodup).2 ⟨hmem, hoff⟩
  refine ⟨?_, hnd, ?_, ?_, ?_, ?_⟩
  · rw [hc.links, hc.root]
    refine h.ring.addLast fun hmem => ?_
    rcases List.mem_cons.1 hmem with heq | hmem
    · exact hc.fresh.2 heq
    · exact hnew _ hmem rfl
  · intro o ho hv
    rw [hc.objs, mem_addObject] at ho
    rcases ho with rfl | ho
    · simp
    · simp [h.listed o ho hv]
  · intro x hx
    rw [hc.objs]
    rcases List.mem_append.1 hx with hx | hx
    · obtain ⟨o, ho, hoff, hv⟩ := h.threads x hx
      exact ⟨o, mem_addObject.2 (.inr ho), hoff, hv⟩
    · exact ⟨new, mem_addObject.2 (.inl rfl), (List.mem_singleton.1 hx).symm, hc.valid⟩
  · intro o ho
    rw [hc.objs, mem_addObject] at ho
    rcases ho with rfl | ho
    · exact hc.refcnt
    · exact h.refs o ho
  · refine List.pairwise_append.2 ⟨?_, List.pairwise_singleton _ _, ?_⟩
    · refine h.order.imp_of_mem fun {x y} hx hy hxy t u ht hu => ?_
      exact hxy t u (hat x hx t ht) (hat y hy u hu)
    · intro x hx y hy t u ht hu
      rw [List.mem_singleton] at hy
      obtain ⟨humem, huoff⟩ := (threadAt_some hnd).1 hu
      have hun : u = new := by
        refine eq_of_key hnd humem ?_ (huoff.trans hy)
        rw [hc.objs]
        exact mem_addObject.2 (.inl rfl)
      rw [hun]
      exact hR x hx t (hat x hx t ht)

/-- A freed thread is off the list. -/
lemma ThreadInv.free (h : ThreadInv R s xs) {o : Obj XThread} (ho : o ∈ s.objs)
    (hv : o.hdr.valid = true) : ∃ xs', ThreadInv R (freeThread o.off s) xs' := by
  obtain ⟨pre, post, hxs⟩ := List.append_of_mem (h.listed o ho hv)
  have hnd := h.ring.nodup
  rw [hxs, ← List.cons_append, List.nodup_middle, List.nodup_cons] at hnd
  have hnd' : ((freeThread o.off s).objs.map Obj.off).Nodup := by
    simp only [freeThread, keys_free]
    exact h.nodup
  have hrel : o.release.hdr.valid = false := by
    simp [Obj.release, h.refs o ho, Halhdr.clear]
  have hkeep : ∀ u ∈ s.objs, u.off ≠ o.off → u ∈ (freeThread o.off s).objs :=
    fun u hu hne => mem_modify_of_ne hu hne
  have hback : ∀ u ∈ (freeThread o.off s).objs, u.off ≠ o.off → u ∈ s.objs := by
    intro u hu hne
    obtain ⟨a, ha, rfl⟩ := mem_modify.1 hu
    split_ifs at hne ⊢ with hk
    · rw [Obj.release_off] at hne
      exact absurd hk hne
    · exact ha
  have hne : ∀ x ∈ pre ++ post, x ≠ o.off := by
    rintro x hx rfl
    exact hnd.1 (by simpa using .inr (List.mem_append.1 hx))
  have hsub : ∀ x ∈ pre ++ post, x ∈ xs := by
    intro x hx
    rw [hxs]
    simp only [List.mem_append, List.mem_cons] at hx ⊢
    tauto
  refine ⟨pre ++ post, ?_, hnd', ?_, ?_, ?_, ?_⟩
  · have hring := h.ring
    rw [hxs] at hring
    exact hring.remove
  · intro u hu hval
    have huo : u.off ≠ o.off := by
      intro hoff
      obtain ⟨a, ha, rfl⟩ := mem_modify.1 hu
      have haoff : a.off = o.off := by
        split_ifs at hoff with hk
        · exact hk
        · exact hoff
      obtain rfl := eq_of_key h.nodup ha ho haoff
      rw [if_pos rfl, hrel] at hval
      exact Bool.false_ne_true hval
    have hmem := h.listed u (hback u hu huo) hval
    rw [hxs] at hmem
    simp only [List.mem_append, List.mem_cons] at hmem ⊢
    tauto
  · intro x hx
    obtain ⟨u, hu, rfl, hval⟩ := h.threads x (hsub x hx)
    exact ⟨u, hkeep u hu (hne _ hx), rfl, hval⟩
  · intro u hu
    obtain ⟨a, ha, rfl⟩ := mem_modify.1 hu
    split_ifs
    · rw [Obj.release]
      split_ifs
      · exact h.refs a ha
      · rfl
    · exact h.refs a ha
  · have horder : (pre ++ post).Pairwise fun x y => ∀ t u, s.threadAt x = some t →
        s.threadAt y = some u → R t.body u.body := by
      refine List.Pairwise.sublist ?_ h.order
      rw [hxs]
      exact (List.sublist_cons_self _ _).append_left pre
    have hat : ∀ x ∈ pre ++ post, ∀ t, (freeThread o.off s).threadAt x = some t →
        s.threadAt x = some t := by
      intro x hx t ht
      obtain ⟨hmem, hoff⟩ := (threadAt_some hnd').1 ht
      exact (threadAt_some h.nodup).2 ⟨hback t hmem (hoff ▸ hne x hx), hoff⟩
    exact horder.imp_of_mem fun {x y} hx hy hxy t u ht hu =>
      hxy t u (hat x hx t ht) (hat y hy u hu)

lemma ThreadInv.same (h : ThreadInv R s xs) (hs : SameThreads s s') : ThreadInv R s' xs := by
  have hat : ∀ x, s'.threadAt x = s.threadAt x := by
    intro x
    rw [ThreadHal.threadAt, ThreadHal.threadAt, hs.objs]
  refine ⟨by rw [hs.links, hs.root]; exact h.ring, hs.objs ▸ h.nodup, hs.objs ▸ h.listed,
    hs.objs ▸ h.threads, hs.objs ▸ h.refs, ?_⟩
  simp only [hat]
  exact h.order

/-- A call keeps the list if the thread it adds is related to those that are there. -/
lemma ThreadInv.step (h : ThreadInv R s xs) {a : ThreadAct} (hs : threadStep s a = some s')
    (hR : ∀ e args new, a = .createXthread e args → Created s args s' new →
      ∀ x ∈ xs, ∀ t, s.threadAt x = some t → R t.body new.body) :
    ∃ xs', ThreadInv R s' xs' := by
  cases a with
  | createXthread e args =>
    simp only [threadStep] at hs
    split_ifs at hs with hf
    cases hs
    rcases halCreateXthread_cases args hf with ⟨-, hsame⟩ | ⟨-, new, hc⟩
    · exact ⟨xs, h.same hsame⟩
    · exact ⟨_, h.create hc (hR e args new rfl hc)⟩
  | exitThread name =>
    cases hs
    rw [exitThread]
    split
    · exact ⟨xs, h⟩
    · refine halgForeach_rule (P := fun s => ∃ xs, ThreadInv R s xs) ?_ ⟨xs, h⟩
      rintro s o ⟨xs, h⟩ ho hv -
      exact h.free ho hv
  | sweep =>
    cases hs
    refine ⟨xs, h.ring, nodup_sweep h.nodup, ?_, ?_, ?_, ?_⟩
    · exact fun o ho hv => h.listed o (mem_sweep.1 ho).1 hv
    · intro x hx
      obtain ⟨o, ho, hoff, hv⟩ := h.threads x hx
      exact ⟨o, mem_sweep.2 ⟨ho, hv⟩, hoff, hv⟩
    · exact fun o ho => h.refs o (mem_sweep.1 ho).1
    · refine h.order.imp fun {x y} hxy t u ht hu => hxy t u ?_ ?_
      · obtain ⟨hmem, hoff⟩ := (threadAt_some (nodup_sweep h.nodup)).1 ht
        exact (threadAt_some h.nodup).2 ⟨(mem_sweep.1 hmem).1, hoff⟩
      · obtain ⟨hmem, hoff⟩ := (threadAt_some (nodup_sweep h.nodup)).1 hu
        exact (threadAt_some h.nodup).2 ⟨(mem_sweep.1 hmem).1, hoff⟩

/-! ### Priorities -/

/-- A priority above the lowest has a next lower one. -/
lemma rtapiPrioNextLower_lt {prio : ℤ} (h : rtapiPrioLowest < prio) :
    rtapiPrioNextLower prio < prio := by
  simp only [rtapiPrioNextLower, validPrio, rtapiPrioHighest, rtapiPrioLowest] at h ⊢
  split_ifs <;> omega

/-- Later threads are not faster and have lower priorities. -/
def Slower (t u : XThread) : Prop := t.period ≤ u.period ∧ u.priority < t.priority

/-- What a guarded creation finds: no thread, or the first one. -/
lemma ThreadInv.beside (h : ThreadInv R s xs) {e : ThreadEnv} {args : ThreadArgs}
    {new : Obj XThread} (hc : Created s args s' new)
    (hone : oneThread s (.createXthread e args) = true) {x : ℕ} (hx : x ∈ xs) {t : Obj XThread}
    (ht : s.threadAt x = some t) : s.firstThread = some t := by
  have hlen : s.threads.length ≤ 1 := by
    simpa [oneThread, hc.accepted] using hone
  have hxs : xs.length ≤ 1 := h.length_le.trans hlen
  obtain ⟨y, rfl⟩ : ∃ y, xs = [y] := by
    refine List.length_eq_one_iff.1 (le_antisymm hxs ?_)
    exact List.length_pos_of_mem hx
  obtain rfl := List.mem_singleton.1 hx
  exact h.firstThread rfl ht

/-- The priorities along a run that creates threads beside at most one other. -/
lemma priorities_of_reach (h0 : s₀.NoThreads)
    (hr : Reach threadStep (fun s a => (prioritiesLeft s a && oneThread s a) = true) s₀ s) :
    ∃ xs, ThreadInv Slower s xs := by
  refine hr.invariant (P := fun s => ∃ xs, ThreadInv Slower s xs) ⟨[], .of_noThreads h0⟩ ?_
  rintro s a s' ⟨xs, h⟩ hok hs
  simp only [Bool.and_eq_true] at hok
  refine h.step hs ?_
  rintro e args new rfl hc x hx t ht
  have hfirst := h.beside hc hok.2 hx ht
  obtain ⟨hprio, hle, -⟩ := hc.next t hfirst
  refine ⟨hle, ?_⟩
  rw [hprio]
  exact rtapiPrioNextLower_lt (by simpa [prioritiesLeft, hfirst] using hok.1)

/-- The periods along a run whose threads have the same period, too. -/
lemma periods_of_reach (h0 : s₀.NoThreads)
    (hr : Reach threadStep
      (fun s a => (prioritiesLeft s a && oneThread s a && samePeriod s a) = true) s₀ s) :
    ∃ xs, ThreadInv (fun t u => u.period ≤ t.period) s xs := by
  refine hr.invariant (P := fun s => ∃ xs, ThreadInv (fun t u => u.period ≤ t.period) s xs)
    ⟨[], .of_noThreads h0⟩ ?_
  rintro s a s' ⟨xs, h⟩ hok hs
  simp only [Bool.and_eq_true] at hok
  refine h.step hs ?_
  rintro e args new rfl hc x hx t ht
  have hfirst := h.beside hc hok.1.2 hx ht
  have hsame : s.rounded args.periodNsec = t.body.period := by
    simpa [samePeriod, hc.accepted, hfirst] using hok.2
  rw [(hc.next t hfirst).2.2, hsame]

lemma ThreadInv.rateMonotonic (h : ThreadInv Slower s xs) : RateMonotonic s := by
  have hrel : ∀ t ∈ s.objs, ∀ u ∈ s.objs, t.hdr.valid = true → u.hdr.valid = true → t ≠ u →
      Slower t.body u.body ∨ Slower u.body t.body := by
    intro t ht u hu hv hv' hne
    have hoff : t.off ≠ u.off := fun heq => hne (eq_of_key h.nodup ht hu heq)
    have htat := (threadAt_some h.nodup).2 ⟨ht, rfl⟩
    have huat := (threadAt_some h.nodup).2 ⟨hu, rfl⟩
    obtain ⟨pre, post, hxs⟩ := List.append_of_mem (h.listed t ht hv)
    have hmem := h.listed u hu hv'
    have horder := h.order
    rw [hxs] at hmem horder
    obtain ⟨-, hpost, hcross⟩ := List.pairwise_append.1 horder
    rcases List.mem_append.1 hmem with hpre | hmem
    · exact .inr (hcross _ hpre _ (.head _) u t huat htat)
    · refine .inl ((List.pairwise_cons.1 hpost).1 u.off ?_ t u htat huat)
      exact (List.mem_cons.1 hmem).resolve_left (Ne.symm hoff)
  constructor
  · intro t ht u hu hv hv' hlt
    rcases hrel t ht u hu hv hv' (by rintro rfl; exact lt_irrefl _ hlt) with hs | hs
    · exact hs.2
    · exact absurd hs.1 (not_le.2 hlt)
  · intro t ht u hu hv hv' hne heq
    rcases hrel t ht u hu hv hv' hne with hs | hs
    · exact absurd heq hs.2.ne'
    · exact absurd heq hs.2.ne

lemma ThreadInv.slowestFirst (h : ThreadInv (fun t u => u.period ≤ t.period) s xs) :
    SlowestFirst s := by
  have hle : xs.length ≤ s.objs.length := h.length_le.trans (List.length_filter_le _ _)
  rw [SlowestFirst, h.ring.entries_eq hle]
  exact h.order.imp fun {x y} hxy t ht u hu => hxy t u ht hu

/-! ### The result -/

/-- **Rate monotonic priorities.** In every run in which priorities are left and a thread is
created beside at most one other, the priorities are rate monotonic and distinct, and such a
call with a shorter period than an existing thread is refused; if it also has the period of
that other thread, the list has the slowest thread first. -/
theorem rate_monotonic (h0 : s₀.NoThreads) :
    (Reach threadStep (fun s a => (prioritiesLeft s a && oneThread s a) = true) s₀ s →
      RateMonotonic s ∧
      ∀ e args, s.fresh e.desc = true → oneThread s (.createXthread e args) = true →
        ∀ t ∈ s.objs, t.hdr.valid = true → s.rounded args.periodNsec < t.body.period →
          (halCreateXthread e args s).1 ≠ none ∧ SameThreads s (halCreateXthread e args s).2) ∧
    (Reach threadStep
      (fun s a => (prioritiesLeft s a && oneThread s a && samePeriod s a) = true) s₀ s →
      SlowestFirst s) := by
  constructor
  · intro hr
    obtain ⟨xs, h⟩ := priorities_of_reach h0 hr
    refine ⟨h.rateMonotonic, ?_⟩
    intro e args hf hone t ht hv hlt
    rcases halCreateXthread_cases args hf with hsame | ⟨-, new, hc⟩
    · exact hsame
    · have hat := (threadAt_some h.nodup).2 ⟨ht, rfl⟩
      have hfirst := h.beside hc hone (h.listed t ht hv) hat
      obtain ⟨-, hle, hper⟩ := hc.next t hfirst
      rw [hper] at hle
      exact absurd hle (not_le.2 hlt)
  · intro hr
    obtain ⟨xs, h⟩ := periods_of_reach h0 hr
    exact h.slowestFirst

/-- A HAL without threads, its list of threads rooted at offset `8`. -/
def noThreads : ThreadHal :=
  { lock := 0, clock := 0, basePeriod := 0, exactBasePeriod := false, objs := [], root := 8
    links := ⟨fun _ => 8, fun _ => 8⟩ }

lemma noThreads_noThreads : noThreads.NoThreads := ⟨rfl, rfl, rfl⟩

/-- A call for a new thread that gets all it needs. -/
def newThread (off : ℕ) (handle : ℤ) (name : String) (periodNsec : ℕ) : ThreadAct :=
  .createXthread ⟨some ⟨off, handle⟩, some 1, true, true⟩ ⟨name, periodNsec⟩

/-- Two threads of a millisecond, one of which is replaced; a faster one is refused. -/
def replaceThread : List ThreadAct :=
  [newThread 64 1 "servo" 1000000, newThread 128 2 "log" 1000000,
    newThread 192 3 "base" 500000, .exitThread (some "servo"), newThread 256 4 "servo" 1000000]

/-- Two threads of one period are left. -/
theorem rate_monotonic_replaceThread : ∃ s,
    run threadStep (fun s a => prioritiesLeft s a && oneThread s a && samePeriod s a) noThreads
      replaceThread = some s ∧
    s.threads.map (fun t => (t.hdr.name, t.body))
      = [("log", ⟨1000000, 97⟩), ("servo", ⟨1000000, 96⟩)] ∧
    RateMonotonic s ∧ SlowestFirst s := by
  have hs : (run threadStep (fun s a => prioritiesLeft s a && oneThread s a && samePeriod s a)
      noThreads replaceThread).map (fun s => s.threads.map fun t => (t.hdr.name, t.body))
      = some [("log", ⟨1000000, 97⟩), ("servo", ⟨1000000, 96⟩)] := by decide
  obtain ⟨s, hs, hv, hr⟩ := run_map hs
  refine ⟨s, hs, hv, ((rate_monotonic noThreads_noThreads).1 (hr.mono ?_)).1,
    (rate_monotonic noThreads_noThreads).2 hr⟩
  intro s a hok
  simp only [Bool.and_eq_true] at hok ⊢
  exact hok.1

/-- Threads of one, ten and five milliseconds. -/
def thirdThread : List ThreadAct :=
  [newThread 64 1 "fast" 1000000, newThread 128 2 "slow" 10000000,
    newThread 192 3 "middle" 5000000]

/-- The third thread is accepted although a slower one exists, and gets the priority of that
one; and the list has the fastest thread first. -/
theorem rate_monotonic_thirdThread :
    (¬ ∀ s₀ s : ThreadHal, s₀.NoThreads →
      Reach threadStep (fun s a => prioritiesLeft s a = true) s₀ s → RateMonotonic s) ∧
    (¬ ∀ s₀ s : ThreadHal, s₀.NoThreads →
      Reach threadStep (fun s a => prioritiesLeft s a = true) s₀ s → SlowestFirst s) ∧
    ¬ ∀ s₀ s : ThreadHal, s₀.NoThreads →
      Reach threadStep (fun s a => prioritiesLeft s a = true) s₀ s → ∀ e args,
      s.fresh e.desc = true → ∀ t ∈ s.objs, t.hdr.valid = true →
      s.rounded args.periodNsec < t.body.period → (halCreateXthread e args s).1 ≠ none := by
  refine ⟨fun h => ?_, fun h => ?_, fun h => ?_⟩
  · have hs : (run threadStep prioritiesLeft noThreads thirdThread).map (fun s =>
        decide (∃ t ∈ s.objs, ∃ u ∈ s.objs, t.hdr.valid = true ∧ u.hdr.valid = true ∧ t ≠ u ∧
          t.body.priority = u.body.priority)) = some true := by decide
    obtain ⟨s, hs, hv, hr⟩ := run_map hs
    obtain ⟨t, ht, u, hu, hv, hv', hne, heq⟩ := of_decide_eq_true hv
    exact (h _ s noThreads_noThreads hr).distinct t ht u hu hv hv' hne heq
  · have hs : (run threadStep prioritiesLeft noThreads thirdThread).map (fun s =>
        decide (SlowestFirst s)) = some false := by decide
    obtain ⟨s, hs, hv, hr⟩ := run_map hs
    exact of_decide_eq_false hv (h _ s noThreads_noThreads hr)
  · have hs : (run threadStep prioritiesLeft noThreads (thirdThread.take 2)).map (fun s =>
        decide (∃ t ∈ s.objs, t.hdr.valid = true ∧ s.rounded 5000000 < t.body.period ∧
          s.fresh (some ⟨192, 3⟩) = true ∧
          (halCreateXthread ⟨some ⟨192, 3⟩, some 1, true, true⟩ ⟨"middle", 5000000⟩ s).1 = none))
        = some true := by decide
    obtain ⟨s, hs, hv, hr⟩ := run_map hs
    obtain ⟨t, ht, hv, hlt, hf, hnone⟩ := of_decide_eq_true hv
    exact h _ s noThreads_noThreads hr ⟨some ⟨192, 3⟩, some 1, true, true⟩
      ⟨"middle", 5000000⟩ hf t ht hv hlt hnone

end MachinekitHal.Threads
