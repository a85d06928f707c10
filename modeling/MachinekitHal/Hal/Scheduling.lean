import MachinekitHal.Hal.Component

/-!
The bookkeeping of functs and threads, as an invariant of the operations on them.

* `Scheduling`: the invariant. `entries` are the blocks of HAL memory ever taken for a
  funct entry; each is on one list, and `users` of a funct counts the entries that
  refer to it.
* `Scheduling.removeEntry`: every deletion is made of removals of one entry from one
  thread; `Scheduling.removeEntries` is the walk over the list of a thread.
* `Scheduling.freeFunctStruct`, `Scheduling.freeThreadStruct`,
  `Scheduling.halAddFunctToThread`, …: one lemma for each operation.
-/

namespace MachinekitHal

open Store

/-! ### The invariant -/

/-- The entries on the lists of all threads. -/
def Hal.threadEntries (h : Hal) : List FunctEntry := h.threads.flatMap fun t => t.body.functList

/-- The number of entries that refer to the funct at `off`. -/
def uses (off : ℕ) (l : List FunctEntry) : ℕ := l.countP fun e => e.functPtr = off

/-- The bookkeeping invariant. -/
structure Scheduling (h : Hal) (entries : List ℕ) : Prop where
  functKeys : (h.functs.map Obj.off).Nodup
  threadKeys : (h.threads.map Obj.off).Nodup
  functNe : ∀ f ∈ h.functs, f.off ≠ 0
  lists : ((h.threadEntries ++ h.functEntryFree).map FunctEntry.off).Perm entries
  nodup : entries.Nodup
  users : ∀ f ∈ h.functs, f.hdr.valid = true → f.body.users = uses f.off h.threadEntries
  nonreentrant : ∀ f ∈ h.functs, f.hdr.valid = true → f.body.reentrant = false →
    f.body.users ≤ 1
  live : ∀ e ∈ h.threadEntries, ∃ f ∈ h.functs, f.hdr.valid = true ∧ f.off = e.functPtr
  freed : ∀ t ∈ h.threads, t.hdr.valid = false → t.body.functList = []

variable {h h' : Hal} {entries : List ℕ}

/-- Only functs, threads and free entries matter. -/
lemma Scheduling.congr (hS : Scheduling h entries) (hf : h'.functs = h.functs)
    (ht : h'.threads = h.threads) (he : h'.functEntryFree = h.functEntryFree) :
    Scheduling h' entries := by
  have hte : h'.threadEntries = h.threadEntries := by rw [Hal.threadEntries, ht, Hal.threadEntries]
  refine ⟨hf ▸ hS.functKeys, ht ▸ hS.threadKeys, hf ▸ hS.functNe, ?_, hS.nodup, ?_,
    hf ▸ hS.nonreentrant, ?_, ht ▸ hS.freed⟩
  · rw [hte, he]
    exact hS.lists
  · rw [hte, hf]
    exact hS.users
  · rw [hte, hf]
    exact hS.live

/-- The entries of one thread are among all entries. -/
lemma mem_threadEntries {t : Obj Thread} (ht : t ∈ h.threads) {e : FunctEntry}
    (he : e ∈ t.body.functList) : e ∈ h.threadEntries :=
  List.mem_flatMap.2 ⟨t, ht, he⟩

/-- No two places of a thread's list hold the same entry. -/
lemma Scheduling.nodup_functList (hS : Scheduling h entries) {t : Obj Thread}
    (ht : t ∈ h.threads) : t.body.functList.Nodup := by
  have hall : ((h.threadEntries ++ h.functEntryFree).map FunctEntry.off).Nodup :=
    hS.lists.nodup_iff.2 hS.nodup
  rw [List.map_append] at hall
  have hte : h.threadEntries.Nodup := (hall.of_append_left).of_map _
  exact (List.nodup_flatMap.1 hte).1 t ht

/-! ### Changing the list of one thread -/

/-- The entries of all threads after the list of one of them was changed. -/
lemma threadEntries_modifyList (hS : Scheduling h entries) {t : Obj Thread} (ht : t ∈ h.threads)
    (f : List FunctEntry → List FunctEntry) :
    ((h.modifyList t.off f).threadEntries ++ t.body.functList).Perm
      (h.threadEntries ++ f t.body.functList) :=
  flatMap_modify_perm (g := fun o : Obj Thread => o.body.functList) hS.threadKeys ht rfl

/-- `erase` of an entry takes it off the entries of all threads. -/
lemma threadEntries_erase (hS : Scheduling h entries) {t : Obj Thread} (ht : t ∈ h.threads)
    {e : FunctEntry} (he : e ∈ t.body.functList) :
    h.threadEntries.Perm (e :: (h.modifyList t.off fun l => l.erase e).threadEntries) := by
  have hp := threadEntries_modifyList hS ht fun l => l.erase e
  have h1 := (List.perm_cons_erase he).append_left
    (h.modifyList t.off fun l => l.erase e).threadEntries
  have h2 := h1.symm.trans hp
  have h3 := List.perm_middle.symm.trans h2
  exact ((List.perm_append_right_iff _).1 h3).symm

/-- Inserting an entry adds it to the entries of all threads. -/
lemma threadEntries_insertIdx (hS : Scheduling h entries) {t : Obj Thread} (ht : t ∈ h.threads)
    {i : ℕ} (hi : i ≤ t.body.functList.length) (e : FunctEntry) :
    (h.modifyList t.off fun l => l.insertIdx i e).threadEntries.Perm (e :: h.threadEntries) := by
  have hp := threadEntries_modifyList hS ht fun l => l.insertIdx i e
  have h1 := (List.perm_insertIdx e t.body.functList hi).append_left h.threadEntries
  have h2 := hp.trans (h1.trans List.perm_middle)
  exact (List.perm_append_right_iff _).1 h2

/-! ### Removing entries -/

/-- The functs after one of them lost a user. -/
lemma functs_free (e : FunctEntry) : (h.freeFunctEntryStruct e).functs
    = if 0 < e.functPtr then
        modify Obj.off e.functPtr
          (fun o : Obj Funct =>
            { o with body := { o.body with users := o.body.users - 1 } }) h.functs
      else h.functs := by
  rw [Hal.freeFunctEntryStruct]
  split_ifs <;> rfl

@[simp] lemma threads_free (e : FunctEntry) :
    (h.freeFunctEntryStruct e).threads = h.threads := by
  rw [Hal.freeFunctEntryStruct]
  split_ifs <;> rfl

@[simp] lemma functEntryFree_free (e : FunctEntry) : (h.freeFunctEntryStruct e).functEntryFree
    = { e with functPtr := 0, arg := 0, funct := 0 } :: h.functEntryFree := by
  rw [Hal.freeFunctEntryStruct]
  split_ifs <;> rfl

@[simp] lemma functs_modifyList (off : ℕ) (f : List FunctEntry → List FunctEntry) :
    (h.modifyList off f).functs = h.functs := rfl

@[simp] lemma functEntryFree_modifyList (off : ℕ) (f : List FunctEntry → List FunctEntry) :
    (h.modifyList off f).functEntryFree = h.functEntryFree := rfl

@[simp] lemma threadKeys_modifyList (off : ℕ) (f : List FunctEntry → List FunctEntry) :
    (h.modifyList off f).threads.map Obj.off = h.threads.map Obj.off :=
  keys_modify fun _ => rfl

/-- A funct has a user, so its count is positive. -/
lemma Scheduling.users_pos (hS : Scheduling h entries) {f : Obj Funct} (hf : f ∈ h.functs)
    (hv : f.hdr.valid = true) {e : FunctEntry} (he : e ∈ h.threadEntries)
    (hef : e.functPtr = f.off) : 0 < f.body.users := by
  have hpos : 0 < uses f.off h.threadEntries :=
    List.countP_pos_iff.2 ⟨e, he, by simpa using hef⟩
  have hu := hS.users f hf hv
  omega

/-- Removing an entry from the list of a thread keeps the bookkeeping. -/
lemma Scheduling.removeEntry (hS : Scheduling h entries) {t : Obj Thread} (ht : t ∈ h.threads)
    {e : FunctEntry} (he : e ∈ t.body.functList) : Scheduling (h.removeEntry t.off e) entries := by
  obtain ⟨f, hf, hfv, hfo⟩ := hS.live e (mem_threadEntries ht he)
  have hpos : 0 < e.functPtr := by
    have h0 := hS.functNe f hf
    omega
  have hperm := threadEntries_erase hS ht he
  have hte : (h.removeEntry t.off e).threadEntries
      = (h.modifyList t.off fun l => l.erase e).threadEntries := by
    simp [Hal.removeEntry, Hal.threadEntries]
  have hfs : (h.removeEntry t.off e).functs = modify Obj.off e.functPtr
      (fun o : Obj Funct => { o with body := { o.body with users := o.body.users - 1 } })
      h.functs := by
    rw [Hal.removeEntry, functs_free, if_pos hpos, functs_modifyList]
  have hths : (h.removeEntry t.off e).threads
      = (h.modifyList t.off fun l => l.erase e).threads := threads_free e
  have huses : ∀ off, uses off h.threadEntries = uses off (h.removeEntry t.off e).threadEntries
      + (if e.functPtr = off then 1 else 0) := by
    intro off
    rw [uses, hperm.countP_eq, hte, uses, List.countP_cons]
    simp
  refine ⟨?_, ?_, ?_, ?_, hS.nodup, ?_, ?_, ?_, ?_⟩
  · rw [hfs, keys_modify]
    · exact hS.functKeys
    · exact fun _ => rfl
  · rw [hths, threadKeys_modifyList]
    exact hS.threadKeys
  · rw [hfs]
    exact forall_modify (fun f hf _ => hS.functNe f hf) fun f hf _ => hS.functNe f hf
  · -- the block moves from the thread to the free list
    refine List.Perm.trans ?_ hS.lists
    rw [hte, Hal.removeEntry, functEntryFree_free, functEntryFree_modifyList, List.map_append,
      List.map_append, List.map_cons]
    refine List.perm_middle.trans ?_
    exact ((hperm.map FunctEntry.off).symm).append_right _
  · rw [hfs]
    refine forall_modify (fun g hg hk hv => ?_) fun g hg hk hv => ?_
    · have hu := huses g.off
      rw [if_neg (Ne.symm hk)] at hu
      rw [hS.users g hg hv, hu, Nat.add_zero]
    · have hu := huses g.off
      rw [if_pos hk.symm] at hu
      have hg' := hS.users g hg hv
      show g.body.users - 1 = (uses g.off (h.removeEntry t.off e).threadEntries : ℤ)
      omega
  · rw [hfs]
    refine forall_modify (fun g hg _ => hS.nonreentrant g hg) fun g hg _ hv hr => ?_
    have h1 := hS.nonreentrant g hg hv hr
    show g.body.users - 1 ≤ 1
    omega
  · intro e' he'
    rw [hte] at he'
    obtain ⟨g, hg, hgv, hgo⟩ := hS.live e' (hperm.mem_iff.2 (.tail _ he'))
    rw [hfs]
    by_cases hk : g.off = e.functPtr
    · exact ⟨_, mem_modify_self hg hk, hgv, hgo⟩
    · exact ⟨g, mem_modify_of_ne hg hk, hgv, hgo⟩
  · rw [hths]
    refine forall_modify (fun o ho _ => hS.freed o ho) fun o ho _ hv => ?_
    show o.body.functList.erase e = []
    rw [hS.freed o ho hv]
    rfl

/-- The list of the thread after an entry was removed. -/
lemma mem_removeEntry {t : Obj Thread} (ht : t ∈ h.threads) (e : FunctEntry) :
    ∃ t' ∈ (h.removeEntry t.off e).threads, t'.off = t.off ∧
      t'.body.functList = t.body.functList.erase e := by
  rw [Hal.removeEntry, threads_free]
  exact ⟨_, mem_modify_self ht rfl, rfl, rfl⟩

/-- Removing entries one by one from the list of a thread keeps the bookkeeping and
leaves the rest of the list. -/
lemma Scheduling.foldl_removeEntry : ∀ (es : List FunctEntry) {h : Hal} {t : Obj Thread},
    Scheduling h entries → t ∈ h.threads → es.Nodup → es ⊆ t.body.functList →
    Scheduling (es.foldl (fun h e => h.removeEntry t.off e) h) entries ∧
    ∃ t' ∈ (es.foldl (fun h e => h.removeEntry t.off e) h).threads, t'.off = t.off ∧
      t'.body.functList = t.body.functList.diff es := by
  intro es
  induction es with
  | nil => exact fun hS ht _ _ => ⟨hS, _, ht, rfl, by simp⟩
  | cons e es ih =>
    intro h t hS ht hnd hsub
    rw [List.nodup_cons] at hnd
    have he : e ∈ t.body.functList := hsub (.head _)
    have hS' := hS.removeEntry ht he
    obtain ⟨t', ht', hoff, hlist⟩ := mem_removeEntry ht e
    have hsub' : es ⊆ t'.body.functList := by
      intro e' he'
      have hne : e' ≠ e := fun heq => hnd.1 (heq ▸ he')
      rw [hlist, List.mem_erase_of_ne hne]
      exact hsub (.tail _ he')
    have hrest := ih hS' ht' hnd.2 hsub'
    rw [hoff, hlist] at hrest
    simpa [List.diff_cons] using hrest

/-- The walk over the list of a thread keeps the bookkeeping; no entry that was to go
is left. -/
lemma Scheduling.removeEntries (hS : Scheduling h entries) {t : Obj Thread} (ht : t ∈ h.threads)
    (sel : FunctEntry → Bool) : Scheduling (h.removeEntries sel t.off) entries ∧
    ∃ t' ∈ (h.removeEntries sel t.off).threads, t'.off = t.off ∧
      ∀ e ∈ t'.body.functList, e ∈ t.body.functList ∧ sel e = false := by
  have hat : at? Obj.off t.off h.threads = some t := (at?_eq_some hS.threadKeys).2 ⟨ht, rfl⟩
  have hnd := hS.nodup_functList ht
  have heq : h.removeEntries sel t.off
      = (t.body.functList.filter sel).foldl (fun h e => h.removeEntry t.off e) h := by
    rw [Hal.removeEntries, hat, List.foldl_filter]
  rw [heq]
  obtain ⟨hS', t', ht', hoff, hlist⟩ := Scheduling.foldl_removeEntry
    (t.body.functList.filter sel) hS ht (hnd.filter _)
    (List.filter_subset_self _)
  refine ⟨hS', t', ht', hoff, fun e he => ?_⟩
  rw [hlist, hnd.mem_sdiff_iff] at he
  exact ⟨he.1, by simpa [he.1] using he.2⟩

/-! ### Deleting functs and threads -/

/-- Only the thread whose entries are removed changes. -/
lemma mem_removeEntries_ne {sel : FunctEntry → Bool} {off : ℕ} {o : Obj Thread}
    (ho : o ∈ (h.removeEntries sel off).threads) (hne : o.off ≠ off) : o ∈ h.threads := by
  have hstep : ∀ (h : Hal) (e : FunctEntry), o ∈ (h.removeEntry off e).threads →
      o ∈ h.threads := by
    intro h e ho
    rw [Hal.removeEntry, threads_free] at ho
    obtain ⟨a, ha, heq⟩ := mem_modify.1 ho
    split_ifs at heq with hk
    · exact absurd (heq ▸ hk) hne
    · exact heq ▸ ha
  rw [Hal.removeEntries] at ho
  split at ho
  case h_1 => exact ho
  case h_2 t hat =>
    clear hat
    generalize t.body.functList = es at ho
    induction es generalizing h with
    | nil => exact ho
    | cons e es ih =>
      rw [List.foldl_cons] at ho
      have ho' := ih ho
      split_ifs at ho'
      · exact hstep h e ho'
      · exact ho'

/-- Freeing a thread whose list is empty keeps the bookkeeping. -/
lemma Scheduling.releaseThread (hS : Scheduling h entries) {off : ℕ}
    (hempty : ∀ t ∈ h.threads, t.off = off → t.body.functList = []) :
    Scheduling { h with threads := halgFreeObject off h.threads } entries := by
  have hte : Hal.threadEntries { h with threads := halgFreeObject off h.threads }
      = h.threadEntries :=
    flatMap_modify_of_eq fun t _ _ => by rw [Obj.release_body]
  refine ⟨hS.functKeys, ?_, hS.functNe, ?_, hS.nodup, ?_, hS.nonreentrant, ?_, ?_⟩
  · rw [keys_free]
    exact hS.threadKeys
  · rw [hte]
    exact hS.lists
  · rw [hte]
    exact hS.users
  · rw [hte]
    exact hS.live
  · refine forall_modify (fun t ht _ => hS.freed t ht) fun t ht hk _ => ?_
    rw [Obj.release_body]
    exact hempty t ht hk

/-- Freeing a funct that no entry refers to keeps the bookkeeping. -/
lemma Scheduling.releaseFunct (hS : Scheduling h entries) {off : ℕ}
    (hno : ∀ e ∈ h.threadEntries, e.functPtr ≠ off) :
    Scheduling { h with functs := halgFreeObject off h.functs } entries := by
  refine ⟨?_, hS.threadKeys, ?_, hS.lists, hS.nodup, ?_, ?_, ?_, hS.freed⟩
  · rw [keys_free]
    exact hS.functKeys
  · refine forall_modify (fun f hf _ => hS.functNe f hf) fun f hf _ => ?_
    rw [Obj.release_off]
    exact hS.functNe f hf
  · exact fun f hf hv => hS.users f (mem_of_mem_free hf hv) hv
  · exact fun f hf hv => hS.nonreentrant f (mem_of_mem_free hf hv) hv
  · intro e he
    obtain ⟨f, hf, hv, hoff⟩ := hS.live e he
    exact ⟨f, mem_modify_of_ne hf (hoff ▸ hno e he), hv, hoff⟩

/-- `free_thread_struct` keeps the bookkeeping. -/
lemma Scheduling.freeThreadStruct (hS : Scheduling h entries) {t : Obj Thread}
    (ht : t ∈ h.threads) : Scheduling (h.freeThreadStruct t.off) entries := by
  obtain ⟨hS', t', ht', hoff, hlist⟩ := hS.removeEntries ht fun _ => true
  refine hS'.releaseThread fun o ho hk => ?_
  obtain rfl := eq_of_key hS'.threadKeys ho ht' (hk.trans hoff.symm)
  refine List.eq_nil_iff_forall_not_mem.2 fun e he => ?_
  exact absurd (hlist e he).2 (by simp)

/-- Entries that refer to a funct count as its users. -/
lemma Scheduling.no_entries (hS : Scheduling h entries) {f : Obj Funct} (hf : f ∈ h.functs)
    (hv : f.hdr.valid = true) (h0 : ¬ 0 < f.body.users) :
    ∀ e ∈ h.threadEntries, e.functPtr ≠ f.off :=
  fun _ he hef => h0 (hS.users_pos hf hv he hef)

/-- `thread_cb` on all threads keeps the bookkeeping; after it no entry refers to the funct. -/
lemma Scheduling.removeFromThreads (hS : Scheduling h entries) (off : ℕ) :
    Scheduling (halgForeach Hal.threads (fun _ => true)
      (fun thread h => h.removeEntries (fun e => e.functPtr = off) thread) h) entries ∧
    ∀ e ∈ (halgForeach Hal.threads (fun _ => true)
      (fun thread h => h.removeEntries (fun e => e.functPtr = off) thread) h).threadEntries,
      e.functPtr ≠ off := by
  have hcb : ∀ (s : Hal) (t : Obj Thread), Scheduling s entries → t ∈ s.threads →
      t.hdr.valid = true → true = true →
      Scheduling (s.removeEntries (fun e => e.functPtr = off) t.off) entries :=
    fun s t hs ht _ _ => (hs.removeEntries ht _).1
  have hS' : Scheduling (halgForeach Hal.threads (fun _ => true)
      (fun thread h => h.removeEntries (fun e => e.functPtr = off) thread) h) entries :=
    halgForeach_rule (P := fun s => Scheduling s entries) hcb hS
  refine ⟨hS', ?_⟩
  have hclear : ∀ t ∈ (halgForeach Hal.threads (fun _ => true)
      (fun thread h => h.removeEntries (fun e => e.functPtr = off) thread) h).threads,
      t.hdr.valid = true → ¬ ∃ e ∈ t.body.functList, e.functPtr = off := by
    refine halgForeach_clears (P := fun s => Scheduling s entries) (fun _ _ => rfl) hcb
      (fun s hs => hs.threadKeys) ?_ hS
    intro s t hs ht _ _ t' ht' hv' hbad
    obtain ⟨hs', t₁, ht₁, hoff, hlist⟩ := hs.removeEntries ht fun e => e.functPtr = off
    have hne : t'.off ≠ t.off := by
      intro heq
      obtain rfl := eq_of_key hs'.threadKeys ht' ht₁ (heq.trans hoff.symm)
      obtain ⟨e, he, hef⟩ := hbad
      have hno := (hlist e he).2
      simp [hef] at hno
    exact ⟨hne, t', mem_removeEntries_ne ht' hne, rfl, hv', hbad⟩
  intro e he hef
  obtain ⟨t, ht, het⟩ := List.mem_flatMap.1 he
  cases htv : t.hdr.valid with
  | true => exact hclear t ht htv ⟨e, het, hef⟩
  | false => simp [hS'.freed t ht htv] at het

/-- `free_funct_struct` keeps the bookkeeping. -/
lemma Scheduling.freeFunctStruct (hS : Scheduling h entries) {f : Obj Funct} (hf : f ∈ h.functs)
    (hv : f.hdr.valid = true) : Scheduling (h.freeFunctStruct f.off) entries := by
  have hat : at? Obj.off f.off h.functs = some f := (at?_eq_some hS.functKeys).2 ⟨hf, rfl⟩
  rw [Hal.freeFunctStruct, hat]
  dsimp only
  split_ifs with hu
  · obtain ⟨hS', hno⟩ := hS.removeFromThreads f.off
    exact hS'.releaseFunct hno
  · exact hS.releaseFunct (hS.no_entries hf hv hu)

/-- `halg_exit_thread` keeps the bookkeeping. -/
lemma Scheduling.halgExitThread (hS : Scheduling h entries) (name : Option String) :
    Scheduling (h.halgExitThread name).2 entries := by
  rw [Hal.halgExitThread]
  dsimp only
  split_ifs
  · exact hS
  · exact hS
  · exact halgForeach_rule (P := fun s => Scheduling s entries)
      (fun s t hs ht _ _ => hs.freeThreadStruct ht) hS

/-! ### Adding functs and threads -/

lemma walk_le {len : ℕ} : ∀ {k i : ℕ}, walk len k = some i → i ≤ len
  | 0, i, h => by
      obtain rfl : 0 = i := by simpa [walk] using h
      exact Nat.zero_le _
  | k + 1, i, h => by
      rw [walk] at h
      split at h
      · next j hj =>
          have hle := walk_le hj
          split_ifs at h with hlen
          cases h
          omega
      · simp at h

/-- The insertion point is on the list. -/
lemma insertionPoint_le {len : ℕ} {position : ℤ} {i : ℕ}
    (h : insertionPoint len position = some i) : i ≤ len := by
  rw [insertionPoint] at h
  split_ifs at h
  · exact walk_le h
  · obtain ⟨j, _, rfl⟩ := Option.map_eq_some_iff.1 h
    omega

/-- The blocks of entries after `alloc_funct_entry_struct`. -/
def takenEntries (h : Hal) (mem : ℕ) (entries : List ℕ) : List ℕ :=
  if h.functEntryFree = [] then mem :: entries else entries

/-- The block of a new entry, beside the blocks in use, is what is taken. -/
lemma perm_takenEntries {mem off : ℕ} {h₁ : Hal} (ha : h.allocFunctEntryStruct mem = (off, h₁))
    {l : List ℕ} (hp : (l ++ h.functEntryFree.map FunctEntry.off).Perm entries) :
    (off :: l ++ h₁.functEntryFree.map FunctEntry.off).Perm (takenEntries h mem entries) := by
  cases hfree : h.functEntryFree with
  | nil =>
    simp only [Hal.allocFunctEntryStruct, hfree, Prod.mk.injEq] at ha
    obtain ⟨rfl, rfl⟩ := ha
    rw [takenEntries, if_pos hfree]
    exact hp.cons mem
  | cons e rest =>
    simp only [Hal.allocFunctEntryStruct, hfree, Prod.mk.injEq] at ha
    obtain ⟨rfl, rfl⟩ := ha
    rw [takenEntries, if_neg (by simp [hfree])]
    rw [hfree, List.map_cons] at hp
    exact List.perm_middle.symm.trans hp

lemma nodup_takenEntries {mem : ℕ} (hnd : entries.Nodup) (hm : mem ∉ entries) :
    (takenEntries h mem entries).Nodup := by
  rw [takenEntries]
  split_ifs
  · exact List.nodup_cons.2 ⟨hm, hnd⟩
  · exact hnd

lemma allocFunctEntryStruct_frame {mem off : ℕ} {h₁ : Hal}
    (ha : h.allocFunctEntryStruct mem = (off, h₁)) :
    h₁.functs = h.functs ∧ h₁.threads = h.threads := by
  rw [Hal.allocFunctEntryStruct] at ha
  split at ha <;> (obtain ⟨-, rfl⟩ := Prod.mk.inj ha; exact ⟨rfl, rfl⟩)

/-- A new entry on the list of a thread keeps the bookkeeping, if the funct is available. -/
lemma Scheduling.addEntry (hS : Scheduling h entries) {t : Obj Thread} (ht : t ∈ h.threads)
    (htv : t.hdr.valid = true) {f : Obj Funct} (hf : f ∈ h.functs) (hfv : f.hdr.valid = true)
    (havail : ¬ (0 < f.body.users ∧ f.body.reentrant = false)) {mem : ℕ} (hm : mem ∉ entries)
    {i : ℕ} (hi : i ≤ t.body.functList.length) {e : FunctEntry} (hef : e.functPtr = f.off)
    {h₁ : Hal} (ha : h.allocFunctEntryStruct mem = (e.off, h₁)) :
    Scheduling ((h₁.modifyList t.off fun l => l.insertIdx i e).modifyFunct f.off
      fun f => { f with users := f.users + 1 }) (takenEntries h mem entries) := by
  obtain ⟨hfs, hths⟩ := allocFunctEntryStruct_frame ha
  have hperm := threadEntries_insertIdx hS ht hi e
  have hte : ((h₁.modifyList t.off fun l => l.insertIdx i e).modifyFunct f.off
      fun f => { f with users := f.users + 1 }).threadEntries
      = (h.modifyList t.off fun l => l.insertIdx i e).threadEntries := by
    simp [Hal.modifyFunct, Hal.modifyList, Hal.threadEntries, hths]
  have hfs' : ((h₁.modifyList t.off fun l => l.insertIdx i e).modifyFunct f.off
      fun f => { f with users := f.users + 1 }).functs = modify Obj.off f.off
      (fun o : Obj Funct => { o with body := { o.body with users := o.body.users + 1 } })
      h.functs := by
    simp [Hal.modifyFunct, Hal.modifyList, hfs]
  have hths' : ((h₁.modifyList t.off fun l => l.insertIdx i e).modifyFunct f.off
      fun f => { f with users := f.users + 1 }).threads
      = (h.modifyList t.off fun l => l.insertIdx i e).threads := by
    simp [Hal.modifyFunct, Hal.modifyList, hths]
  have huses : ∀ off, uses off (h.modifyList t.off fun l => l.insertIdx i e).threadEntries
      = uses off h.threadEntries + (if e.functPtr = off then 1 else 0) := by
    intro off
    rw [uses, hperm.countP_eq, uses, List.countP_cons]
    simp
  refine ⟨?_, ?_, ?_, ?_, nodup_takenEntries hS.nodup hm, ?_, ?_, ?_, ?_⟩
  · rw [hfs', keys_modify]
    · exact hS.functKeys
    · exact fun _ => rfl
  · rw [hths', threadKeys_modifyList]
    exact hS.threadKeys
  · rw [hfs']
    exact forall_modify (fun f hf _ => hS.functNe f hf) fun f hf _ => hS.functNe f hf
  · have hlists := hS.lists
    rw [List.map_append] at hlists
    refine List.Perm.trans ?_ (perm_takenEntries ha hlists)
    rw [hte, List.map_append]
    exact (hperm.map FunctEntry.off).append_right _
  · rw [hfs', hte]
    refine forall_modify (fun g hg hk hv => ?_) fun g hg hk hv => ?_
    · have hu := huses g.off
      rw [hef, if_neg (Ne.symm hk)] at hu
      rw [hS.users g hg hv, hu, Nat.add_zero]
    · have hu := huses g.off
      rw [hef, if_pos hk.symm] at hu
      have hg' := hS.users g hg hv
      show g.body.users + 1
        = (uses g.off (h.modifyList t.off fun l => l.insertIdx i e).threadEntries : ℤ)
      omega
  · rw [hfs']
    refine forall_modify (fun g hg _ => hS.nonreentrant g hg) fun g hg hk hv hr => ?_
    obtain rfl := eq_of_key hS.functKeys hg hf hk
    have h0 : ¬ 0 < g.body.users := fun h0 => havail ⟨h0, hr⟩
    show g.body.users + 1 ≤ 1
    omega
  · intro e' he'
    have hlive : ∃ g ∈ h.functs, g.hdr.valid = true ∧ g.off = e'.functPtr := by
      rw [hte] at he'
      rcases List.mem_cons.1 (hperm.mem_iff.1 he') with rfl | he'
      · exact ⟨f, hf, hfv, hef.symm⟩
      · exact hS.live e' he'
    obtain ⟨g, hg, hgv, hgo⟩ := hlive
    rw [hfs']
    by_cases hk : g.off = f.off
    · exact ⟨_, mem_modify_self hg hk, hgv, hgo⟩
    · exact ⟨g, mem_modify_of_ne hg hk, hgv, hgo⟩
  · rw [hths']
    refine forall_modify (fun o ho _ => hS.freed o ho) fun o ho hk hv => ?_
    obtain rfl := eq_of_key hS.threadKeys ho ht hk
    exact absurd (hv.symm.trans htv) Bool.false_ne_true

/-- `halpr_find_funct_by_name`, as the thread operations use it, finds valid functs. -/
lemma findFunct_mem {name : String} {f : Obj Funct} (hf : h.findFunct name = some f) :
    f ∈ h.functs ∧ f.hdr.valid = true := by
  rw [Hal.findFunct] at hf
  split at hf
  · next g hg => exact Option.some.inj hf ▸ findByName_mem hg
  · exact findByName_mem hf

/-- `hal_add_funct_to_thread` keeps the bookkeeping; only if it succeeds a block was
taken. -/
lemma Scheduling.halAddFunctToThread (hS : Scheduling h entries) {mem : ℕ} (hm : mem ∉ entries)
    (functName threadName : String) (position rmb wmb : ℤ) :
    ((h.halAddFunctToThread mem functName threadName position rmb wmb).1 ≠ none →
      (h.halAddFunctToThread mem functName threadName position rmb wmb).2 = h) ∧
    ((h.halAddFunctToThread mem functName threadName position rmb wmb).1 = none →
      Scheduling (h.halAddFunctToThread mem functName threadName position rmb wmb).2
        (takenEntries h mem entries)) := by
  rw [Hal.halAddFunctToThread]
  split
  · simp
  split
  · simp
  split
  · simp
  next f hff =>
  split
  · simp
  split
  · simp
  next havail =>
  split
  · simp
  next t hft =>
  split
  · simp
  split
  · simp
  next i hi =>
  obtain ⟨hf, hfv⟩ := findFunct_mem hff
  obtain ⟨ht, htv⟩ := findByName_mem hft
  refine ⟨fun hne => absurd rfl hne, fun _ => ?_⟩
  exact hS.addEntry ht htv hf hfv havail hm (insertionPoint_le hi) rfl rfl

/-- `hal_del_funct_from_thread` keeps the bookkeeping. -/
lemma Scheduling.halDelFunctFromThread (hS : Scheduling h entries)
    (functName threadName : String) :
    Scheduling (h.halDelFunctFromThread functName threadName).2 entries := by
  rw [Hal.halDelFunctFromThread]
  split
  · exact hS
  split
  · exact hS
  split
  · exact hS
  split
  · exact hS
  next t hft =>
  split
  · exact hS
  next e he =>
  exact hS.removeEntry (findByName_mem hft).1 (List.mem_of_find?_eq_some he)

/-- Exporting a funct keeps the bookkeeping: no entry refers to new memory. -/
lemma Scheduling.halgExportXfunctfv (hS : Scheduling h entries) {mem : Option Alloc}
    (hm : h.fresh mem = true) (xf : HalExportXfunctArgs) (name : String) :
    Scheduling (h.halgExportXfunctfv mem xf name).2 entries := by
  rw [Hal.halgExportXfunctfv]
  split
  · exact hS
  split
  · exact hS
  split
  · exact hS
  split
  · exact hS
  split
  · exact hS
  split
  · exact hS
  split
  · exact hS
  next nf hn =>
  obtain ⟨m, rfl, hoff, -, -, hbody⟩ := halgCreateObject_eq hn
  obtain ⟨h0, hfresh⟩ := h.fresh_some hm
  rw [← hoff] at h0 hfresh
  have hno : ∀ f ∈ h.functs, f.off ≠ nf.off := by
    intro f hf hfo
    refine hfresh ?_
    simp only [Hal.offsets, List.mem_append]
    exact .inl (.inr (hfo ▸ List.mem_map_of_mem hf))
  have hz : uses nf.off h.threadEntries = 0 := by
    refine List.countP_eq_zero.2 fun e he hef => ?_
    obtain ⟨f, hf, _, hfo⟩ := hS.live e he
    exact hno f hf (hfo.trans (by simpa using hef))
  refine ⟨nodup_addObject hS.functKeys ?_, hS.threadKeys, ?_, hS.lists, hS.nodup, ?_, ?_, ?_,
    hS.freed⟩
  · intro hk
    obtain ⟨f, hf, hfo⟩ := List.mem_map.1 hk
    exact hno f hf hfo
  · intro f hf
    rcases mem_addObject.1 hf with rfl | hf
    · exact h0
    · exact hS.functNe f hf
  · intro f hf hv
    rcases mem_addObject.1 hf with rfl | hf
    · have hu : uses f.off (Hal.threadEntries { h with functs := addObject f h.functs }) = 0 := hz
      rw [hu, hbody]
      rfl
    · exact hS.users f hf hv
  · intro f hf hv hr
    rcases mem_addObject.1 hf with rfl | hf
    · simp [hbody]
    · exact hS.nonreentrant f hf hv hr
  · intro e he
    obtain ⟨f, hf, hv, hfo⟩ := hS.live e he
    exact ⟨f, mem_addObject.2 (.inr hf), hv, hfo⟩

/-- A new thread, with an empty list, keeps the bookkeeping. -/
lemma Scheduling.addThread (hS : Scheduling h entries) {mem : Option Alloc}
    (hm : h.fresh mem = true) (name : String) (usesFp : Bool) :
    Scheduling (h.addThread mem name usesFp).2 entries := by
  rw [Hal.addThread]
  split
  · exact hS
  split
  · exact hS
  split
  · exact hS
  split
  · exact hS
  next new hn =>
  obtain ⟨m, rfl, hoff, -, -, hbody⟩ := halgCreateObject_eq hn
  have hfresh := (h.fresh_some hm).2
  rw [← hoff] at hfresh
  have hte : (Hal.threadEntries { h with threads := addObject new h.threads }).Perm
      h.threadEntries := by
    refine ((addObject_perm new h.threads).flatMap_right _).trans ?_
    rw [List.flatMap_cons, hbody]
    exact List.Perm.refl _
  refine ⟨hS.functKeys, nodup_addObject hS.threadKeys ?_, hS.functNe, ?_, hS.nodup, ?_,
    hS.nonreentrant, ?_, ?_⟩
  · intro hk
    refine hfresh ?_
    simp only [Hal.offsets, List.mem_append]
    exact .inr hk
  · exact ((hte.append_right _).map FunctEntry.off).trans hS.lists
  · intro f hf hv
    rw [uses, hte.countP_eq]
    exact hS.users f hf hv
  · exact fun e he => hS.live e (hte.mem_iff.1 he)
  · intro t ht hv
    rcases mem_addObject.1 ht with rfl | ht
    · rw [hbody]
    · exact hS.freed t ht hv

/-! ### Teardown -/

/-- Deleting a pin touches no funct and no thread. -/
lemma freePinStruct_frame (off : ℕ) : (h.freePinStruct off).functs = h.functs ∧
    (h.freePinStruct off).threads = h.threads ∧
    (h.freePinStruct off).functEntryFree = h.functEntryFree := by
  have hcell : ∀ (p : Obj Pin) (ref : DataRef), (h.setCell p ref).functs = h.functs ∧
      (h.setCell p ref).threads = h.threads ∧
      (h.setCell p ref).functEntryFree = h.functEntryFree := by
    intro p ref
    rw [Hal.setCell]
    split <;> exact ⟨rfl, rfl, rfl⟩
  have hun : (h.unlinkPin off).functs = h.functs ∧ (h.unlinkPin off).threads = h.threads ∧
      (h.unlinkPin off).functEntryFree = h.functEntryFree := by
    rw [Hal.unlinkPin]
    split
    · exact ⟨rfl, rfl, rfl⟩
    · split_ifs
      · exact hcell _ _
      · exact ⟨rfl, rfl, rfl⟩
  exact hun

lemma Scheduling.freePinsOf (hS : Scheduling h entries) (id : ℤ) :
    Scheduling (h.freePinsOf id) entries := by
  refine halgForeach_rule (P := fun s => Scheduling s entries) (fun s p hs _ _ _ => ?_) hS
  obtain ⟨hf, ht, he⟩ := freePinStruct_frame (h := s) p.off
  exact hs.congr hf ht he

lemma Scheduling.freeFunctsOf (hS : Scheduling h entries) (id : ℤ) :
    Scheduling (h.freeFunctsOf id) entries :=
  halgForeach_rule (P := fun s => Scheduling s entries)
    (fun _ _ hs hf hv _ => hs.freeFunctStruct hf hv) hS

lemma Scheduling.freeInstRest (hS : Scheduling h entries) (inst : Obj Inst) :
    Scheduling (h.freeInstRest inst) entries :=
  (hS.freePinsOf inst.hdr.id.toInt).congr rfl rfl rfl

/-- `free_inst_struct` keeps the bookkeeping. -/
lemma Scheduling.freeInstStruct (hS : Scheduling h entries) (inst : Obj Inst) :
    Scheduling (h.freeInstStruct inst) entries :=
  (hS.freeFunctsOf inst.hdr.id.toInt).freeInstRest inst

lemma Scheduling.freeCompRest (hS : Scheduling h entries) (comp : Obj Comp) :
    Scheduling (h.freeCompRest comp) entries :=
  (hS.freePinsOf comp.hdr.id.toInt).congr rfl rfl rfl

/-- `free_comp_struct` keeps the bookkeeping. -/
lemma Scheduling.freeCompStruct (hS : Scheduling h entries) (comp : Obj Comp) :
    Scheduling (h.freeCompStruct comp).2 entries := by
  rw [Hal.freeCompStruct]
  split_ifs
  · exact hS
  · refine Scheduling.freeCompRest ?_ comp
    refine halgForeach_rule (P := fun s => Scheduling s entries) (fun s o hs _ _ _ => ?_)
      (hS.freeFunctsOf _)
    rw [Hal.freeInstAt]
    split
    · exact hs.freeInstStruct _
    · exact hs

/-- `halg_exit` keeps the bookkeeping. -/
lemma Scheduling.halgExit (hS : Scheduling h entries) (compId : ℤ) :
    Scheduling (h.halgExit compId).2 entries := by
  rw [Hal.halgExit]
  split
  · exact hS
  · exact hS.freeCompStruct _

/-- `halg_inst_delete` keeps the bookkeeping. -/
lemma Scheduling.halgInstDelete (hS : Scheduling h entries) (name : String) :
    Scheduling (h.halgInstDelete name).2 entries := by
  rw [Hal.halgInstDelete]
  split
  · exact hS
  · exact hS.freeInstStruct _

/-- Threads that were freed have no entries. -/
lemma flatMap_sweep : ∀ {l : List (Obj Thread)},
    (∀ t ∈ l, t.hdr.valid = false → t.body.functList = []) →
    ((sweep l).flatMap fun t => t.body.functList) = l.flatMap fun t => t.body.functList
  | [], _ => rfl
  | t :: l, hfreed => by
      have ih := flatMap_sweep fun o ho => hfreed o (List.mem_cons_of_mem t ho)
      rw [sweep] at ih ⊢
      cases hv : t.hdr.valid with
      | true => simp [hv, ih]
      | false => simp [hv, ih, hfreed t (.head _) hv]

/-- Garbage collection keeps the bookkeeping: what goes is not referred to. -/
lemma Scheduling.sweep (hS : Scheduling h entries) :
    Scheduling { h with functs := sweep h.functs, threads := sweep h.threads } entries := by
  have hte : Hal.threadEntries
      { h with functs := MachinekitHal.sweep h.functs, threads := MachinekitHal.sweep h.threads }
      = h.threadEntries := flatMap_sweep hS.freed
  refine ⟨nodup_sweep hS.functKeys, nodup_sweep hS.threadKeys, ?_, ?_, hS.nodup, ?_, ?_, ?_, ?_⟩
  · exact fun f hf => hS.functNe f (mem_sweep.1 hf).1
  · rw [hte]
    exact hS.lists
  · intro f hf hv
    rw [hte]
    exact hS.users f (mem_sweep.1 hf).1 hv
  · exact fun f hf => hS.nonreentrant f (mem_sweep.1 hf).1
  · intro e he
    rw [hte] at he
    obtain ⟨f, hf, hv, hfo⟩ := hS.live e he
    exact ⟨f, mem_sweep.2 ⟨hf, hv⟩, hv, hfo⟩
  · exact fun t ht => hS.freed t (mem_sweep.1 ht).1

end MachinekitHal
