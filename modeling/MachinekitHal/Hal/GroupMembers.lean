import MachinekitHal.Hal.Group

/-!
Group members and the signals they refer to.

* `KeysApart`: objects of different types are at different offsets.
* `SameObjs`: what unlinking the pins of a signal leaves alone.
* `GroupChange`: what one call can do to the signals, the groups and the members;
  `groupCall_change` says that it can do nothing else.
* `MembersOk`: every valid member refers to the valid signal of its name. It is kept by
  every call, as long as no signal is freed while a member refers to it.
-/

namespace MachinekitHal

open Store

variable {s s' : GroupHal} {α : Type}

/-! ### Offsets -/

/-- The offsets of signals, groups, members and vtables, apart from each other and, for the
signals, from all others. -/
structure KeysApart (s : GroupHal) : Prop where
  sigs : (s.sigs.map Obj.off).Nodup
  groups : (s.groups.map Obj.off).Nodup
  members : (s.members.map Obj.off).Nodup
  vtables : (s.vtables.map Obj.off).Nodup
  sig : ∀ off ∈ s.sigs.map Obj.off, off ∉ s.comps.map Obj.off ∧ off ∉ s.insts.map Obj.off ∧
    off ∉ s.pins.map Obj.off ∧ off ∉ s.functs.map Obj.off ∧ off ∉ s.threads.map Obj.off ∧
    off ∉ s.groups.map Obj.off ∧ off ∉ s.members.map Obj.off ∧ off ∉ s.vtables.map Obj.off
  group : ∀ off ∈ s.groups.map Obj.off, off ∉ s.members.map Obj.off

lemma keys_eq (s : GroupHal) : s.headers.map Prod.fst =
    [s.comps.map Obj.off, s.insts.map Obj.off, s.pins.map Obj.off, s.sigs.map Obj.off,
      s.functs.map Obj.off, s.threads.map Obj.off, s.groups.map Obj.off, s.members.map Obj.off,
      s.vtables.map Obj.off].flatten := by
  simp [GroupHal.headers, headersOf, Function.comp_def]

lemma keysApart (hk : (s.headers.map Prod.fst).Nodup) : KeysApart s := by
  rw [keys_eq, List.nodup_flatten] at hk
  obtain ⟨hn, hd⟩ := hk
  simp only [List.pairwise_cons, List.mem_cons, List.not_mem_nil, or_false, forall_eq_or_imp,
    forall_eq] at hn hd
  obtain ⟨-, -, -, hs, -, -, hg, hm, hv⟩ := hn
  obtain ⟨⟨-, -, hcs, -⟩, ⟨-, his, -⟩, ⟨hps, -⟩, ⟨hsf, hst, hsg, hsm, hsv⟩, -, -, ⟨hgm, -⟩, -⟩ := hd
  refine ⟨hs, hg, hm, hv, ?_, fun off h h' => hgm h h'⟩
  intro off h
  exact ⟨fun h' => hcs h' h, fun h' => his h' h, fun h' => hps h' h, fun h' => hsf h h',
    fun h' => hst h h', fun h' => hsg h h', fun h' => hsm h h', fun h' => hsv h h'⟩

/-- Freeing a signal changes no list but that of the signals. -/
lemma freeSig_eq (hk : (s.headers.map Prod.fst).Nodup) {off : ℕ}
    (ho : off ∈ s.sigs.map Obj.off) :
    { s with toHal := { s.toHal with sigs := halgFreeObject off s.sigs } } = s.freeObject off := by
  obtain ⟨hc, hi, hp, hf, ht, hg, hm, hv⟩ := (keysApart hk).sig off ho
  have hself : ∀ {α : Type} {l : List (Obj α)}, off ∉ l.map Obj.off → halgFreeObject off l = l :=
    fun h => modify_eq_self h
  simp only [GroupHal.freeObject, GroupHal.mapObjs, hself hc, hself hi, hself hp, hself hf,
    hself ht, hself hg, hself hm, hself hv]

@[simp] lemma keys_hoIncref (off : ℕ) :
    (s.hoIncref off).headers.map Prod.fst = s.headers.map Prod.fst := by
  rw [GroupHal.headers_hoIncref]
  exact keys_modify fun _ => rfl

@[simp] lemma keys_hoDecref (off : ℕ) :
    (s.hoDecref off).headers.map Prod.fst = s.headers.map Prod.fst := by
  rw [GroupHal.headers_hoDecref]
  exact keys_modify fun _ => rfl

@[simp] lemma keys_freeObject (off : ℕ) :
    (s.freeObject off).headers.map Prod.fst = s.headers.map Prod.fst := by
  rw [GroupHal.headers_freeObject]
  exact keys_modify fun _ => rfl

/-- The headers after an object was added to one of the lists. -/
lemma perm_insert {β : Type} {a b b' c : List β} {x : β} (h : b'.Perm (x :: b)) :
    (a ++ b' ++ c).Perm (x :: (a ++ b ++ c)) :=
  ((h.append_left a).trans List.perm_middle).append_right c

lemma headers_addSig (new : Obj Sig) :
    ({ s with toHal := { s.toHal with sigs := addObject new s.sigs } } : GroupHal).headers.Perm
      ((new.off, new.hdr) :: s.headers) := by
  have h := perm_insert (a := headersOf s.comps ++ headersOf s.insts ++ headersOf s.pins)
    (c := headersOf s.functs ++ headersOf s.threads ++ headersOf s.groups ++ headersOf s.members
      ++ headersOf s.vtables) (headersOf_addObject new (l := s.sigs))
  simpa only [GroupHal.headers, List.append_assoc] using h

lemma headers_addGroup (new : Obj Group) :
    ({ s with groups := addObject new s.groups } : GroupHal).headers.Perm
      ((new.off, new.hdr) :: s.headers) := by
  have h := perm_insert (a := headersOf s.comps ++ headersOf s.insts ++ headersOf s.pins
      ++ headersOf s.sigs ++ headersOf s.functs ++ headersOf s.threads)
    (c := headersOf s.members ++ headersOf s.vtables) (headersOf_addObject new (l := s.groups))
  simpa only [GroupHal.headers, List.append_assoc] using h

lemma headers_addMember (new : Obj Member) :
    ({ s with members := addObject new s.members } : GroupHal).headers.Perm
      ((new.off, new.hdr) :: s.headers) := by
  have h := perm_insert (a := headersOf s.comps ++ headersOf s.insts ++ headersOf s.pins
      ++ headersOf s.sigs ++ headersOf s.functs ++ headersOf s.threads ++ headersOf s.groups)
    (c := headersOf s.vtables) (headersOf_addObject new (l := s.members))
  simpa only [GroupHal.headers, List.append_assoc] using h

lemma headers_addVtable (new : Obj Vtable) :
    ({ s with vtables := addObject new s.vtables } : GroupHal).headers.Perm
      ((new.off, new.hdr) :: s.headers) := by
  have h := perm_insert (a := headersOf s.comps ++ headersOf s.insts ++ headersOf s.pins
      ++ headersOf s.sigs ++ headersOf s.functs ++ headersOf s.threads ++ headersOf s.groups
      ++ headersOf s.members) (c := []) (headersOf_addObject new (l := s.vtables))
  simpa only [GroupHal.headers, List.append_assoc, List.append_nil] using h

/-- A new object keeps the offsets distinct. -/
lemma keys_insert {l l' : List (ℕ × Halhdr)} {off : ℕ} {hh : Halhdr}
    (h : l'.Perm ((off, hh) :: l)) (hk : (l.map Prod.fst).Nodup) (hoff : off ∉ l.map Prod.fst) :
    (l'.map Prod.fst).Nodup := by
  rw [(h.map Prod.fst).nodup_iff, List.map_cons, List.nodup_cons]
  exact ⟨hoff, hk⟩

/-! ### Unlinking -/

/-- The same objects with the same headers; pins and signals may be changed. -/
structure SameObjs (h h' : Hal) : Prop where
  lock : h'.lock = h.lock
  comps : h'.comps = h.comps
  insts : h'.insts = h.insts
  functs : h'.functs = h.functs
  threads : h'.threads = h.threads
  pins : headersOf h'.pins = headersOf h.pins
  sigs : headersOf h'.sigs = headersOf h.sigs

lemma headersOf_modifyBody {l : List (Obj α)} (off : ℕ) (f : α → α) :
    headersOf (modify Obj.off off (fun o => { o with body := f o.body }) l) = headersOf l := by
  simp only [headersOf, Store.modify, List.map_map]
  refine List.map_congr_left fun o _ => ?_
  by_cases hk : o.off = off <;> simp [hk]

lemma SameObjs.setCell {h h' : Hal} (hs : SameObjs h h') (pin : Obj Pin) (ref : DataRef) :
    SameObjs h (h'.setCell pin ref) := by
  rw [Hal.setCell]
  split
  · exact ⟨hs.lock, hs.comps, hs.insts, hs.functs, hs.threads, hs.pins, hs.sigs⟩
  · exact hs

lemma SameObjs.modifyPin {h h' : Hal} (hs : SameObjs h h') (off : ℕ) (f : Pin → Pin) :
    SameObjs h (h'.modifyPin off f) :=
  ⟨hs.lock, hs.comps, hs.insts, hs.functs, hs.threads,
    (headersOf_modifyBody off f).trans hs.pins, hs.sigs⟩

lemma SameObjs.modifySig {h h' : Hal} (hs : SameObjs h h') (off : ℕ) (f : Sig → Sig) :
    SameObjs h (h'.modifySig off f) :=
  ⟨hs.lock, hs.comps, hs.insts, hs.functs, hs.threads, hs.pins,
    (headersOf_modifyBody off f).trans hs.sigs⟩

lemma SameObjs.unlinkPin {h h' : Hal} (hs : SameObjs h h') (off : ℕ) :
    SameObjs h (h'.unlinkPin off) := by
  rw [Hal.unlinkPin]
  split
  · exact hs
  · split_ifs
    · exact ((hs.setCell _ _).modifySig _ _).modifyPin _ _
    · exact hs

/-- Unlinking all pins of a signal keeps all objects and their headers. -/
lemma SameObjs.unlinkAll (h : Hal) (sig : ℕ) :
    SameObjs h (h.foreachPinBySignal sig fun off h => h.unlinkPin off) :=
  halgForeach_rule (fun _ o hs _ _ _ => hs.unlinkPin o.off) ⟨rfl, rfl, rfl, rfl, rfl, rfl, rfl⟩

/-! ### What a call does -/

/-- Free the objects at the given offsets, in order. -/
def GroupHal.freeAll (s : GroupHal) (offs : List ℕ) : GroupHal :=
  offs.foldl (fun s off => s.freeObject off) s

/-- The members a deletion visits. -/
def GroupAct.frees (s : GroupHal) : GroupAct → Obj Member → Bool
  | .groupDelete name, m =>
    match findByName name s.groups with
    | some group =>
      !s.locked halLockConfig && group.hdr.refcnt = 0 && ownedBy group.hdr.id.toInt m
    | none => false
  | .freeGroups, m => s.groups.any fun g => g.hdr.valid && ownedBy g.hdr.id.toInt m
  | .freeMembers, _ => true
  | _, _ => false

/-- The signals, the pins and nothing else may have been changed, and no header. -/
structure SameGroups (s s' : GroupHal) : Prop where
  objs : SameObjs s.toHal s'.toHal
  groups : s'.groups = s.groups
  members : s'.members = s.members
  vtables : s'.vtables = s.vtables

/-- A header `halg_create_objectf` has made. -/
structure Halhdr.New (hh : Halhdr) : Prop where
  valid : hh.valid = true
  refcnt : hh.refcnt = 0

/-- The calls that neither take nor give back a reference. -/
def GroupAct.quiet : GroupAct → Bool
  | .refGroup _ | .unrefGroup _ | .memberNew _ _ _ _ _ | .memberDelete _ _ => false
  | _ => true

/-- What a call that returns `rc` can do. -/
inductive GroupChange (s : GroupHal) (a : GroupAct) (rc : Option Errno) (s' : GroupHal) : Prop where
  | same (hrc : rc.isSome = true) (h : SameGroups s s')
  | newSig (ha : a.quiet = true) (m : Alloc) (new : Obj Sig) (hm : a.mem = some m)
      (hoff : new.off = m.off) (hnew : new.hdr.New) (hlen : ¬ halNameLen < new.hdr.name.length)
      (hn : findByName new.hdr.name s.sigs = none)
      (h : s' = { s with toHal := { s.toHal with sigs := addObject new s.sigs } })
  | newGroup (ha : a.quiet = true) (m : Alloc) (new : Obj Group) (hm : a.mem = some m)
      (hoff : new.off = m.off) (hnew : new.hdr.New)
      (h : s' = { s with groups := addObject new s.groups })
  | newMember (m : Alloc) (new : Obj Member) (sig : Obj Sig) (group : String)
      (arg1 : BitVec 32) (epsIndex : ℤ)
      (ha : a = .memberNew (some m) group new.hdr.name arg1 epsIndex) (hrc : rc = none)
      (hoff : new.off = m.off) (hnew : new.hdr.New)
      (hsig : findByName new.hdr.name s.sigs = some sig) (hptr : new.body.sigPtr = sig.off)
      (hn : findByName new.hdr.name s.members = none)
      (h : s' = { s.hoIncref sig.off with members := addObject new (s.hoIncref sig.off).members })
  | dropMember (group name : String) (mptr : Obj Member) (sig : Obj Sig)
      (ha : a = .memberDelete group name) (hrc : rc = none)
      (hmptr : findByName name s.members = some mptr) (hsig : findByName name s.sigs = some sig)
      (h : s' = (s.hoDecref sig.off).freeObject mptr.off)
  | freeSig (ha : a.quiet = true) (t : GroupHal) (sig : Obj Sig) (ht : SameGroups s t)
      (hsig : sig ∈ s.sigs)
      (h : s' = { t with toHal := { t.toHal with sigs := halgFreeObject sig.off t.sigs } })
  | free (ha : a.quiet = true) (offs : List ℕ)
      (hoffs : ∀ off ∈ offs, off ∈ s.groups.map Obj.off ∨
        ∃ m ∈ s.members, m.off = off ∧ m.hdr.valid = true ∧ a.frees s m = true)
      (h : s' = s.freeAll offs)
  | refGroup (name : String) (group : Obj Group) (ha : a = .refGroup name) (hrc : rc = none)
      (hgroup : findByName name s.groups = some group) (h : s' = s.hoIncref group.off)
  | unrefGroup (name : String) (group : Obj Group) (ha : a = .unrefGroup name) (hrc : rc = none)
      (hgroup : findByName name s.groups = some group) (h : s' = s.hoDecref group.off)
  | sweep (ha : a.quiet = true) (h : s' = s.halSweep)

lemma SameGroups.refl (s : GroupHal) : SameGroups s s :=
  ⟨⟨rfl, rfl, rfl, rfl, rfl, rfl, rfl⟩, rfl, rfl, rfl⟩

lemma SameGroups.headers (h : SameGroups s s') : s'.headers = s.headers := by
  simp only [GroupHal.headers, h.objs.comps, h.objs.insts, h.objs.functs, h.objs.threads,
    h.objs.pins, h.objs.sigs, h.groups, h.members, h.vtables]

/-- The stored name of a new object is the one given, if it is short. -/
lemma hhSetNamefv_short {name : String} (hl : ¬ halNameLen < name.length) :
    hhSetNamefv name = some name := by
  have hlen : name.length ≤ 41 := by simpa [halNameLen] using hl
  exact fmtAp_of_lt (by omega)

/-- What `halg_create_objectf` returns for a short name. -/
lemma halgCreateObject_new {mem : Option Alloc} {ownerId : ℤ} {name : String} {body : α}
    {new : Obj α} (hl : ¬ halNameLen < name.length)
    (h : halgCreateObject mem ownerId name body = some new) :
    ∃ m, mem = some m ∧ new.off = m.off ∧ new.hdr.New ∧ new.hdr.name = name ∧
      new.body = body := by
  obtain ⟨m, hm, hoff, -, hv, hb⟩ := halgCreateObject_eq h
  refine ⟨m, hm, hoff, ⟨hv, halgCreateObject_refcnt h⟩, ?_, hb⟩
  simp only [halgCreateObject, hm, hhSetNamefv_short hl, Option.some.injEq] at h
  rw [← h]

lemma signalNew_change (mem : Option Alloc) (name : String) (type : HalType) :
    GroupChange s (.signalNew mem name type) (s.signalNew mem name type).1
      (s.signalNew mem name type).2 := by
  simp only [GroupHal.signalNew]
  rw [Hal.halgSignalNew]
  split_ifs with hlock hlen hdup
  · exact .same rfl (.refl s)
  · exact .same rfl (.refl s)
  · exact .same rfl (.refl s)
  · split
    · exact .same rfl (.refl s)
    · next new hnew =>
        obtain ⟨m, hm, hoff, hN, hname, -⟩ := halgCreateObject_new hlen hnew
        have hlen' : ¬ halNameLen < new.hdr.name.length := hname ▸ hlen
        have hn : findByName new.hdr.name s.sigs = none := by simpa [hname] using hdup
        cases type
        case halBit => exact .newSig rfl m new hm hoff hN hlen' hn rfl
        case halS32 => exact .newSig rfl m new hm hoff hN hlen' hn rfl
        case halU32 => exact .newSig rfl m new hm hoff hN hlen' hn rfl
        case halFloat => exact .newSig rfl m new hm hoff hN hlen' hn rfl
        all_goals exact .same rfl (.refl s)

lemma signalDelete_change (name : String) :
    GroupChange s (.signalDelete name) (s.signalDelete name).1 (s.signalDelete name).2 := by
  simp only [GroupHal.signalDelete]
  rw [Hal.halgSignalDelete]
  split_ifs
  · exact .same rfl (.refl s)
  · exact .same rfl (.refl s)
  · split
    · exact .same rfl (.refl s)
    · next sig hsig =>
        exact .freeSig rfl
          { s with toHal := s.toHal.foreachPinBySignal sig.off fun off h => h.unlinkPin off }
          sig ⟨.unlinkAll s.toHal sig.off, rfl, rfl, rfl⟩ (findByName_mem hsig).1 rfl

lemma halgGroupNew_change (mem : Option Alloc) (name : String) (arg1 arg2 : BitVec 32) :
    GroupChange s (.groupNew mem name arg1 arg2) (s.halgGroupNew mem name arg1 arg2).1
      (s.halgGroupNew mem name arg1 arg2).2 := by
  rw [GroupHal.halgGroupNew]
  split_ifs with hlen hlock hdup
  · exact .same rfl (.refl s)
  · exact .same rfl (.refl s)
  · exact .same rfl (.refl s)
  · split
    · exact .same rfl (.refl s)
    · next new hnew =>
        obtain ⟨m, hm, hoff, hN, -, -⟩ := halgCreateObject_new hlen hnew
        exact .newGroup rfl m new hm hoff hN rfl

lemma halgMemberNew_change (mem : Option Alloc) (group member : String) (arg1 : BitVec 32)
    (epsIndex : ℤ) : GroupChange s (.memberNew mem group member arg1 epsIndex)
      (s.halgMemberNew mem group member arg1 epsIndex).1
      (s.halgMemberNew mem group member arg1 epsIndex).2 := by
  rw [GroupHal.halgMemberNew]
  by_cases hlock : s.locked halLockLoad = true
  · rw [if_pos hlock]
    exact .same rfl (.refl s)
  rw [if_neg hlock]
  by_cases hlen : halNameLen < group.length
  · rw [if_pos hlen]
    exact .same rfl (.refl s)
  rw [if_neg hlen]
  by_cases hlen' : halNameLen < member.length
  · rw [if_pos hlen']
    exact .same rfl (.refl s)
  rw [if_neg hlen']
  split
  · exact .same rfl (.refl s)
  · split
    · exact .same rfl (.refl s)
    · split
      · exact .same rfl (.refl s)
      · next sig hsig =>
          split_ifs with hdup
          · exact .same rfl (.refl s)
          · split
            · exact .same rfl (.refl s)
            · next new hnew =>
                obtain ⟨m, hm, hoff, hN, hname, hb⟩ := halgCreateObject_new hlen' hnew
                refine .newMember m new sig group arg1 epsIndex (by rw [hm, hname]) rfl hoff hN
                  (hname ▸ hsig) (by rw [hb]) ?_ rfl
                simpa [hname] using hdup

lemma halgMemberDelete_change (group member : String) :
    GroupChange s (.memberDelete group member) (s.halgMemberDelete group member).1
      (s.halgMemberDelete group member).2 := by
  rw [GroupHal.halgMemberDelete]
  split_ifs
  · exact .same rfl (.refl s)
  · exact .same rfl (.refl s)
  · exact .same rfl (.refl s)
  · split
    · exact .same rfl (.refl s)
    · split_ifs
      · exact .same rfl (.refl s)
      · split
        · exact .same rfl (.refl s)
        · next mptr hmptr =>
            split
            · exact .same rfl (.refl s)
            · next sig hsig => exact .dropMember group member mptr sig rfl rfl hmptr hsig rfl

/-- What is valid after objects were freed was there before, unchanged. -/
lemma mem_foldl_free {offs : List ℕ} {l : List (Obj α)} {o : Obj α}
    (ho : o ∈ offs.foldl (fun l off => halgFreeObject off l) l) (hv : o.hdr.valid = true) :
    o ∈ l := by
  induction offs generalizing l with
  | nil => exact ho
  | cons off offs ih => exact mem_of_mem_free (ih ho) hv

lemma freeAll_members (offs : List ℕ) :
    (s.freeAll offs).members = offs.foldl (fun l off => halgFreeObject off l) s.members := by
  induction offs generalizing s with
  | nil => rfl
  | cons off offs ih => exact ih

lemma freeAll_groups (offs : List ℕ) :
    (s.freeAll offs).groups = offs.foldl (fun l off => halgFreeObject off l) s.groups := by
  induction offs generalizing s with
  | nil => rfl
  | cons off offs ih => exact ih

lemma mem_freeAll_members {offs : List ℕ} {m : Obj Member} (hm : m ∈ (s.freeAll offs).members)
    (hv : m.hdr.valid = true) : m ∈ s.members :=
  mem_foldl_free (freeAll_members offs ▸ hm) hv

lemma mem_freeAll_groups {offs : List ℕ} {g : Obj Group} (hg : g ∈ (s.freeAll offs).groups)
    (hv : g.hdr.valid = true) : g ∈ s.groups :=
  mem_foldl_free (freeAll_groups offs ▸ hg) hv

@[simp] lemma keys_freeAll (offs : List ℕ) :
    (s.freeAll offs).headers.map Prod.fst = s.headers.map Prod.fst := by
  induction offs generalizing s with
  | nil => rfl
  | cons off offs ih => exact ih.trans (keys_freeObject off)

lemma freeAll_append (offs offs' : List ℕ) :
    s.freeAll (offs ++ offs') = (s.freeAll offs).freeAll offs' := by
  simp [GroupHal.freeAll]

/-- Deleting a group frees members it owns and the group. -/
lemma freeGroupStruct_eq (group : Obj Group) : ∃ offs,
    (∀ off ∈ offs, ∃ m ∈ s.members, m.off = off ∧ m.hdr.valid = true ∧
      ownedBy group.hdr.id.toInt m = true) ∧
    s.freeGroupStruct group = s.freeAll (offs ++ [group.off]) := by
  rw [GroupHal.freeGroupStruct]
  generalize ht : halgForeach GroupHal.members (ownedBy group.hdr.id.toInt)
    (fun off s => s.freeObject off) s = t
  suffices H : ∃ offs, (∀ off ∈ offs, ∃ m ∈ s.members, m.off = off ∧ m.hdr.valid = true ∧
      ownedBy group.hdr.id.toInt m = true) ∧ t = s.freeAll offs by
    obtain ⟨offs, hoffs, rfl⟩ := H
    exact ⟨offs, hoffs, by simp [GroupHal.freeAll]⟩
  rw [← ht]
  refine halgForeach_rule (P := fun t => ∃ offs, (∀ off ∈ offs, ∃ m ∈ s.members, m.off = off ∧
    m.hdr.valid = true ∧ ownedBy group.hdr.id.toInt m = true) ∧ t = s.freeAll offs) ?_
    ⟨[], by simp, rfl⟩
  rintro t m ⟨offs, hoffs, rfl⟩ hm hv hsel
  refine ⟨offs ++ [m.off], ?_, by simp [GroupHal.freeAll]⟩
  intro off ho
  rcases List.mem_append.1 ho with ho | ho
  · exact hoffs off ho
  · obtain rfl := List.mem_singleton.1 ho
    exact ⟨m, mem_freeAll_members hm hv, rfl, hv, hsel⟩

lemma halgGroupDelete_change (name : String) :
    GroupChange s (.groupDelete name) (s.halgGroupDelete name).1 (s.halgGroupDelete name).2 := by
  rw [GroupHal.halgGroupDelete]
  split_ifs with hlock
  · exact .same rfl (.refl s)
  · split
    · exact .same rfl (.refl s)
    · next group hgroup =>
        split_ifs with href
        · exact .same rfl (.refl s)
        · obtain ⟨offs, hoffs, he⟩ := freeGroupStruct_eq (s := s) group
          refine .free rfl (offs ++ [group.off]) ?_ he
          intro off ho
          rcases List.mem_append.1 ho with ho | ho
          · obtain ⟨m, hm, hmo, hv, hsel⟩ := hoffs off ho
            refine .inr ⟨m, hm, hmo, hv, ?_⟩
            simpa [GroupAct.frees, hgroup, hsel, hlock] using href
          · obtain rfl := List.mem_singleton.1 ho
            exact .inl (List.mem_map_of_mem (findByName_mem hgroup).1)

lemma freeMembers_change : GroupChange s .freeMembers none s.freeMembers := by
  suffices H : ∃ offs, (∀ off ∈ offs, ∃ m ∈ s.members, m.off = off ∧ m.hdr.valid = true) ∧
      s.freeMembers = s.freeAll offs by
    obtain ⟨offs, hoffs, he⟩ := H
    refine .free rfl offs (fun off ho => .inr ?_) he
    obtain ⟨m, hm, hmo, hv⟩ := hoffs off ho
    exact ⟨m, hm, hmo, hv, rfl⟩
  rw [GroupHal.freeMembers]
  refine halgForeach_rule (P := fun t => ∃ offs, (∀ off ∈ offs, ∃ m ∈ s.members, m.off = off ∧
    m.hdr.valid = true) ∧ t = s.freeAll offs) ?_ ⟨[], by simp, rfl⟩
  rintro t m ⟨offs, hoffs, rfl⟩ hm hv -
  refine ⟨offs ++ [m.off], ?_, (freeAll_append offs [m.off]).symm⟩
  intro off ho
  rcases List.mem_append.1 ho with ho | ho
  · exact hoffs off ho
  · obtain rfl := List.mem_singleton.1 ho
    exact ⟨m, mem_freeAll_members hm hv, rfl, hv⟩

lemma freeGroups_change (hk : (s.headers.map Prod.fst).Nodup) :
    GroupChange s .freeGroups none s.freeGroups := by
  suffices H : ∃ offs, (∀ off ∈ offs, off ∈ s.groups.map Obj.off ∨
      ∃ m ∈ s.members, m.off = off ∧ m.hdr.valid = true ∧ GroupAct.freeGroups.frees s m = true) ∧
      s.freeGroups = s.freeAll offs by
    obtain ⟨offs, hoffs, he⟩ := H
    exact .free rfl offs hoffs he
  rw [GroupHal.freeGroups]
  refine halgForeach_rule (P := fun t => ∃ offs, (∀ off ∈ offs, off ∈ s.groups.map Obj.off ∨
      ∃ m ∈ s.members, m.off = off ∧ m.hdr.valid = true ∧ GroupAct.freeGroups.frees s m = true) ∧
      t = s.freeAll offs) ?_ ⟨[], by simp, rfl⟩
  rintro t g ⟨offs, hoffs, rfl⟩ hg hv -
  have hkt : ((s.freeAll offs).groups.map Obj.off).Nodup :=
    (keysApart ((keys_freeAll offs).symm ▸ hk)).groups
  have hgs : g ∈ s.groups := mem_freeAll_groups hg hv
  obtain ⟨offs', hoffs', he⟩ := freeGroupStruct_eq (s := s.freeAll offs) g
  refine ⟨offs ++ (offs' ++ [g.off]), ?_, ?_⟩
  · intro off ho
    rcases List.mem_append.1 ho with ho | ho
    · exact hoffs off ho
    · rcases List.mem_append.1 ho with ho | ho
      · obtain ⟨m, hm, hmo, hmv, hsel⟩ := hoffs' off ho
        refine .inr ⟨m, mem_freeAll_members hm hmv, hmo, hmv, ?_⟩
        exact List.any_eq_true.2 ⟨g, hgs, by simp [hv, hsel]⟩
      · obtain rfl := List.mem_singleton.1 ho
        exact .inl (List.mem_map_of_mem hgs)
  · rw [GroupHal.freeGroupAt, (at?_eq_some hkt).2 ⟨hg, rfl⟩, freeAll_append, ← he]

/-- A call changes the state in one of these ways. -/
theorem groupCall_change (hk : (s.headers.map Prod.fst).Nodup) (a : GroupAct) :
    GroupChange s a (groupCall s a).1 (groupCall s a).2 := by
  cases a with
  | signalNew mem name type => exact signalNew_change mem name type
  | signalDelete name => exact signalDelete_change name
  | groupNew mem name arg1 arg2 => exact halgGroupNew_change mem name arg1 arg2
  | groupDelete name => exact halgGroupDelete_change name
  | refGroup name =>
    rw [groupCall, GroupHal.halRefGroup]
    split
    · exact .same rfl (.refl s)
    · next group hg => exact .refGroup name group rfl rfl hg rfl
  | unrefGroup name =>
    rw [groupCall, GroupHal.halUnrefGroup]
    split
    · exact .same rfl (.refl s)
    · next group hg => exact .unrefGroup name group rfl rfl hg rfl
  | memberNew mem group member arg1 epsIndex =>
    exact halgMemberNew_change mem group member arg1 epsIndex
  | memberDelete group member => exact halgMemberDelete_change group member
  | freeGroups => exact freeGroups_change hk
  | freeMembers => exact freeMembers_change
  | sweep => exact .sweep rfl rfl

/-! ### Members refer to valid signals -/

/-- Every valid member refers to the valid signal of its name. -/
structure MembersOk (s : GroupHal) : Prop where
  keys : (s.headers.map Prod.fst).Nodup
  sigNames : NamesUnique s.sigs
  memberNames : NamesUnique s.members
  linked : ∀ m ∈ s.members, m.hdr.valid = true →
    ∃ g ∈ s.sigs, g.hdr.valid = true ∧ g.off = m.body.sigPtr ∧ g.hdr.name = m.hdr.name

/-- If the signal at `off` is not referenced, no member refers to it. -/
def SafeAt (s : GroupHal) (off : ℕ) : Prop :=
  ∀ g ∈ s.sigs, g.hdr.valid = true → g.off = off → g.hdr.refcnt = 0 →
    ∀ m ∈ s.members, m.hdr.valid = true → m.body.sigPtr ≠ off

/-- A change of headers that keeps validity and name keeps what identifies the objects. -/
lemma tags_mapHdr {l : List (Obj α)} {f : Halhdr → Halhdr} (off : ℕ)
    (hf : ∀ hh, (f hh).valid = hh.valid ∧ (f hh).name = hh.name) :
    (modify Obj.off off (Obj.mapHdr f) l).map (fun o => (o.tag, o.body))
      = l.map fun o => (o.tag, o.body) := by
  simp only [Store.modify, List.map_map]
  refine List.map_congr_left fun o _ => ?_
  by_cases hk : o.off = off <;> simp [hk, Obj.mapHdr, Obj.tag, hf]

lemma tags_of_headersOf {l l' : List (Obj α)} (h : headersOf l' = headersOf l) :
    l'.map Obj.tag = l.map Obj.tag := by
  have ht : ∀ l : List (Obj α), l.map Obj.tag
      = (headersOf l).map fun p => (p.1, p.2.valid, p.2.name) := by
    intro l
    rw [headersOf, List.map_map]
    rfl
  rw [ht, ht, h]

lemma tags_of_bodies {l l' : List (Obj α)}
    (h : l'.map (fun o => (o.tag, o.body)) = l.map fun o => (o.tag, o.body)) :
    l'.map Obj.tag = l.map Obj.tag := by
  have ht := congrArg (List.map Prod.fst) h
  rwa [List.map_map, List.map_map] at ht

namespace MembersOk

lemma apart (h : MembersOk s) : KeysApart s := keysApart h.keys

/-- The invariant depends on the offsets, the names and the pointers of the members only. -/
lemma congr (h : MembersOk s) (hk : s'.headers.map Prod.fst = s.headers.map Prod.fst)
    (hs : s'.sigs.map Obj.tag = s.sigs.map Obj.tag)
    (hm : s'.members.map (fun m => (m.tag, m.body)) = s.members.map fun m => (m.tag, m.body)) :
    MembersOk s' := by
  have hk' : (s'.headers.map Prod.fst).Nodup := hk ▸ h.keys
  refine ⟨hk', h.sigNames.of_tags (keysApart hk').sigs hs,
    h.memberNames.of_tags (keysApart hk').members (tags_of_bodies hm), ?_⟩
  intro m' hm' hv'
  have hmem : (m'.tag, m'.body) ∈ s.members.map fun m => (m.tag, m.body) :=
    hm ▸ List.mem_map_of_mem hm'
  obtain ⟨m, hmm, he⟩ := List.mem_map.1 hmem
  simp only [Obj.tag, Prod.mk.injEq] at he
  obtain ⟨⟨-, hv, hn⟩, hb⟩ := he
  obtain ⟨g, hg, hgv, hgo, hgn⟩ := h.linked m hmm (hv.trans hv')
  obtain ⟨g', hg', hgo', hgv', hgn'⟩ := exists_of_tags hs.symm hg
  exact ⟨g', hg', hgv'.trans hgv, hgo'.trans (hgo.trans (by rw [hb])), by rw [hgn', hgn, hn]⟩

lemma hoIncref (h : MembersOk s) (off : ℕ) : MembersOk (s.hoIncref off) :=
  h.congr (keys_hoIncref off) (tags_of_bodies (tags_mapHdr off fun _ => ⟨rfl, rfl⟩))
    (tags_mapHdr off fun _ => ⟨rfl, rfl⟩)

lemma hoDecref (h : MembersOk s) (off : ℕ) : MembersOk (s.hoDecref off) :=
  h.congr (keys_hoDecref off) (tags_of_bodies (tags_mapHdr off fun _ => ⟨rfl, rfl⟩))
    (tags_mapHdr off fun _ => ⟨rfl, rfl⟩)

lemma same (h : MembersOk s) (hs : SameGroups s s') : MembersOk s' :=
  h.congr (by rw [hs.headers]) (tags_of_headersOf hs.objs.sigs) (by rw [hs.members])

/-- Freeing an object to which no member refers. -/
lemma freeObject (h : MembersOk s) {off : ℕ} (hsafe : SafeAt s off) :
    MembersOk (s.freeObject off) := by
  refine ⟨(keys_freeObject off).symm ▸ h.keys, h.sigNames.subset fun _ => mem_of_mem_free,
    h.memberNames.subset fun _ => mem_of_mem_free, ?_⟩
  intro m hm hv
  have hm' : m ∈ s.members := mem_of_mem_free hm hv
  obtain ⟨g, hg, hgv, hgo, hgn⟩ := h.linked m hm' hv
  refine ⟨g, mem_free_of hg fun hoff hr => ?_, hgv, hgo, hgn⟩
  exact hsafe g hg hgv hoff hr m hm' hv (hgo ▸ hoff)

/-- Freeing an object that is no signal. -/
lemma freeObject_of_ne (h : MembersOk s) {off : ℕ} (hoff : off ∉ s.sigs.map Obj.off) :
    MembersOk (s.freeObject off) :=
  h.freeObject fun _ hg _ hgo => absurd (hgo ▸ List.mem_map_of_mem hg) hoff

lemma halSweep (h : MembersOk s) : MembersOk s.halSweep := by
  refine ⟨?_, h.sigNames.subset fun o ho _ => (mem_sweep.1 ho).1,
    h.memberNames.subset fun o ho _ => (mem_sweep.1 ho).1, ?_⟩
  · rw [GroupHal.headers_halSweep]
    exact h.keys.sublist (List.filter_sublist.map Prod.fst)
  · intro m hm hv
    obtain ⟨g, hg, hgv, hgo, hgn⟩ := h.linked m (mem_sweep.1 hm).1 hv
    exact ⟨g, mem_sweep.2 ⟨hg, hgv⟩, hgv, hgo, hgn⟩

lemma addSig (h : MembersOk s) {new : Obj Sig} (hoff : new.off ∉ s.headers.map Prod.fst)
    (hn : findByName new.hdr.name s.sigs = none) :
    MembersOk { s with toHal := { s.toHal with sigs := addObject new s.sigs } } := by
  refine ⟨keys_insert (headers_addSig new) h.keys hoff, h.sigNames.addObject hn, h.memberNames, ?_⟩
  intro m hm hv
  obtain ⟨g, hg, hrest⟩ := h.linked m hm hv
  exact ⟨g, mem_addObject.2 (.inr hg), hrest⟩

lemma addGroup (h : MembersOk s) {new : Obj Group} (hoff : new.off ∉ s.headers.map Prod.fst) :
    MembersOk { s with groups := addObject new s.groups } :=
  ⟨keys_insert (headers_addGroup new) h.keys hoff, h.sigNames, h.memberNames, h.linked⟩

lemma addVtable (h : MembersOk s) {new : Obj Vtable} (hoff : new.off ∉ s.headers.map Prod.fst) :
    MembersOk { s with vtables := addObject new s.vtables } :=
  ⟨keys_insert (headers_addVtable new) h.keys hoff, h.sigNames, h.memberNames, h.linked⟩

lemma addMember (h : MembersOk s) {new : Obj Member} {sig : Obj Sig}
    (hoff : new.off ∉ s.headers.map Prod.fst) (hsig : sig ∈ s.sigs) (hv : sig.hdr.valid = true)
    (hptr : new.body.sigPtr = sig.off) (hname : sig.hdr.name = new.hdr.name)
    (hn : findByName new.hdr.name s.members = none) :
    MembersOk { s with members := addObject new s.members } := by
  refine ⟨keys_insert (headers_addMember new) h.keys hoff, h.sigNames,
    h.memberNames.addObject hn, ?_⟩
  intro m hm hmv
  rcases mem_addObject.1 hm with rfl | hm
  · exact ⟨sig, hsig, hv, hptr.symm, hname⟩
  · exact h.linked m hm hmv

/-- The signal a member refers to is the one that has its name. -/
lemma find_sig (h : MembersOk s) {name : String} {m : Obj Member} {g : Obj Sig}
    (hm : findByName name s.members = some m) (hg : findByName name s.sigs = some g) :
    g.off = m.body.sigPtr := by
  obtain ⟨hmm, hmv⟩ := findByName_mem hm
  obtain ⟨hgm, hgv⟩ := findByName_mem hg
  obtain ⟨g', hg', hgv', hgo', hgn'⟩ := h.linked m hmm hmv
  have heq : g = g' := h.sigNames g hgm g' hg' hgv hgv' (by
    rw [findByName_name hg, hgn', findByName_name hm])
  rw [heq, hgo']

/-- Taking a reference to a signal leaves the members alone. -/
lemma members_hoIncref (h : MembersOk s) {off : ℕ} (ho : off ∈ s.sigs.map Obj.off) :
    (s.hoIncref off).members = s.members :=
  modify_eq_self (h.apart.sig off ho).2.2.2.2.2.2.1

/-- Giving one back does, too. -/
lemma members_hoDecref (h : MembersOk s) {off : ℕ} (ho : off ∈ s.sigs.map Obj.off) :
    (s.hoDecref off).members = s.members :=
  modify_eq_self (h.apart.sig off ho).2.2.2.2.2.2.1

lemma freeAll (h : MembersOk s) {offs : List ℕ} (hsafe : ∀ off ∈ offs, SafeAt s off) :
    MembersOk (s.freeAll offs) := by
  induction offs generalizing s with
  | nil => exact h
  | cons off offs ih =>
    refine ih (h.freeObject (hsafe off (.head _))) fun off' ho' => ?_
    intro g hg hgv hgo hr m hm hv
    exact hsafe off' (.tail _ ho') g (mem_of_mem_free hg hgv) hgv hgo hr m
      (mem_of_mem_free hm hv) hv

lemma member_not_sig (h : MembersOk s) {m : Obj Member} (hm : m ∈ s.members) :
    m.off ∉ s.sigs.map Obj.off :=
  fun ho => (h.apart.sig m.off ho).2.2.2.2.2.2.1 (List.mem_map_of_mem hm)

lemma group_not_sig (h : MembersOk s) {off : ℕ} (hg : off ∈ s.groups.map Obj.off) :
    off ∉ s.sigs.map Obj.off :=
  fun ho => (h.apart.sig off ho).2.2.2.2.2.1 hg

/-- The new member of `halg_member_new`, and the reference it holds. -/
lemma newMember (h : MembersOk s) {new : Obj Member} {sig : Obj Sig}
    (hoff : new.off ∉ s.headers.map Prod.fst)
    (hsig : findByName new.hdr.name s.sigs = some sig) (hptr : new.body.sigPtr = sig.off)
    (hn : findByName new.hdr.name s.members = none) :
    MembersOk
      { s.hoIncref sig.off with members := addObject new (s.hoIncref sig.off).members } := by
  obtain ⟨hs, hv⟩ := findByName_mem hsig
  have hmem : (s.hoIncref sig.off).members = s.members :=
    h.members_hoIncref (List.mem_map_of_mem hs)
  have hs' : sig.mapHdr Halhdr.incrRefcnt ∈ (s.hoIncref sig.off).sigs := mem_modify_self hs rfl
  have hname : sig.hdr.name = new.hdr.name := findByName_name hsig
  exact (h.hoIncref sig.off).addMember (by rwa [keys_hoIncref]) hs' hv hptr hname (hmem ▸ hn)

/-- Every call keeps the invariant, as long as no signal is freed while a member refers
to it. -/
theorem change {a : GroupAct} (h : MembersOk s) (hf : s.freshObj a.mem = true)
    (hsafe : ∀ off, SafeAt s off) {rc : Option Errno} (hc : GroupChange s a rc s') :
    MembersOk s' := by
  cases hc with
  | same _ hs => exact h.same hs
  | newSig _ m new hm hoff _ _ hn he =>
    exact he ▸ h.addSig (GroupHal.not_mem_of_freshObj hf hm hoff) hn
  | newGroup _ m new hm hoff _ he => exact he ▸ h.addGroup (GroupHal.not_mem_of_freshObj hf hm hoff)
  | newMember m new sig _ _ _ ha _ hoff _ hsig hptr hn he =>
    exact he ▸ h.newMember (GroupHal.not_mem_of_freshObj hf (by rw [ha]; rfl) hoff) hsig hptr hn
  | dropMember _ name mptr sig _ _ hmptr hsig he =>
    refine he ▸ (h.hoDecref sig.off).freeObject_of_ne ?_
    have hkeys : (s.hoDecref sig.off).sigs.map Obj.off = s.sigs.map Obj.off :=
      keys_modify fun _ => rfl
    rw [hkeys]
    exact h.member_not_sig (findByName_mem hmptr).1
  | freeSig _ t sig ht hsig he =>
    have htok : MembersOk t := h.same ht
    have hts : headersOf t.sigs = headersOf s.sigs := ht.objs.sigs
    have ho : sig.off ∈ t.sigs.map Obj.off := by
      have hmem : (sig.off, sig.hdr) ∈ headersOf t.sigs := hts ▸ mem_headersOf hsig
      obtain ⟨g, hg, hge⟩ := List.mem_map.1 hmem
      exact List.mem_map.2 ⟨g, hg, (Prod.mk.inj hge).1⟩
    rw [he, freeSig_eq htok.keys ho]
    refine htok.freeObject ?_
    intro g hg hgv hgo hr m hm
    have hmem : (g.off, g.hdr) ∈ headersOf s.sigs := hts ▸ mem_headersOf hg
    obtain ⟨g', hg', hge⟩ := List.mem_map.1 hmem
    obtain ⟨hgo', hgh⟩ := Prod.mk.inj hge
    exact hsafe sig.off g' hg' (hgh ▸ hgv) (hgo'.trans hgo) (hgh ▸ hr) m (ht.members ▸ hm)
  | free _ offs hoffs he => exact he ▸ h.freeAll fun off _ => hsafe off
  | refGroup _ group _ _ _ he => exact he ▸ h.hoIncref group.off
  | unrefGroup _ group _ _ _ he => exact he ▸ h.hoDecref group.off
  | sweep _ he => exact he ▸ h.halSweep

end MembersOk

end MachinekitHal
