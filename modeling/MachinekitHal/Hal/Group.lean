import MachinekitHal.Hal.Component
import MachinekitHal.Hal.Linkage

/-!
`hal_group.c`: signal groups and their members.

A member refers to the signal of its name and holds a reference to it, so that the
signal is not deleted.

* `GroupHal`: the HAL with groups, members and vtables. `headers` is the object list as
  the functions that work on any object see it; `hoIncref`, `hoDecref`, `freeObject` and
  `halSweep` are these functions.
* `halgGroupNew`, `halgGroupDelete`, `halRefGroup`, `halUnrefGroup`, `halgMemberNew`,
  `halgMemberDelete`: the operations; `freeGroupStruct` deletes a group and what it owns.
-/

namespace MachinekitHal

open Store

/-- `hal_group_t`. -/
structure Group where
  userarg1 : BitVec 32
  userarg2 : BitVec 32
  deriving DecidableEq

/-- `hal_member_t`. `sigPtr` is the offset of the signal. -/
structure Member where
  sigPtr : ℕ
  userarg1 : BitVec 32
  epsIndex : BitVec 8
  deriving DecidableEq

/-- `hal_vtable_t`. `context` is `0` for the realtime side, else a process id. -/
structure Vtable where
  vtable : ℕ
  version : ℤ
  context : ℤ
  deriving DecidableEq

/-- `hal_data_t` with the groups, the members and the vtables. -/
structure GroupHal extends Hal where
  groups : List (Obj Group)
  members : List (Obj Member)
  vtables : List (Obj Vtable)

variable {α : Type}

/-- Change the header of an object. -/
def Obj.mapHdr (f : Halhdr → Halhdr) (o : Obj α) : Obj α := { o with hdr := f o.hdr }

/-- `hh_incr_refcnt`. -/
def Halhdr.incrRefcnt (hh : Halhdr) : Halhdr := { hh with refcnt := hh.refcnt + 1 }

/-- `hh_decr_refcnt`. -/
def Halhdr.decrRefcnt (hh : Halhdr) : Halhdr := { hh with refcnt := hh.refcnt - 1 }

/-- The objects of one type as offsets and headers. -/
def headersOf (l : List (Obj α)) : List (ℕ × Halhdr) := l.map fun o => (o.off, o.hdr)

namespace GroupHal

variable (s : GroupHal)

/-- The objects of all types as offsets and headers. -/
def headers : List (ℕ × Halhdr) :=
  headersOf s.comps ++ headersOf s.insts ++ headersOf s.pins ++ headersOf s.sigs
    ++ headersOf s.functs ++ headersOf s.threads ++ headersOf s.groups ++ headersOf s.members
    ++ headersOf s.vtables

/-- What the descriptor allocator promises. -/
def freshObj (mem : Option Alloc) : Bool :=
  mem.all fun m => m.off ≠ 0 ∧ m.off ∉ s.headers.map Prod.fst

variable {s} in
/-- A new descriptor is at no offset in use. -/
lemma not_mem_of_freshObj {mem : Option Alloc} {m : Alloc} {off : ℕ}
    (hf : s.freshObj mem = true) (hm : mem = some m) (hoff : off = m.off) :
    off ∉ s.headers.map Prod.fst := by
  simp only [hm, freshObj, Option.all_some, decide_eq_true_eq] at hf
  exact hoff ▸ hf.2

/-- Change the list of objects of every type. -/
def mapObjs (F : ∀ α : Type, List (Obj α) → List (Obj α)) : GroupHal :=
  { s with
    comps := F _ s.comps, insts := F _ s.insts, pins := F _ s.pins, sigs := F _ s.sigs
    functs := F _ s.functs, threads := F _ s.threads, groups := F _ s.groups
    members := F _ s.members, vtables := F _ s.vtables }

/-- `ho_incref` on the object at `off`. -/
def hoIncref (off : ℕ) : GroupHal :=
  s.mapObjs fun _ => modify Obj.off off (Obj.mapHdr Halhdr.incrRefcnt)

/-- `ho_decref` on the object at `off`. -/
def hoDecref (off : ℕ) : GroupHal :=
  s.mapObjs fun _ => modify Obj.off off (Obj.mapHdr Halhdr.decrRefcnt)

/-- `halg_free_object` on the object at `off`. -/
def freeObject (off : ℕ) : GroupHal := s.mapObjs fun _ => halgFreeObject off

/-- `hal_sweep`. -/
def halSweep : GroupHal := s.mapObjs fun _ => sweep

/-- `free_group_struct`: delete all owned members first. -/
def freeGroupStruct (group : Obj Group) : GroupHal :=
  (halgForeach GroupHal.members (ownedBy group.hdr.id.toInt) (fun off s => s.freeObject off)
    s).freeObject group.off

/-- `free_group_struct` on the group at `off`. -/
def freeGroupAt (off : ℕ) : GroupHal :=
  match at? Obj.off off s.groups with
  | none => s
  | some group => s.freeGroupStruct group

/-- `yield_free` on every group. -/
def freeGroups : GroupHal :=
  halgForeach GroupHal.groups (fun _ => true) (fun off s => s.freeGroupAt off) s

/-- `yield_free` on every member. -/
def freeMembers : GroupHal :=
  halgForeach GroupHal.members (fun _ => true) (fun off s => s.freeObject off) s

/-- `halg_group_new`. -/
def halgGroupNew (mem : Option Alloc) (name : String) (arg1 arg2 : BitVec 32) :
    Option Errno × GroupHal :=
  if halNameLen < name.length then (some .EINVAL, s) else
  if s.locked halLockLoad then (some .EPERM, s) else
  if (findByName name s.groups).isSome then (some .EINVAL, s) else
  match halgCreateObject mem 0 name { userarg1 := arg1, userarg2 := arg2 : Group } with
  | none => (some .ENOMEM, s)
  | some new => (none, { s with groups := addObject new s.groups })

/-- `halg_group_delete`. -/
def halgGroupDelete (name : String) : Option Errno × GroupHal :=
  if s.locked halLockConfig then (some .EPERM, s) else
  match findByName name s.groups with
  | none => (some .ENOENT, s)
  | some group =>
    if group.hdr.refcnt ≠ 0 then (some .EBUSY, s)
    else (none, s.freeGroupStruct group)

/-- `hal_ref_group`. -/
def halRefGroup (name : String) : Option Errno × GroupHal :=
  match findByName name s.groups with
  | none => (some .ENOENT, s)
  | some group => (none, s.hoIncref group.off)

/-- `hal_unref_group`. -/
def halUnrefGroup (name : String) : Option Errno × GroupHal :=
  match findByName name s.groups with
  | none => (some .ENOENT, s)
  | some group => (none, s.hoDecref group.off)

/-- `halg_member_new`. -/
def halgMemberNew (mem : Option Alloc) (group member : String) (arg1 : BitVec 32)
    (epsIndex : ℤ) : Option Errno × GroupHal :=
  if s.locked halLockLoad then (some .EPERM, s) else
  if halNameLen < group.length then (some .EINVAL, s) else
  if halNameLen < member.length then (some .EINVAL, s) else
  match findByName group s.groups with
  | none => (some .ENOENT, s)
  | some grp =>
  -- fail if group referenced
  if grp.hdr.refcnt ≠ 0 then (some .EBUSY, s) else
  match findByName member s.sigs with
  | none => (some .ENOENT, s)
  | some sig =>
  -- detect duplicate insertion
  if (findByName member s.members).isSome then (some .EBUSY, s) else
  match halgCreateObject mem grp.hdr.id.toInt member
      { sigPtr := sig.off, userarg1 := arg1, epsIndex := BitVec.ofInt 8 epsIndex : Member } with
  | none => (some .ENOMEM, s)
  | some new =>
    let s := s.hoIncref sig.off  -- prevent deletion
    (none, { s with members := addObject new s.members })

/-- `halg_member_delete`. Whether the member belongs to the group is not checked. -/
def halgMemberDelete (group member : String) : Option Errno × GroupHal :=
  if s.locked halLockLoad then (some .EPERM, s) else
  if halNameLen < group.length then (some .EINVAL, s) else
  if halNameLen < member.length then (some .EINVAL, s) else
  match findByName group s.groups with
  | none => (some .EINVAL, s)
  | some grp =>
  -- fail if group referenced
  if grp.hdr.refcnt ≠ 0 then (some .EBUSY, s) else
  match findByName member s.members with
  | none => (some .ENOENT, s)
  | some mptr =>
  match findByName member s.sigs with
  | none => (some .ENOENT, s)
  -- drop refcnt on signal, permit deletion if 0
  | some sig => (none, (s.hoDecref sig.off).freeObject mptr.off)

/-- `halg_signal_new`. -/
def signalNew (mem : Option Alloc) (name : String) (type : HalType) : Option Errno × GroupHal :=
  let r := s.toHal.halgSignalNew mem name type
  (r.1, { s with toHal := r.2 })

/-- `halg_signal_delete`. -/
def signalDelete (name : String) : Option Errno × GroupHal :=
  let r := s.toHal.halgSignalDelete name
  (r.1, { s with toHal := r.2 })

end GroupHal

/-- A call of the group functions, or of a function on the signals they refer to. -/
inductive GroupAct where
  | signalNew (mem : Option Alloc) (name : String) (type : HalType)
  | signalDelete (name : String)
  | groupNew (mem : Option Alloc) (name : String) (arg1 arg2 : BitVec 32)
  | groupDelete (name : String)
  | refGroup (name : String)
  | unrefGroup (name : String)
  | memberNew (mem : Option Alloc) (group member : String) (arg1 : BitVec 32) (epsIndex : ℤ)
  | memberDelete (group member : String)
  | freeGroups
  | freeMembers
  | sweep

/-- The return value of a call, and the state after it. -/
def groupCall (s : GroupHal) : GroupAct → Option Errno × GroupHal
  | .signalNew mem name type => s.signalNew mem name type
  | .signalDelete name => s.signalDelete name
  | .groupNew mem name arg1 arg2 => s.halgGroupNew mem name arg1 arg2
  | .groupDelete name => s.halgGroupDelete name
  | .refGroup name => s.halRefGroup name
  | .unrefGroup name => s.halUnrefGroup name
  | .memberNew mem group member arg1 epsIndex => s.halgMemberNew mem group member arg1 epsIndex
  | .memberDelete group member => s.halgMemberDelete group member
  | .freeGroups => (none, s.freeGroups)
  | .freeMembers => (none, s.freeMembers)
  | .sweep => (none, s.halSweep)

/-- The memory a call allocates. -/
def GroupAct.mem : GroupAct → Option Alloc
  | .signalNew mem _ _ | .groupNew mem _ _ _ | .memberNew mem _ _ _ _ => mem
  | _ => none

/-- One call. -/
def groupStep (s : GroupHal) (a : GroupAct) : Option GroupHal :=
  if s.freshObj a.mem then some (groupCall s a).2 else none

/-! ### Headers -/

section Headers

variable {s : GroupHal} {l : List (Obj α)}

/-- `halg_free_object` on a header. -/
def Halhdr.release (hh : Halhdr) : Halhdr := if hh.refcnt ≠ 0 then hh else hh.clear

lemma headersOf_mapHdr (off : ℕ) (f : Halhdr → Halhdr) :
    headersOf (modify Obj.off off (Obj.mapHdr f) l)
      = modify Prod.fst off (fun p => (p.1, f p.2)) (headersOf l) := by
  simp only [headersOf, Store.modify, List.map_map]
  refine List.map_congr_left fun o _ => ?_
  by_cases hk : o.off = off <;> simp [hk, Obj.mapHdr]

lemma headersOf_free (off : ℕ) :
    headersOf (halgFreeObject off l)
      = modify Prod.fst off (fun p => (p.1, p.2.release)) (headersOf l) := by
  simp only [headersOf, halgFreeObject, Store.modify, List.map_map]
  refine List.map_congr_left fun o _ => ?_
  by_cases hk : o.off = off
  · by_cases hr : o.hdr.refcnt ≠ 0
    · simp only [Function.comp_apply, if_pos hk, Obj.release, Halhdr.release, if_pos hr]
    · simp only [Function.comp_apply, if_pos hk, Obj.release, Halhdr.release, if_neg hr]
  · simp [hk]

lemma headersOf_sweep : headersOf (sweep l) = (headersOf l).filter fun p => p.2.valid := by
  rw [headersOf, headersOf, sweep, List.filter_map]
  rfl

/-- Insertion adds the header of the new object. -/
lemma headersOf_addObject (new : Obj α) :
    (headersOf (addObject new l)).Perm ((new.off, new.hdr) :: headersOf l) :=
  (addObject_perm new l).map _

/-- A change made to every list is a change of the headers. -/
lemma GroupHal.headers_mapObjs {F : ∀ α : Type, List (Obj α) → List (Obj α)}
    {G : List (ℕ × Halhdr) → List (ℕ × Halhdr)}
    (hF : ∀ (α : Type) (l : List (Obj α)), headersOf (F α l) = G (headersOf l))
    (hG : ∀ l l', G (l ++ l') = G l ++ G l') : (s.mapObjs F).headers = G s.headers := by
  simp only [headers, mapObjs, hF, hG]

@[simp] lemma GroupHal.headers_hoIncref (off : ℕ) : (s.hoIncref off).headers
    = modify Prod.fst off (fun p => (p.1, p.2.incrRefcnt)) s.headers :=
  headers_mapObjs (fun _ _ => headersOf_mapHdr off _) fun _ _ => List.map_append

@[simp] lemma GroupHal.headers_hoDecref (off : ℕ) : (s.hoDecref off).headers
    = modify Prod.fst off (fun p => (p.1, p.2.decrRefcnt)) s.headers :=
  headers_mapObjs (fun _ _ => headersOf_mapHdr off _) fun _ _ => List.map_append

@[simp] lemma GroupHal.headers_freeObject (off : ℕ) : (s.freeObject off).headers
    = modify Prod.fst off (fun p => (p.1, p.2.release)) s.headers :=
  headers_mapObjs (fun _ _ => headersOf_free off) fun _ _ => List.map_append

@[simp] lemma GroupHal.headers_halSweep :
    s.halSweep.headers = s.headers.filter fun p => p.2.valid :=
  headers_mapObjs (fun _ _ => headersOf_sweep) fun _ _ => List.filter_append _ _

lemma mem_headersOf {o : Obj α} (ho : o ∈ l) : (o.off, o.hdr) ∈ headersOf l :=
  List.mem_map_of_mem ho

lemma GroupHal.mem_headers_sigs {g : Obj Sig} (hg : g ∈ s.sigs) : (g.off, g.hdr) ∈ s.headers := by
  simp [headers, mem_headersOf hg]

lemma GroupHal.mem_headers_groups {g : Obj Group} (hg : g ∈ s.groups) :
    (g.off, g.hdr) ∈ s.headers := by
  simp [headers, mem_headersOf hg]

lemma GroupHal.mem_headers_members {m : Obj Member} (hm : m ∈ s.members) :
    (m.off, m.hdr) ∈ s.headers := by
  simp [headers, mem_headersOf hm]

lemma GroupHal.mem_headers_vtables {v : Obj Vtable} (hv : v ∈ s.vtables) :
    (v.off, v.hdr) ∈ s.headers := by
  simp [headers, mem_headersOf hv]

end Headers

end MachinekitHal
