import MachinekitHal.Lib.Runs
import MachinekitHal.Hal.ObjectKinds

/-!
What one call can do to the object list.

* `mem_addTyped`: insertion, seen as a set.
* `Fewer`: nothing new appears; every deletion, sweep and failing creation is of this kind.
* `Admitted`: what the checks of the creation functions establish before the object is
  created, with one definition for the first treatment of the name (`admitName`).
* `ObjectChange`, `objectCall_change`: a call leaves fewer objects, or adds the one it was
  admitted for.
-/

namespace MachinekitHal

open Store ObjectHal

/-! ### Insertion -/

/-- Insertion as the whole list sees it. -/
lemma addTyped_perm (new : Obj ObjDesc) (l : List (Obj ObjDesc)) :
    (addTyped new l).Perm (new :: l) := by
  induction l with
  | nil => exact List.Perm.refl _
  | cons o l ih =>
    rw [addTyped]
    split_ifs
    · exact List.Perm.refl _
    · exact (ih.cons o).trans (List.Perm.swap new o l)

lemma mem_addTyped {new o : Obj ObjDesc} {l : List (Obj ObjDesc)} :
    o ∈ addTyped new l ↔ o = new ∨ o ∈ l := by
  rw [(addTyped_perm new l).mem_iff, List.mem_cons]

/-- A new offset keeps the offsets distinct. -/
lemma nodup_addTyped {new : Obj ObjDesc} {l : List (Obj ObjDesc)}
    (hnd : (l.map Obj.off).Nodup) (hnew : new.off ∉ l.map Obj.off) :
    ((addTyped new l).map Obj.off).Nodup := by
  rw [((addTyped_perm new l).map Obj.off).nodup_iff, List.map_cons, List.nodup_cons]
  exact ⟨hnew, hnd⟩

lemma mem_typed {s : ObjectHal} {t : HalObjectType} {o : Obj ObjDesc} :
    o ∈ s.typed (some t) ↔ o ∈ s.objects ∧ o.body.type = t := by
  simp [ObjectHal.typed, ofType]

lemma mem_of_mem_typed {s : ObjectHal} {type : Option HalObjectType} {o : Obj ObjDesc}
    (h : o ∈ s.typed type) : o ∈ s.objects :=
  (List.mem_filter.1 h).1

/-! ### Deletion -/

/-- The object `o'` is `o`, the reference count apart. -/
structure SameObject (o o' : Obj ObjDesc) : Prop where
  off : o'.off = o.off
  body : o'.body = o.body
  valid : o'.hdr.valid = o.hdr.valid
  id : o'.hdr.id = o.hdr.id
  ownerId : o'.hdr.ownerId = o.hdr.ownerId
  name : o'.hdr.name = o.hdr.name

/-- Every valid object was there before, no offset is new, and the counter does not go
back. -/
structure Fewer (s s' : ObjectHal) : Prop where
  counter : s.nextHandle ≤ s'.nextHandle
  offs : (s'.objects.map Obj.off).Sublist (s.objects.map Obj.off)
  objects : ∀ o' ∈ s'.objects, o'.hdr.valid = true → ∃ o ∈ s.objects, SameObject o o'

namespace Fewer

variable {s s' s'' : ObjectHal}

lemma of_subset (hc : s.nextHandle ≤ s'.nextHandle)
    (hoffs : (s'.objects.map Obj.off).Sublist (s.objects.map Obj.off))
    (h : ∀ o ∈ s'.objects, o.hdr.valid = true → o ∈ s.objects) : Fewer s s' :=
  ⟨hc, hoffs, fun o ho hv => ⟨o, h o ho hv, rfl, rfl, rfl, rfl, rfl, rfl⟩⟩

/-- A call that leaves the list alone. -/
lemma of_objects (hc : s.nextHandle ≤ s'.nextHandle) (h : s'.objects = s.objects) : Fewer s s' :=
  of_subset hc (by rw [h]) fun _ ho _ => h ▸ ho

lemma refl (s : ObjectHal) : Fewer s s := of_objects le_rfl rfl

lemma trans (h : Fewer s s') (h' : Fewer s' s'') : Fewer s s'' := by
  refine ⟨h.counter.trans h'.counter, h'.offs.trans h.offs, fun o'' ho'' hv => ?_⟩
  obtain ⟨o', ho', hs'⟩ := h'.objects o'' ho'' hv
  obtain ⟨o, ho, hs⟩ := h.objects o' ho' (hs'.valid ▸ hv)
  exact ⟨o, ho, hs'.off.trans hs.off, hs'.body.trans hs.body, hs'.valid.trans hs.valid,
    hs'.id.trans hs.id, hs'.ownerId.trans hs.ownerId, hs'.name.trans hs.name⟩

lemma freeObject (h : Fewer s s') (off : ℕ) : Fewer s (s'.freeObject off) := by
  refine h.trans (of_subset le_rfl ?_ fun _ ho hv => mem_of_mem_free ho hv)
  rw [ObjectHal.freeObject, keys_free]

lemma freeOwned (h : Fewer s s') (type : HalObjectType) (id : ℤ) :
    Fewer s (s'.freeOwned type id) :=
  halgForeach_rule (fun _ _ ht _ _ _ => ht.freeObject _) h

lemma freeInstStruct (h : Fewer s s') (inst : Obj ObjDesc) : Fewer s (s'.freeInstStruct inst) :=
  ((((h.freeOwned _ _).freeOwned _ _).freeOwned _ _).freeOwned _ _).freeObject _

lemma freeInstAt (h : Fewer s s') (off : ℕ) : Fewer s (s'.freeInstAt off) := by
  rw [ObjectHal.freeInstAt]
  split
  · exact h.freeInstStruct _
  · exact h

lemma freeInsts (h : Fewer s s') (id : ℤ) : Fewer s (s'.freeInsts id) :=
  halgForeach_rule (fun _ _ ht _ _ _ => ht.freeInstAt _) h

lemma freeCompStruct (h : Fewer s s') (comp : Obj ObjDesc) : Fewer s (s'.freeCompStruct comp) := by
  rw [ObjectHal.freeCompStruct]
  split_ifs
  · exact h
  · exact (((((h.freeOwned _ _).freeInsts _).freeOwned _ _).freeOwned _ _).freeOwned _
      _).freeObject _

lemma freeGroupStruct (h : Fewer s s') (group : Obj ObjDesc) :
    Fewer s (s'.freeGroupStruct group) :=
  (h.freeOwned _ _).freeObject _

lemma changeRef (s : ObjectHal) (off : ℕ) (d : BitVec 7) : Fewer s (s.changeRef off d) := by
  refine ⟨le_rfl, ?_, forall_modify (fun o ho _ _ => ?_) fun o ho _ _ => ?_⟩
  · rw [ObjectHal.changeRef, keys_modify]
    exact fun _ => rfl
  · exact ⟨o, ho, rfl, rfl, rfl, rfl, rfl, rfl⟩
  · exact ⟨o, ho, rfl, rfl, rfl, rfl, rfl, rfl⟩

end Fewer

/-! ### Creation -/

/-- What happens to a name before it is used as a format: it is printed to a buffer, taken
as it is, or taken if it is short enough. -/
def admitName (type : HalObjectType) (asked : String) : Option String :=
  match type with
  | .pin | .param | .ring | .component => fmtAp 128 asked
  | .plug => fmtAp 127 asked
  | .inst => some asked
  | .signal | .thread | .funct | .group | .member | .vtable =>
    if halNameLen < asked.length then none else some asked

/-- The type of the object a call is to make, and the name the caller passes for it. -/
def ObjectAct.asked (s : ObjectHal) : ObjectAct → Option (HalObjectType × String)
  | .xinit _ name => some (.component, name)
  | .pinNew _ _ name => some (.pin, name)
  | .paramNew _ _ name => some (.param, name)
  | .exportFunct _ _ name => some (.funct, name)
  | .signalNew _ name => some (.signal, name)
  | .createThread _ name => some (.thread, name)
  | .groupNew _ name => some (.group, name)
  | .memberNew _ _ member => some (.member, member)
  | .exportVtable _ name _ _ => some (.vtable, name)
  | .instCreate _ name _ => some (.inst, name)
  | .ringNew _ name => some (.ring, name)
  | .plugNew _ args => (s.plugName args).map fun p => (.plug, p.2)
  | _ => none

/-- What the checks of a creation function establish. Only params may have the name of a
valid object of their type. -/
structure Admitted (s : ObjectHal) (a : ObjectAct) (e : CreateEnv) (r : Request) : Prop where
  env : a.env = some e
  asked : a.asked s = some (r.type, r.asked)
  name : admitName r.type r.asked = some r.fmt
  owner : ∀ k, r.owner = some k → ∃ p ∈ s.objects, p.hdr.valid = true ∧ p.body.handle = k ∧
    p.hdr.id = Int16.ofInt r.ownerId
  unique : r.type ≠ .param → ∀ o ∈ s.objects, o.hdr.valid = true → o.body.type = r.type →
    o.hdr.name = r.fmt → r.type = .vtable ∧ o.body.version ≠ r.version

/-- The object made for a request: its id is the low part of a handle, its name what the
format prints. -/
structure Created (s : ObjectHal) (e : CreateEnv) (r : Request) (new : Obj ObjDesc) : Prop where
  valid : new.hdr.valid = true
  id : new.hdr.id = Int16.ofInt (s.nextHandle + 1 : ℕ)
  ownerId : new.hdr.ownerId = Int16.ofInt r.ownerId
  name : ∃ printed, printFormat e.undef r.fmt = some printed ∧
    hhSetNamefv printed = some new.hdr.name
  body : new.body = { type := r.type, version := r.version, handle := s.nextHandle + 1
                      asked := r.asked, owner := r.owner }

/-- What a call can do. -/
inductive ObjectChange (s : ObjectHal) (a : ObjectAct) : Option (Obj ObjDesc) × ObjectHal → Prop
  | fewer {s' : ObjectHal} (h : Fewer s s') : ObjectChange s a (none, s')
  | created {s' : ObjectHal} (e : CreateEnv) (r : Request) (new : Obj ObjDesc)
      (hadm : Admitted s a e r) (hnew : Created s e r new) (hdesc : e.desc = some new.off)
      (hcounter : s.nextHandle < s'.nextHandle)
      (hobjs : s'.objects = addTyped new s.objects) : ObjectChange s a (some new, s')

lemma findObjectByName_none {s : ObjectHal} {t : HalObjectType} {name : String}
    (h : ¬ (s.findObjectByName (some t) name).isSome = true) :
    ∀ o ∈ s.objects, o.hdr.valid = true → o.body.type = t → o.hdr.name ≠ name := by
  rw [Bool.not_eq_true, Option.isSome_eq_false_iff, Option.isNone_iff_eq_none] at h
  exact fun o ho hv ht => findByName_none h o (mem_typed.2 ⟨ho, ht⟩) hv

lemma findObjectByName_mem {s : ObjectHal} {type : Option HalObjectType} {name : String}
    {o : Obj ObjDesc} (h : s.findObjectByName type name = some o) :
    o ∈ s.objects ∧ o.hdr.valid = true := by
  obtain ⟨hm, hv⟩ := findByName_mem h
  exact ⟨mem_of_mem_typed hm, hv⟩

lemma findObjectById_mem {s : ObjectHal} {type : Option HalObjectType} {id : ℤ}
    {o : Obj ObjDesc} (h : s.findObjectById type id = some o) :
    o ∈ s.objects ∧ o.hdr.valid = true := by
  obtain ⟨hm, hv⟩ := findById_mem h
  exact ⟨mem_of_mem_typed hm, hv⟩

/-- No vtable that is not found has the name and the version. -/
lemma findVtableByName_none {s : ObjectHal} {name : String} {version : ℤ}
    (h : ¬ (s.findVtableByName name version).isSome = true) :
    ∀ o ∈ s.objects, o.hdr.valid = true → o.body.type = .vtable → o.hdr.name = name →
      o.body.version ≠ version := by
  rw [Bool.not_eq_true, Option.isSome_eq_false_iff, Option.isNone_iff_eq_none] at h
  intro o ho hv ht hn hver
  have hno := List.find?_eq_none.1 h o (mem_typed.2 ⟨ho, ht⟩)
  simp [hv, hn, hver] at hno

/-- An owner handle is the one of the object whose id was given. -/
lemma ownerHandle_owner {s : ObjectHal} {ownerId : ℤ} {k : ℕ}
    (h : s.ownerHandle ownerId = some k) :
    ∃ p ∈ s.objects, p.hdr.valid = true ∧ p.body.handle = k ∧ p.hdr.id = Int16.ofInt ownerId := by
  rw [ownerHandle] at h
  split_ifs at h with h0
  obtain ⟨p, hp, hk⟩ := Option.map_eq_some_iff.1 h
  have hfound : ∀ {type}, s.findObjectById type ownerId = some p →
      ∃ p ∈ s.objects, p.hdr.valid = true ∧ p.body.handle = k ∧
        p.hdr.id = Int16.ofInt ownerId := by
    intro type hf
    obtain ⟨hm, hv⟩ := findObjectById_mem hf
    refine ⟨p, hm, hv, hk, ?_⟩
    rw [(findById_id hf).resolve_left h0, Int16.ofInt_toInt]
  rw [givenOwner, Option.or_eq_some_iff] at hp
  rcases hp with hp | ⟨-, hp⟩
  · exact hfound hp
  · exact hfound hp

/-- A request that its checks admitted is not met, or makes the object. -/
lemma create_change {s s₁ : ObjectHal} {a : ObjectAct} {e : CreateEnv} {r : Request}
    (hadm : Admitted s a e r) (hobjs : s₁.objects = s.objects)
    (hle : s.nextHandle ≤ s₁.nextHandle)
    (hhandle : r.compId.getD (s₁.nextHandle + 1) = s.nextHandle + 1) :
    ObjectChange s a (s₁.create e r) := by
  have hfewer : ∀ n, s.nextHandle ≤ n → Fewer s { s₁ with nextHandle := n } :=
    fun n hn => Fewer.of_objects hn hobjs
  rw [create]
  split
  case h_1 => exact .fewer (hfewer _ hle)
  case h_2 off hdesc =>
      simp only [rtapiNextHandle]
      split
      case h_1 => exact .fewer (hfewer _ (by omega))
      case h_2 printed hprinted =>
          split
          case h_1 => exact .fewer (hfewer _ (by omega))
          case h_2 new hnew =>
              split_ifs
              · exact .fewer (hfewer _ (by omega))
              · obtain ⟨m, stored, hm, hstored, rfl⟩ := halgCreateObject_some hnew
                cases hm
                refine .created e r _ hadm ⟨rfl, ?_, rfl, ⟨printed, hprinted, hstored⟩, ?_⟩ hdesc
                  (by dsimp only; omega) (by rw [hobjs])
                · dsimp only
                  rw [hhandle]
                · dsimp only
                  rw [hhandle]

/-- `halg_create_objectf` called by the function that admitted the request. -/
lemma create_admitted {s : ObjectHal} {a : ObjectAct} {e : CreateEnv} {r : Request}
    (hadm : Admitted s a e r) (hcomp : r.compId = none) : ObjectChange s a (s.create e r) :=
  create_change hadm rfl le_rfl (by rw [hcomp]; rfl)

/-! ### The functions -/

namespace ObjectHal

lemma halgXinitfv_change (s : ObjectHal) (e : CreateEnv) (name : String) :
    ObjectChange s (.xinit e name) (s.halgXinitfv e name) := by
  rw [halgXinitfv]
  split
  · exact .fewer (.refl s)
  · split
    case h_1 => exact .fewer (.refl s)
    case h_2 buf hbuf =>
        dsimp only
        split
        · exact .fewer (.of_objects (Nat.le_succ _) rfl)
        · next hdup =>
            refine create_change ⟨rfl, rfl, hbuf, nofun, fun _ o ho hv ht hn => ?_⟩
              rfl (Nat.le_succ _) rfl
            exact absurd hn (findObjectByName_none hdup o ho hv ht)

lemma halgPinNewfv_change (s : ObjectHal) (e : CreateEnv) (ownerId : ℤ) (name : String) :
    ObjectChange s (.pinNew e ownerId name) (s.halgPinNewfv e ownerId name) := by
  rw [halgPinNewfv]
  split
  · exact .fewer (.refl s)
  · split
    case h_1 => exact .fewer (.refl s)
    case h_2 buf hbuf =>
        split_ifs with hdup
        · exact .fewer (.refl s)
        · exact .fewer (.refl s)
        · refine create_admitted ⟨rfl, rfl, hbuf, fun k hk => ownerHandle_owner hk,
            fun _ o ho hv ht hn => ?_⟩ rfl
          exact absurd hn (findObjectByName_none hdup o ho hv ht)

lemma halgParamNewfv_change (s : ObjectHal) (e : CreateEnv) (ownerId : ℤ) (name : String) :
    ObjectChange s (.paramNew e ownerId name) (s.halgParamNewfv e ownerId name) := by
  rw [halgParamNewfv]
  split
  · exact .fewer (.refl s)
  · split
    case h_1 => exact .fewer (.refl s)
    case h_2 buf hbuf =>
        split_ifs
        · exact .fewer (.refl s)
        · exact create_admitted ⟨rfl, rfl, hbuf, fun k hk => ownerHandle_owner hk,
            fun h => absurd rfl h⟩ rfl

lemma halgExportXfunctfv_change (s : ObjectHal) (e : CreateEnv) (ownerId : ℤ) (name : String) :
    ObjectChange s (.exportFunct e ownerId name) (s.halgExportXfunctfv e ownerId name) := by
  rw [halgExportXfunctfv]
  split_ifs with _ hlen hdup
  · exact .fewer (.refl s)
  · exact .fewer (.refl s)
  · exact .fewer (.refl s)
  · exact .fewer (.refl s)
  · refine create_admitted ⟨rfl, rfl, if_neg hlen, fun k hk => ownerHandle_owner hk,
      fun _ o ho hv ht hn => ?_⟩ rfl
    exact absurd hn (findObjectByName_none hdup o ho hv ht)

/-- Signals, threads and groups. -/
lemma newToplevel_change (s : ObjectHal) {a : ObjectAct} {type : HalObjectType} {e : CreateEnv}
    {name : String} (henv : a.env = some e) (hasked : a.asked s = some (type, name))
    (hname : ¬ halNameLen < name.length → admitName type name = some name) :
    ObjectChange s a (s.newToplevel type e name) := by
  rw [newToplevel]
  split_ifs with _ hlen hdup
  · exact .fewer (.refl s)
  · exact .fewer (.refl s)
  · exact .fewer (.refl s)
  · refine create_admitted ⟨henv, hasked, hname hlen, nofun, fun _ o ho hv ht hn => ?_⟩ rfl
    exact absurd hn (findObjectByName_none hdup o ho hv ht)

lemma halgMemberNew_change (s : ObjectHal) (e : CreateEnv) (group member : String) :
    ObjectChange s (.memberNew e group member) (s.halgMemberNew e group member) := by
  rw [halgMemberNew]
  split
  · exact .fewer (.refl s)
  split
  · exact .fewer (.refl s)
  split
  · exact .fewer (.refl s)
  next hlen =>
  split
  case h_1 => exact .fewer (.refl s)
  case h_2 grp hgrp =>
      obtain ⟨hm, hv⟩ := findObjectByName_mem hgrp
      split_ifs with _ _ hdup
      · exact .fewer (.refl s)
      · exact .fewer (.refl s)
      · exact .fewer (.refl s)
      · refine create_admitted ⟨rfl, rfl, if_neg hlen, fun k hk => ⟨grp, hm, hv,
          Option.some.inj hk, (Int16.ofInt_toInt _).symm⟩, fun _ o ho hv ht hn => ?_⟩ rfl
        exact absurd hn (findObjectByName_none hdup o ho hv ht)

lemma halgExportVtable_change (s : ObjectHal) (e : CreateEnv) (name : String)
    (version compId : ℤ) :
    ObjectChange s (.exportVtable e name version compId)
      (s.halgExportVtable e name version compId) := by
  rw [halgExportVtable]
  split_ifs with _ hlen hdup
  · exact .fewer (.refl s)
  · exact .fewer (.refl s)
  · exact .fewer (.refl s)
  · exact create_admitted ⟨rfl, rfl, if_neg hlen, fun k hk => ownerHandle_owner hk,
      fun _ o ho hv ht hn => ⟨rfl, findVtableByName_none hdup o ho hv ht hn⟩⟩ rfl

lemma halgInstCreate_change (s : ObjectHal) (e : CreateEnv) (name : String) (compId : ℤ) :
    ObjectChange s (.instCreate e name compId) (s.halgInstCreate e name compId) := by
  rw [halgInstCreate]
  split
  · exact .fewer (.refl s)
  · split
    case h_1 => exact .fewer (.refl s)
    case h_2 comp hcomp =>
        obtain ⟨hm, hv⟩ := findObjectById_mem hcomp
        split_ifs with hdup
        · exact .fewer (.refl s)
        · refine create_admitted ⟨rfl, rfl, rfl, fun k hk => ⟨comp, hm, hv, Option.some.inj hk,
            (Int16.ofInt_toInt _).symm⟩, fun _ o ho hv ht hn => ?_⟩ rfl
          exact absurd hn (findObjectByName_none hdup o ho hv ht)

lemma halgRingNewfv_change (s : ObjectHal) (e : CreateEnv) (name : String) :
    ObjectChange s (.ringNew e name) (s.halgRingNewfv e name) := by
  rw [halgRingNewfv]
  split
  · exact .fewer (.refl s)
  · split
    case h_1 => exact .fewer (.refl s)
    case h_2 buf hbuf =>
        split
        case h_1 => exact .fewer ((Fewer.refl s).freeObject _)
        case h_2 hnone =>
            refine create_admitted ⟨rfl, rfl, hbuf, nofun, fun _ o ho hv ht hn => ?_⟩ rfl
            exact absurd hn (findObjectByName_none (by simp [hnone]) o ho hv ht)

/-- The owner of a plug is a valid object. -/
lemma plugName_owner {s : ObjectHal} {args : PlugArgs} {owner : Obj ObjDesc} {name : String}
    (h : s.plugName args = some (owner, name)) :
    owner ∈ s.objects ∧ owner.hdr.valid = true := by
  rw [plugName] at h
  split at h
  case h_1 => cases h
  case h_2 found hfound =>
      split at h
      case h_1 => cases h
      case h_2 =>
          obtain rfl : found = owner := congrArg Prod.fst (Option.some.inj h)
          rw [findObject.eq_def] at hfound
          split at hfound
          · exact findObjectByName_mem hfound
          · exact findObjectById_mem hfound

lemma halgPlugNew_change (s : ObjectHal) (e : CreateEnv) (args : PlugArgs) :
    ObjectChange s (.plugNew e args) (s.halgPlugNew e args) := by
  rw [halgPlugNew]
  split
  · exact .fewer (.refl s)
  · split
    case h_1 => exact .fewer (.refl s)
    case h_2 owner name hname =>
        obtain ⟨hm, hv⟩ := plugName_owner hname
        split
        case h_1 => exact .fewer (.refl s)
        case h_2 buf hbuf =>
            split_ifs with hdup
            · exact .fewer (.refl s)
            · refine create_admitted ⟨rfl, by simp [ObjectAct.asked, hname], hbuf,
                fun k hk => ⟨owner, hm, hv, Option.some.inj hk, (Int16.ofInt_toInt _).symm⟩,
                fun _ o ho hv ht hn => ?_⟩ rfl
              exact absurd hn (findObjectByName_none hdup o ho hv ht)

end ObjectHal

/-- What any call does. -/
theorem objectCall_change (a : ObjectAct) (s : ObjectHal) : ObjectChange s a (objectCall a s) := by
  have hrefl := Fewer.refl s
  cases a with
  | rtapiInit => exact .fewer (.of_objects (Nat.le_succ _) rfl)
  | xinit e name => exact ObjectHal.halgXinitfv_change s e name
  | pinNew e ownerId name => exact ObjectHal.halgPinNewfv_change s e ownerId name
  | paramNew e ownerId name => exact ObjectHal.halgParamNewfv_change s e ownerId name
  | exportFunct e ownerId name => exact ObjectHal.halgExportXfunctfv_change s e ownerId name
  | signalNew e name => exact ObjectHal.newToplevel_change s rfl rfl fun hlen => if_neg hlen
  | createThread e name => exact ObjectHal.newToplevel_change s rfl rfl fun hlen => if_neg hlen
  | groupNew e name => exact ObjectHal.newToplevel_change s rfl rfl fun hlen => if_neg hlen
  | memberNew e group member => exact ObjectHal.halgMemberNew_change s e group member
  | exportVtable e name version compId =>
    exact ObjectHal.halgExportVtable_change s e name version compId
  | instCreate e name compId => exact ObjectHal.halgInstCreate_change s e name compId
  | ringNew e name => exact ObjectHal.halgRingNewfv_change s e name
  | plugNew e args => exact ObjectHal.halgPlugNew_change s e args
  | exit compId =>
    simp only [objectCall, halgExit]
    split
    · exact .fewer hrefl
    · exact .fewer (hrefl.freeCompStruct _)
  | instDelete name =>
    simp only [objectCall, halgInstDelete]
    split
    · exact .fewer hrefl
    · exact .fewer (hrefl.freeInstStruct _)
  | groupDelete name =>
    simp only [objectCall, halgGroupDelete]
    split
    · exact .fewer hrefl
    · split_ifs
      · exact .fewer hrefl
      · exact .fewer (hrefl.freeGroupStruct _)
  | removeVtable vtableId =>
    simp only [objectCall, halgRemoveVtable]
    split
    · exact .fewer hrefl
    · split_ifs
      · exact .fewer hrefl
      · exact .fewer (hrefl.freeObject _)
  | delete off => exact .fewer (hrefl.freeObject off)
  | incref off => exact .fewer (.changeRef s off 1)
  | decref off => exact .fewer (.changeRef s off (-1))
  | sweep =>
    exact .fewer (.of_subset le_rfl (List.filter_sublist.map Obj.off)
      fun _ ho _ => (mem_sweep.1 ho).1)

/-- What a step does: fewer objects, or one more at an offset of its own. -/
lemma objectStep_cases {s s' : ObjectHal} {a : ObjectAct} (hs : objectStep s a = some s') :
    ((objectCall a s).1 = none ∧ Fewer s s') ∨
    ∃ e r new, (objectCall a s).1 = some new ∧ Admitted s a e r ∧ Created s e r new ∧
      new.off ∉ s.objects.map Obj.off ∧ s.nextHandle < s'.nextHandle ∧
      s'.objects = addTyped new s.objects := by
  rw [objectStep] at hs
  split_ifs at hs with hdesc
  cases hs
  have hchange := objectCall_change a s
  generalize objectCall a s = res at hchange ⊢
  cases hchange with
  | fewer hf => exact .inl ⟨rfl, hf⟩
  | created e r new hadm hnew hd hcounter hobjs =>
    refine .inr ⟨e, r, new, rfl, hadm, hnew, ?_, hcounter, hobjs⟩
    simpa [hadm.env, hd] using hdesc

end MachinekitHal
