import MachinekitHal.Hal.Component

/-!
The object list with the objects of all types, and the functions that create and delete
them.

Here the one list of `hal_object.c` is kept, because ids are looked up across types. Of each
creation function the model has what concerns the header. Its other checks refuse the call
without touching anything, and what it does after the descriptor exists may fail; both are
arguments (`CreateEnv`).

* `ObjectHal`: the list and the counter behind `rtapi_next_handle`. The counter is an
  integer of the machine; ids are its low 16 bits, so the model lets it grow.
* `printFormat`: `rtapi_vsnprintf` on a format for which no arguments are passed. A name
  that reaches `halg_create_objectf` is such a format.
* `create`: `halg_create_objectf` and `halg_add_object`; `halgPinNewfv` and the others are
  the checks in front of it.
* `objectCall`, `objectStep`: one call, and the same as a step of a run.
-/

namespace MachinekitHal

open Store

/-- `hal_object_type`. -/
inductive HalObjectType
  | pin | signal | param | thread | funct | component | vtable | inst | ring | group | member
  | plug
  deriving DecidableEq

/-- What the header and the lookups need of a descriptor. `handle`, `asked` and `owner` are
history: the handle the id was made from, the name the caller passed, formatted, and the
handle of the object that was given as the owner. -/
structure ObjDesc where
  type : HalObjectType
  version : ℤ
  handle : ℕ
  asked : String
  owner : Option ℕ
  deriving DecidableEq

/-- The object list and `next_handle`. -/
structure ObjectHal where
  nextHandle : ℕ
  objects : List (Obj ObjDesc)
  deriving DecidableEq

/-- A fresh HAL segment; `next_handle` starts at `RTAPI_MAX_MODULES + 1`. -/
def ObjectHal.fresh : ObjectHal := { nextHandle := 65, objects := [] }

/-- The surroundings of a creation: the descriptor that is allocated, whether a check that
has no part in names and ids refuses the call, whether a later part of the creation fails,
and what `vsnprintf` prints for a format whose arguments are missing. -/
structure CreateEnv where
  desc : Option ℕ
  refused : Bool
  undone : Bool
  undef : String → Option String

/-- A creation that gets its descriptor at `off` and meets no obstacle. -/
def CreateEnv.plain (off : ℕ) : CreateEnv :=
  { desc := some off, refused := false, undone := false, undef := fun _ => none }

/-! ### Names as formats -/

/-- The percent signs of a format: `%%` prints one, no other conversion is defined without
an argument. -/
def percents : List Char → Option (List Char)
  | [] => some []
  | '%' :: '%' :: cs => (percents cs).map ('%' :: ·)
  | '%' :: _ => none
  | c :: cs => (percents cs).map (c :: ·)

/-- `rtapi_vsnprintf` without arguments, before the buffer cuts it. -/
def printFormat (undef : String → Option String) (fmt : String) : Option String :=
  match percents fmt.toList with
  | some cs => some (String.ofList cs)
  | none => undef fmt

/-- The objects of type `type`; no type is any type. -/
def ofType (type : Option HalObjectType) (o : Obj ObjDesc) : Bool :=
  type.all fun t => o.body.type == t

/-- `halg_add_object`: before the first valid object of its type with a larger name. -/
def addTyped (new : Obj ObjDesc) : List (Obj ObjDesc) → List (Obj ObjDesc)
  | [] => [new]
  | o :: l =>
    if o.body.type == new.body.type && (o.hdr.valid && decide (new.hdr.name < o.hdr.name))
    then new :: o :: l
    else o :: addTyped new l

namespace ObjectHal

variable (s : ObjectHal)

/-! ### Lookups -/

/-- The objects of one type, or of all types. -/
def typed (type : Option HalObjectType) : List (Obj ObjDesc) := s.objects.filter (ofType type)

/-- `halg_find_object_by_name`. -/
def findObjectByName (type : Option HalObjectType) (name : String) : Option (Obj ObjDesc) :=
  findByName name (s.typed type)

/-- `halg_find_object_by_id`. -/
def findObjectById (type : Option HalObjectType) (id : ℤ) : Option (Obj ObjDesc) :=
  findById id (s.typed type)

/-- `halg_find_vtable_by_name`. -/
def findVtableByName (name : String) (version : ℤ) : Option (Obj ObjDesc) :=
  (s.typed (some .vtable)).find? fun v =>
    v.hdr.valid && v.hdr.name == name && v.body.version == version

/-- The object that an owner id designates: an instance or a component. -/
def givenOwner (ownerId : ℤ) : Option (Obj ObjDesc) :=
  (s.findObjectById (some .inst) ownerId).or (s.findObjectById (some .component) ownerId)

/-- `halpr_find_owning_comp`. -/
def findOwningComp (ownerId : ℤ) : Option (Obj ObjDesc) :=
  match s.findObjectById (some .inst) ownerId with
  | some inst => s.findObjectById (some .component) inst.hdr.ownerId.toInt
  | none => s.findObjectById (some .component) ownerId

/-- The handle of the owner given by an owner id; an owner id of `0` gives none. -/
def ownerHandle (ownerId : ℤ) : Option ℕ :=
  if ownerId = 0 then none else (s.givenOwner ownerId).map fun p => p.body.handle

/-! ### Creation -/

/-- `rtapi_next_handle`. -/
def rtapiNextHandle : ObjectHal := { s with nextHandle := s.nextHandle + 1 }

/-- What a creation function asks of `halg_create_objectf`: `fmt` is the name it passes,
`compId` the handle that replaces the one of a component. -/
structure Request where
  type : HalObjectType
  ownerId : ℤ
  fmt : String
  asked : String
  owner : Option ℕ
  version : ℤ
  compId : Option ℕ

/-- `halg_create_objectf`, what follows it, and `halg_add_object`. -/
def create (e : CreateEnv) (r : Request) : Option (Obj ObjDesc) × ObjectHal :=
  match e.desc with
  | none => (none, s)
  | some off =>
    let s := s.rtapiNextHandle
    let handle := r.compId.getD s.nextHandle
    match printFormat e.undef r.fmt with
    | none => (none, s)
    | some printed =>
      match halgCreateObject (some ⟨off, handle⟩) r.ownerId printed
          { type := r.type, version := r.version, handle := handle, asked := r.asked
            owner := r.owner : ObjDesc } with
      | none => (none, s)
      | some new =>
        if e.undone then (none, s)
        else (some new, { s with objects := addTyped new s.objects })

/-- `halg_pin_newfv`; `name` is what the caller's format and arguments print. -/
def halgPinNewfv (e : CreateEnv) (ownerId : ℤ) (name : String) :
    Option (Obj ObjDesc) × ObjectHal :=
  if e.refused then (none, s) else
  match fmtAp 128 name with
  | none => (none, s)
  | some buf =>
    if (s.findObjectByName (some .pin) buf).isSome then (none, s) else
    if (s.findOwningComp ownerId).isNone then (none, s) else
    s.create e
      { type := .pin, ownerId := ownerId, fmt := buf, asked := name
        owner := s.ownerHandle ownerId, version := 0, compId := none }

/-- `halg_param_newfv`, which looks for no duplicate, and returns `NULL` also when it made
the param. -/
def halgParamNewfv (e : CreateEnv) (ownerId : ℤ) (name : String) :
    Option (Obj ObjDesc) × ObjectHal :=
  if e.refused then (none, s) else
  match fmtAp 128 name with
  | none => (none, s)
  | some buf =>
    if (s.findOwningComp ownerId).isNone then (none, s) else
    s.create e
      { type := .param, ownerId := ownerId, fmt := buf, asked := name
        owner := s.ownerHandle ownerId, version := 0, compId := none }

/-- `halg_export_xfunctfv` up to the funct itself; its timing pins are calls of their own. -/
def halgExportXfunctfv (e : CreateEnv) (ownerId : ℤ) (name : String) :
    Option (Obj ObjDesc) × ObjectHal :=
  if e.refused then (none, s) else
  if halNameLen < name.length then (none, s) else
  if (s.findObjectByName (some .funct) name).isSome then (none, s) else
  if (s.findOwningComp ownerId).isNone then (none, s) else
  s.create e
    { type := .funct, ownerId := ownerId, fmt := name, asked := name
      owner := s.ownerHandle ownerId, version := 0, compId := none }

/-- An object without an owner and with a name of at most `HAL_NAME_LEN`. -/
def newToplevel (type : HalObjectType) (e : CreateEnv) (name : String) :
    Option (Obj ObjDesc) × ObjectHal :=
  if e.refused then (none, s) else
  if halNameLen < name.length then (none, s) else
  if (s.findObjectByName (some type) name).isSome then (none, s) else
  s.create e
    { type := type, ownerId := 0, fmt := name, asked := name, owner := none, version := 0
      compId := none }

/-- `halg_signal_new`. -/
def halgSignalNew (e : CreateEnv) (name : String) : Option (Obj ObjDesc) × ObjectHal :=
  s.newToplevel .signal e name

/-- `hal_create_xthread` up to the thread itself; its timing pins are calls of their own. -/
def halCreateXthread (e : CreateEnv) (name : String) : Option (Obj ObjDesc) × ObjectHal :=
  s.newToplevel .thread e name

/-- `halg_group_new`. -/
def halgGroupNew (e : CreateEnv) (name : String) : Option (Obj ObjDesc) × ObjectHal :=
  s.newToplevel .group e name

/-- `halg_member_new`. -/
def halgMemberNew (e : CreateEnv) (group member : String) : Option (Obj ObjDesc) × ObjectHal :=
  if e.refused then (none, s) else
  if halNameLen < group.length then (none, s) else
  if halNameLen < member.length then (none, s) else
  match s.findObjectByName (some .group) group with
  | none => (none, s)
  | some grp =>
    -- fail if group referenced
    if grp.hdr.refcnt ≠ 0 then (none, s) else
    if (s.findObjectByName (some .signal) member).isNone then (none, s) else
    -- detect duplicate insertion
    if (s.findObjectByName (some .member) member).isSome then (none, s) else
    s.create e
      { type := .member, ownerId := grp.hdr.id.toInt, fmt := member, asked := member
        owner := some grp.body.handle, version := 0, compId := none }

/-- `halg_export_vtable`; the owner is not looked up. -/
def halgExportVtable (e : CreateEnv) (name : String) (version compId : ℤ) :
    Option (Obj ObjDesc) × ObjectHal :=
  if e.refused then (none, s) else
  if halNameLen < name.length then (none, s) else
  if (s.findVtableByName name version).isSome then (none, s) else
  s.create e
    { type := .vtable, ownerId := compId, fmt := name, asked := name
      owner := s.ownerHandle compId, version := version, compId := none }

/-- `halg_inst_create`, which has no buffer of its own for the name. -/
def halgInstCreate (e : CreateEnv) (name : String) (compId : ℤ) :
    Option (Obj ObjDesc) × ObjectHal :=
  if e.refused then (none, s) else
  match s.findObjectById (some .component) compId with
  | none => (none, s)
  | some comp =>
    if (s.findObjectByName (some .inst) name).isSome then (none, s) else
    s.create e
      { type := .inst, ownerId := comp.hdr.id.toInt, fmt := name, asked := name
        owner := some comp.body.handle, version := 0, compId := none }

/-- `halg_free_object` on the object at `off`. -/
def freeObject (off : ℕ) : ObjectHal := { s with objects := halgFreeObject off s.objects }

/-- `halg_ring_newfv`; `name` is the formatted name, or the one made up from the ring id. A
ring found under that name is freed at the exit `FAIL`. -/
def halgRingNewfv (e : CreateEnv) (name : String) : Option (Obj ObjDesc) × ObjectHal :=
  if e.refused then (none, s) else
  match fmtAp 128 name with
  | none => (none, s)
  | some buf =>
    match s.findObjectByName (some .ring) buf with
    | some rptr => (none, s.freeObject rptr.off)
    | none => s.create e
        { type := .ring, ownerId := 0, fmt := buf, asked := name, owner := none, version := 0
          compId := none }

/-- An object named by its name, or by its id if no name is given. -/
def findObject (type : Option HalObjectType) (name : Option String) (id : ℤ) :
    Option (Obj ObjDesc) :=
  match name with
  | some name => s.findObjectByName type name
  | none => s.findObjectById type id

/-- `plug_args_t`, less the flags. -/
structure PlugArgs where
  ownerName : Option String
  ownerId : ℤ
  ringName : Option String
  ringId : ℤ
  writer : Bool

/-- The owner and the ring of a plug, and the name made from them. -/
def plugName (args : PlugArgs) : Option (Obj ObjDesc × String) :=
  match s.findObject none args.ownerName args.ownerId with
  | none => none
  | some owner =>
    match s.findObject (some .ring) args.ringName args.ringId with
    | none => none
    | some ring =>
      let tag := if args.writer then "write" else "read"
      some (owner, ring.hdr.name ++ "." ++ owner.hdr.name ++ "." ++ tag)

/-- `halg_plug_new`. -/
def halgPlugNew (e : CreateEnv) (args : PlugArgs) : Option (Obj ObjDesc) × ObjectHal :=
  if e.refused then (none, s) else
  match s.plugName args with
  | none => (none, s)
  | some (owner, name) =>
    match fmtAp 127 name with
    | none => (none, s)
    | some buf =>
      if (s.findObjectByName (some .plug) buf).isSome then (none, s) else
      s.create e
        { type := .plug, ownerId := owner.hdr.id.toInt, fmt := buf, asked := name
          owner := some owner.body.handle, version := 0, compId := none }

/-- `halg_xinitfv`; the id of a component is the handle from `rtapi_init`. -/
def halgXinitfv (e : CreateEnv) (name : String) : Option (Obj ObjDesc) × ObjectHal :=
  if e.refused then (none, s) else
  match fmtAp 128 name with
  | none => (none, s)
  | some buf =>
    let s := s.rtapiNextHandle
    if (s.findObjectByName (some .component) buf).isSome then (none, s) else
    s.create e
      { type := .component, ownerId := 0, fmt := buf, asked := name, owner := none
        version := 0, compId := some s.nextHandle }

/-! ### Deletion -/

/-- `yield_free` on the objects of a type that belong to an owner. -/
def freeOwned (type : HalObjectType) (id : ℤ) : ObjectHal :=
  halgForeach objects (fun o => o.body.type == type && ownedBy id o)
    (fun off s => s.freeObject off) s

/-- `free_inst_struct`. -/
def freeInstStruct (inst : Obj ObjDesc) : ObjectHal :=
  let id := inst.hdr.id.toInt
  ((((s.freeOwned .funct id).freeOwned .pin id).freeOwned .param id).freeOwned .plug
    id).freeObject inst.off

/-- `free_inst_struct` on the instance at `off`. -/
def freeInstAt (off : ℕ) : ObjectHal :=
  match at? Obj.off off s.objects with
  | some inst => s.freeInstStruct inst
  | none => s

/-- `yield_free` on the instances of a component. -/
def freeInsts (id : ℤ) : ObjectHal :=
  halgForeach objects (fun o => o.body.type == .inst && ownedBy id o)
    (fun off s => s.freeInstAt off) s

/-- `free_comp_struct`. -/
def freeCompStruct (comp : Obj ObjDesc) : ObjectHal :=
  if comp.hdr.refcnt ≠ 0 then s else
  let id := comp.hdr.id.toInt
  let s := (s.freeOwned .funct id).freeInsts id
  (((s.freeOwned .pin id).freeOwned .param id).freeOwned .plug id).freeObject comp.off

/-- `free_group_struct`. -/
def freeGroupStruct (group : Obj ObjDesc) : ObjectHal :=
  (s.freeOwned .member group.hdr.id.toInt).freeObject group.off

/-- `halg_exit`. -/
def halgExit (compId : ℤ) : ObjectHal :=
  match s.findObjectById (some .component) compId with
  | none => s
  | some comp => s.freeCompStruct comp

/-- `halg_inst_delete`. -/
def halgInstDelete (name : String) : ObjectHal :=
  match s.findObjectByName (some .inst) name with
  | none => s
  | some inst => s.freeInstStruct inst

/-- `halg_group_delete`. -/
def halgGroupDelete (name : String) : ObjectHal :=
  match s.findObjectByName (some .group) name with
  | none => s
  | some group => if group.hdr.refcnt ≠ 0 then s else s.freeGroupStruct group

/-- `halg_remove_vtable`. -/
def halgRemoveVtable (vtableId : ℤ) : ObjectHal :=
  match s.findObjectById (some .vtable) vtableId with
  | none => s
  | some vt => if vt.hdr.refcnt ≠ 0 then s else s.freeObject vt.off

/-- `ho_incref` and `ho_decref`. -/
def changeRef (off : ℕ) (d : BitVec 7) : ObjectHal :=
  { s with
    objects := modify Obj.off off
      (fun o => { o with hdr := { o.hdr with refcnt := o.hdr.refcnt + d } }) s.objects }

end ObjectHal

/-! ### Runs -/

open ObjectHal

/-- A call. `rtapiInit` is the call of a process that makes no HAL object. `delete` frees one
object: it stands for the deletion functions of the remaining types, once their own checks
have let them pass, and a deletion in which a destructor runs is a sequence of these and of
the calls of the destructor. -/
inductive ObjectAct
  | rtapiInit
  | xinit (e : CreateEnv) (name : String)
  | pinNew (e : CreateEnv) (ownerId : ℤ) (name : String)
  | paramNew (e : CreateEnv) (ownerId : ℤ) (name : String)
  | exportFunct (e : CreateEnv) (ownerId : ℤ) (name : String)
  | signalNew (e : CreateEnv) (name : String)
  | createThread (e : CreateEnv) (name : String)
  | groupNew (e : CreateEnv) (name : String)
  | memberNew (e : CreateEnv) (group member : String)
  | exportVtable (e : CreateEnv) (name : String) (version compId : ℤ)
  | instCreate (e : CreateEnv) (name : String) (compId : ℤ)
  | ringNew (e : CreateEnv) (name : String)
  | plugNew (e : CreateEnv) (args : PlugArgs)
  | exit (compId : ℤ)
  | instDelete (name : String)
  | groupDelete (name : String)
  | removeVtable (vtableId : ℤ)
  | delete (off : ℕ)
  | incref (off : ℕ)
  | decref (off : ℕ)
  | sweep

/-- The surroundings of a creation. -/
def ObjectAct.env : ObjectAct → Option CreateEnv
  | .xinit e _ | .pinNew e _ _ | .paramNew e _ _ | .exportFunct e _ _ | .signalNew e _
  | .createThread e _ | .groupNew e _ | .memberNew e _ _ | .exportVtable e _ _ _
  | .instCreate e _ _ | .ringNew e _ | .plugNew e _ => some e
  | _ => none

/-- One call: the object it made, if any, and the state after it. -/
def objectCall (a : ObjectAct) (s : ObjectHal) : Option (Obj ObjDesc) × ObjectHal :=
  match a with
  | .rtapiInit => (none, s.rtapiNextHandle)
  | .xinit e name => s.halgXinitfv e name
  | .pinNew e ownerId name => s.halgPinNewfv e ownerId name
  | .paramNew e ownerId name => s.halgParamNewfv e ownerId name
  | .exportFunct e ownerId name => s.halgExportXfunctfv e ownerId name
  | .signalNew e name => s.halgSignalNew e name
  | .createThread e name => s.halCreateXthread e name
  | .groupNew e name => s.halgGroupNew e name
  | .memberNew e group member => s.halgMemberNew e group member
  | .exportVtable e name version compId => s.halgExportVtable e name version compId
  | .instCreate e name compId => s.halgInstCreate e name compId
  | .ringNew e name => s.halgRingNewfv e name
  | .plugNew e args => s.halgPlugNew e args
  | .exit compId => (none, s.halgExit compId)
  | .instDelete name => (none, s.halgInstDelete name)
  | .groupDelete name => (none, s.halgGroupDelete name)
  | .removeVtable vtableId => (none, s.halgRemoveVtable vtableId)
  | .delete off => (none, s.freeObject off)
  | .incref off => (none, s.changeRef off 1)
  | .decref off => (none, s.changeRef off (-1))
  | .sweep => (none, { s with objects := MachinekitHal.sweep s.objects })

/-- A call as a step; a descriptor is allocated where no object is. -/
def objectStep (s : ObjectHal) (a : ObjectAct) : Option ObjectHal :=
  if (a.env.bind CreateEnv.desc).all fun off => off ∉ s.objects.map Obj.off
  then some (objectCall a s).2 else none

end MachinekitHal
