import MachinekitHal.Hal.CompiledComponent
import MachinekitHal.Hal.Group
import MachinekitHal.Hal.ParamCreation
import MachinekitHal.Haltalk.RemoteSet

/-!
`haltalk_command.cc`, `haltalk_rcomp.cc`, `hal_rcomp.c`: remote components bound by message.

A bind of a name that the server does not know makes it adopt the remote components that nobody
owns, and then create the component. Plugs, which a bind does not create, and the description in
the confirmation are left out; of the notes in a reply, what they name is given.

* `RcompHal`: the HAL with what remote components have beside; `halXinit`, `halReady`,
  `halgAcquire`, `halgExit` are the calls.
* `HtRcomps`: the server with its tables of components and items.
* `processRcompBind`: the bind.
-/

namespace MachinekitHal

open Store
open Function (update)

/-! ### The HAL -/

/-- The fields of `hal_comp_t` that remote components are served by. -/
structure RemoteComp where
  pid : ℤ
  userarg1 : BitVec 32
  userarg2 : BitVec 32
  lastBound : ℤ
  deriving DecidableEq

/-- The HAL with its params; `remote` and `pinFlags` are fields of components and pins, by
offset. -/
structure RcompHal extends Hal where
  params : List (Obj Param)
  remote : ℕ → RemoteComp
  pinFlags : ℕ → BitVec 32
  rtapiAppPid : ℤ

namespace RcompHal

variable (h : RcompHal)

/-- `hal_xinit` of a remote component, in a process that maps the HAL segment at `base`: its id,
which is the handle from `rtapi_init`, or an error. -/
def halXinit (mem : Option Alloc) (handle : ℤ) (base : ℕ) (userarg1 userarg2 : BitVec 32)
    (name : String) : ℤ × RcompHal :=
  match fmtAp 128 name with
  | none => (-Errno.EINVAL.code, h)
  | some name =>
  if (findByName name h.comps).isSome then (-Errno.EBUSY.code, h) else
  match halgCreateObject mem 0 name
      { type := .typeRemote, state := .compInitializing, shmemBase := base : Comp } with
  | none => (-Errno.ENOMEM.code, h)
  | some new =>
    let comp := { new with hdr := { new.hdr with id := Int16.ofInt handle } }
    (comp.hdr.id.toInt,
      { h with
        comps := addObject comp h.comps
        -- a remote component starts out disowned
        remote := update h.remote comp.off ⟨0, userarg1, userarg2, 0⟩ })

/-- `halg_pin_newf` for a v2 pin. -/
def halgPinNewf (mem : Option Alloc) (type : HalType) (dir : HalPinDir) (ownerId : ℤ)
    (name : String) : Option Errno × RcompHal :=
  match h.toHal.halgPinNewfv mem type dir none ownerId 0 name with
  | (some e, _) => (some e, h)
  | (none, hal) =>
    (none, { h with
      toHal := hal
      pinFlags := mem.elim h.pinFlags fun m => update h.pinFlags m.off 0 })

/-- `hal_ready`. -/
def halReady (compId : ℤ) : Option Errno × RcompHal :=
  match findById compId h.comps with
  | none => (some .EINVAL, h)
  | some comp =>
  if comp.body.state.initialized then (some .EINVAL, h) else
  let state := if comp.body.type = .typeRemote then CompState.compUnbound else .compReady
  (none, { h with
    comps := modify Obj.off comp.off (fun o => { o with body := { o.body with state := state } })
      h.comps })

/-- `halg_acquire`: the id of the component, or an error. -/
def halgAcquire (name : String) (pid : ℤ) : ℤ × RcompHal :=
  if halNameLen < name.length then (-Errno.EINVAL.code, h) else
  match findByName name h.comps with
  | none => (-Errno.EINVAL.code, h)
  | some comp =>
  if comp.body.type ≠ .typeRemote then (-Errno.EINVAL.code, h) else
  if comp.body.state = .compBound then (-Errno.EINVAL.code, h) else
  -- let a comp be adopted away from the RT environment
  if (h.remote comp.off).pid ≠ 0 ∧ (h.remote comp.off).pid ≠ h.rtapiAppPid then
    (-Errno.EINVAL.code, h)
  else
    (comp.hdr.id.toInt, { h with
      comps := modify Obj.off comp.off (Obj.mapHdr Halhdr.incrRefcnt) h.comps
      remote := update h.remote comp.off { h.remote comp.off with pid := pid } })

/-- All params of an owner are freed. -/
def freeParamsOf (id : ℤ) : RcompHal :=
  halgForeach RcompHal.params (ownedBy id)
    (fun off h => { h with params := halgFreeObject off h.params }) h

/-- `free_comp_struct` of a process without realtime. -/
def freeCompStruct (comp : Obj Comp) : Option Errno × RcompHal :=
  if comp.hdr.refcnt ≠ 0 then (some .EBUSY, h) else
  let id := comp.hdr.id.toInt
  let h := RcompHal.freeParamsOf { h with toHal := h.toHal.freePinsOf id } id
  (none, { h with comps := halgFreeObject comp.off h.comps })

/-- `hal_exit`. -/
def halgExit (compId : ℤ) : Option Errno × RcompHal :=
  match findById compId h.comps with
  | none => (some .EINVAL, h)
  | some comp => (none, (h.freeCompStruct comp).2)

/-- For a component that owns no functs and no instances this is `Hal.halgExit`. -/
lemma halgExit_toHal {compId : ℤ} (h0 : compId ≠ 0)
    (hf : ∀ o ∈ h.functs, o.hdr.valid = true → ownedBy compId o = false)
    (hi : ∀ o ∈ h.insts, o.hdr.valid = true → ownedBy compId o = false) :
    (h.halgExit compId).1 = (h.toHal.halgExit compId).1 ∧
      (h.halgExit compId).2.toHal = (h.toHal.halgExit compId).2 := by
  rw [halgExit, Hal.halgExit]
  cases hc : findById compId h.comps with
  | none => exact ⟨rfl, rfl⟩
  | some comp =>
    obtain rfl : compId = comp.hdr.id.toInt := (findById_id hc).resolve_left h0
    have hparams (h : RcompHal) (id : ℤ) : (h.freeParamsOf id).toHal = h.toHal :=
      halgForeach_rule (P := fun s : RcompHal => s.toHal = h.toHal) (fun _ _ hs _ _ _ => hs) rfl
    refine ⟨rfl, ?_⟩
    dsimp only
    rw [freeCompStruct, Hal.freeCompStruct]
    split_ifs
    · rfl
    · dsimp only
      rw [hparams, Hal.freeFunctsOf, halgForeach_none hf, halgForeach_none hi]
      rfl

/-- The selection of `halg_foreach` by owning component; an id of `0` is no filter. -/
def owningComp {α : Type} (id : ℤ) (o : Obj α) : Bool :=
  id == 0 || (h.findOwningComp o.hdr.ownerId.toInt).any fun comp => comp.hdr.id.toInt == id

/-- `halpr_pin_count`. -/
def halprPinCount (comp : Obj Comp) : ℕ :=
  let id := comp.hdr.id.toInt
  h.pins.countP fun o => o.hdr.valid &&
    if comp.body.type = .typeRemote then ownedBy id o else h.owningComp id o

/-- `halpr_param_count`. -/
def halprParamCount (comp : Obj Comp) : ℕ :=
  h.params.countP fun o => o.hdr.valid && h.owningComp comp.hdr.id.toInt o

end RcompHal

/-! ### The message -/

/-- `machinetalk::Pin` in a bind. -/
structure PbBindPin extends PbPin where
  dir : Option HalPinDir

/-- `machinetalk::Param` in a bind. -/
structure PbBindParam where
  name : Option String
  type : Option ValueType
  dir : Option ℤ

/-- `machinetalk::Component` in a bind. -/
structure PbComponent where
  name : Option String
  timer : Option ℤ
  userarg1 : Option (BitVec 32)
  userarg2 : Option (BitVec 32)
  noCreate : Option Bool
  pin : List PbBindPin
  param : List PbBindParam

/-- `(hal_type_t) p.type()`, a type that is not valid for the types that HAL does not have. -/
def ValueType.toHal : ValueType → HalType
  | .halBit => .halBit
  | .halFloat => .halFloat
  | .halS32 => .halS32
  | .halU32 => .halU32
  | .halS64 => .halS64
  | .halU64 => .halU64
  | _ => .halTypeUnspecified

/-- A pin with a name, a type and a direction. -/
def PbBindPin.complete (p : PbBindPin) : Bool := p.name.isSome && p.type.isSome && p.dir.isSome

/-- The notes of a reject, with what they name. -/
inductive BindNote where
  /-- no name in Component submessage -/
  | noName
  /-- invalid pin - name, type or dir missing -/
  | invalidPin (name : Option String)
  /-- Component not created since no_create flag set -/
  | noCreate
  /-- component '%s' exists but has state COMP_INITIALIZING -/
  | initializing (name : String)
  /-- this could be caused by a missing hal_ready() call -/
  | missingReady
  /-- hal_init_mode(%s): %s -/
  | initMode (name : String) (rc : ℤ)
  /-- halg_pin_new() failed -/
  | pinNew (e : Errno)
  /-- hal_acquire(%s) failed -/
  | acquire (name : String)
  /-- hal_compile_comp() failed -/
  | compileComp
  /-- HAL component '%s' does not exist -/
  | noComp (name : String)
  /-- pin count mismatch:pb comp=%d hal comp=%d -/
  | pinCount (pb hal : ℕ)
  /-- param count mismatch:pb comp=%d hal comp=%d -/
  | paramCount (pb hal : ℕ)
  /-- HAL pin '%s' does not exist -/
  | noPin (name : String)
  /-- HAL pin '%s' type mismatch: hal=%d pb=%d -/
  | pinType (name : String) (hal pb : ℤ)
  /-- HAL pin '%s' direction mismatch: hal=%d pb=%d -/
  | pinDir (name : String) (hal pb : HalPinDir)
  /-- param without name, type or direction -/
  | paramWithout (name : Option String)
  /-- HAL param '%s' does not exist -/
  | noParam (name : String)
  /-- BUG: pin %s missing in already validated component %s ? -/
  | pinMissing (name : String)
  /-- bad pin type %d/%d name=%s -/
  | badPinType (name : String)
  deriving DecidableEq

/-! ### The server -/

/-- `rcomp_t`. -/
structure Rcomp where
  msec : ℤ
  cc : CompiledComp

/-- What a bind uses of `htself_t`: the HAL, its own process id, the base of the segment, the
default timer, and the tables of components and items. -/
structure HtRcomps where
  hal : RcompHal
  pid : ℤ
  base : ℕ
  defaultRcompTimer : ℤ
  rcomps : String → Option Rcomp
  items : ℤ → Option HaltalkItem

/-- What the environment answers during a bind: the handle from `rtapi_init`, the memory for the
component and for the pins in their order, and `malloc` for the compiled component and for those
that are adopted, by offset. -/
structure BindEnv where
  handle : ℤ
  comp : Option Alloc
  pin : ℕ → Option Alloc
  mallocs : Mallocs
  adopted : ℕ → Mallocs

/-- `RCOMP_ACCEPT_VALUES_ON_BIND`. -/
def rcompAcceptValuesOnBind : BitVec 32 := 1

namespace HtRcomps

variable (s : HtRcomps)

/-- `add_pins_to_items`, for one pin. -/
def addPinToItems (items : ℤ → Option HaltalkItem) (pin : Obj Pin) : ℤ → Option HaltalkItem :=
  if (items pin.hdr.id.toInt).isSome then items
  else update items pin.hdr.id.toInt (some (.pin pin.off))

/-- `scan_component`. -/
def scanComponent (mallocs : ℕ → Mallocs) (off : ℕ) (s : HtRcomps) : HtRcomps :=
  match at? Obj.off off s.hal.comps with
  | none => s
  | some comp =>
  let name := comp.hdr.name
  if comp.body.type = .typeRemote ∧ (s.hal.remote off).pid = 0 ∧
      comp.body.state = .compUnbound ∧ (s.rcomps name).isNone then
    let r := s.hal.halgAcquire name s.pid
    let s := { s with hal := r.2 }
    if r.1 < 0 then s else
    match s.hal.toHal.halgCompileComp s.hal.pinFlags (mallocs off) name with
    | some (.ok cc) =>
      let arg1 := (s.hal.remote cc.comp).userarg1
      { s with
        items := cc.pin.reduceOption.foldl addPinToItems s.items
        rcomps := update s.rcomps name
          (some ⟨if arg1 ≠ 0 then arg1.toInt else s.defaultRcompTimer, cc⟩) }
    -- skipping component
    | _ => s
  else s

/-- `scan_comps`. -/
def scanComps (mallocs : ℕ → Mallocs) : HtRcomps :=
  halgForeach (fun s : HtRcomps => s.hal.comps) (fun _ => true) (scanComponent mallocs) s

/-- `hal_exit` at `EXIT_COMP`. What it returns is not looked at. -/
def exitComp (compId : ℤ) : HtRcomps :=
  if 0 < compId then { s with hal := (s.hal.halgExit compId).2 } else s

/-- One pin of `create_rcomp`, which is added to the items. -/
def createPin (mem : Option Alloc) (compId : ℤ) (p : PbBindPin) : Option Errno × HtRcomps :=
  match s.hal.halgPinNewf mem ((p.type.getD .halBit).toHal) (p.dir.getD .halIn) compId
      (p.name.getD "") with
  | (some e, _) => (some e, s)
  | (none, h) =>
    (none, { s with
      hal := h
      items := mem.elim s.items fun m =>
        update s.items (Int16.ofInt m.handle).toInt (some (.pin m.off)) })

/-- The pins of `create_rcomp`, up to the first that fails. -/
def createPins (mem : ℕ → Option Alloc) (compId : ℤ) :
    ℕ → List PbBindPin → HtRcomps → Option Errno × HtRcomps
  | _, [], s => (none, s)
  | i, p :: pins, s =>
    match s.createPin (mem i) compId p with
    | (some e, s) => (some e, s)
    | (none, s) => createPins mem compId (i + 1) pins s

/-- `create_rcomp`. -/
def createRcomp (e : BindEnv) (pb : PbComponent) (cname : String) :
    Except BindNote Rcomp × HtRcomps :=
  let msec := pb.timer.getD s.defaultRcompTimer
  let r := s.hal.halXinit e.comp e.handle s.base (pb.userarg1.getD 0) (pb.userarg2.getD 0) cname
  let s := { s with hal := r.2 }
  if r.1 < 0 then (.error (.initMode cname r.1), s) else
  match createPins e.pin r.1 0 pb.pin s with
  | (some err, s) => (.error (.pinNew err), s.exitComp r.1)
  | (none, s) =>
  -- the return value of `hal_ready` is not checked
  let s := { s with hal := (s.hal.halReady r.1).2 }
  let a := s.hal.halgAcquire cname s.pid
  let s := { s with hal := a.2 }
  if a.1 < (0 : ℤ) then (.error (.acquire cname), s.exitComp r.1) else
  match s.hal.toHal.halgCompileComp s.hal.pinFlags e.mallocs cname with
  | some (.ok cc) => (.ok ⟨msec, cc⟩, s)
  | _ => (.error .compileComp, s.exitComp r.1)

/-- A pin of the message against HAL. -/
def validatePin (p : PbBindPin) : List BindNote :=
  let name := p.name.getD ""
  let type := p.type.getD .halBit
  let dir := p.dir.getD .halIn
  match findByName name s.hal.pins with
  | none => [.noPin name]
  | some hp =>
    (if hp.body.type.code ≠ type.code then [.pinType name hp.body.type.code type.code] else []) ++
      if hp.body.dir ≠ dir then [.pinDir name hp.body.dir dir] else []

/-- A param of the message against HAL. The texts of the mismatches lack an argument, so there is
no result for these. -/
def validateParam (p : PbBindParam) : Option (List BindNote) :=
  match p.name, p.type, p.dir with
  | some name, some type, some dir =>
    match findByName name s.hal.params with
    | none => some [.noParam name]
    | some hp => if hp.body.type.code ≠ type.code ∨ hp.body.dir ≠ dir then none else some []
  | _, _, _ => some [.paramWithout p.name]

/-- `validate_component`. -/
def validateComponent (name : String) (pb : PbComponent) : Option (List BindNote) :=
  match findByName name s.hal.comps with
  | none => some [.noComp name]
  | some hc =>
    let npins := s.hal.halprPinCount hc
    let nparams := s.hal.halprParamCount hc
    (pb.param.mapM s.validateParam).map fun params =>
      (if pb.pin.length ≠ npins then [.pinCount pb.pin.length npins] else []) ++
        (if pb.param.length ≠ nparams then [.paramCount pb.param.length nparams] else []) ++
          pb.pin.flatMap s.validatePin ++ params.flatten

/-- One pin of `apply_initial_values`. -/
def applyValue (r : List BindNote × HtRcomps) (p : PbBindPin) : List BindNote × HtRcomps :=
  let name := p.name.getD ""
  match findByName name r.2.hal.pins with
  | none => (r.1 ++ [.pinMissing name], r.2)
  | some hp =>
  -- disconnected HAL_IN pins can be dealt with in halcmd with setp
  if hp.body.dir = .halIn then r else
  match halPbpin2u p.toPbObject (r.2.hal.pinValue hp) with
  | none => (r.1 ++ [.badPinType name], r.2)
  | some v =>
    (r.1, { r.2 with hal := { r.2.hal with toHal := r.2.hal.toHal.setPinValue hp v } })

/-- `apply_initial_values`. -/
def applyInitialValues (pb : PbComponent) : List BindNote × HtRcomps :=
  pb.pin.foldl applyValue ([], s)

/-- A component takes values from its first bind, if it is not bound. -/
def acceptsValues (c : Obj Comp) : Bool :=
  (s.hal.remote c.off).userarg2 &&& rcompAcceptValuesOnBind != 0 &&
    (s.hal.remote c.off).lastBound == 0 && c.body.state == .compUnbound

end HtRcomps

/-- The replies to a bind. -/
inductive BindReply where
  | mtHalrcompBindConfirm
  | mtHalrcompBindReject (note : List BindNote)
  deriving DecidableEq

namespace HtRcomps

/-- The part of `process_rcomp_bind` for a component that the server does not have. -/
def bindNew (e : BindEnv) (pb : PbComponent) (cname : String) (s : HtRcomps) :
    BindReply × HtRcomps :=
  if pb.noCreate = some true then (.mtHalrcompBindReject [.noCreate], s) else
  if (findByName cname s.hal.comps).any fun c => c.body.state = .compInitializing then
    (.mtHalrcompBindReject [.initializing cname, .missingReady], s)
  else
    match s.createRcomp e pb cname with
    | (.error note, s) => (.mtHalrcompBindReject [note], s)
    | (.ok rc, s) =>
      (.mtHalrcompBindConfirm, { s with rcomps := update s.rcomps cname (some rc) })

/-- The part of `process_rcomp_bind` for a component that the server has. -/
def bindExisting (pb : PbComponent) (cname : String) (rc : Rcomp) (s : HtRcomps) :
    Option (BindReply × HtRcomps) :=
  match s.validateComponent cname pb with
  | none => none
  | some (note :: notes) => some (.mtHalrcompBindReject (note :: notes), s)
  | some [] =>
    (at? Obj.off rc.cc.comp s.hal.comps).map fun c =>
      if s.acceptsValues c then
        match s.applyInitialValues pb with
        | ([], s) => (.mtHalrcompBindConfirm, s)
        | (notes, s) => (.mtHalrcompBindReject notes, s)
      else (.mtHalrcompBindConfirm, s)

/-- The server as it looks for the component: an unknown name makes it scan. -/
def look (e : BindEnv) (cname : String) (s : HtRcomps) : HtRcomps :=
  if (s.rcomps cname).isNone then s.scanComps e.adopted else s

/-- `process_rcomp_bind`; no result where the code does not return. -/
def processRcompBind (e : BindEnv) (pb : PbComponent) (s : HtRcomps) :
    Option (BindReply × HtRcomps) :=
  match pb.name with
  | none => some (.mtHalrcompBindReject [.noName], s)
  | some cname =>
  let invalid := pb.pin.filter fun p => !p.complete
  if invalid ≠ [] then
    some (.mtHalrcompBindReject (invalid.map fun p => .invalidPin p.name), s)
  else
    let s := s.look e cname
    match s.rcomps cname with
    | none => some (s.bindNew e pb cname)
    | some rc => s.bindExisting pb cname rc

end HtRcomps

end MachinekitHal
