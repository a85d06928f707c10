import MachinekitHal.Hal.Plug
import MachinekitHal.Hal.Component
import MachinekitHal.Hal.Group

/-!
`hal_comp.c`, `hal_instance.c`: the teardown of components and instances, with everything
that they can own.

`yield_free` frees each object by the function of its type: functs are taken off the threads,
pins are unlinked, plugs are detached, params and instances are freed as they are. The order
is functs, instances, pins, params, plugs, and then the owner.

* `OwnedHal`: the HAL state with all types of objects that have an owner. Groups own their
  members, and are left out with them.
* `Destructor`: the custom destructor of an instance. The lookup of the component it belongs
  to is left out; where that finds none, the code does not return.
* `freeInstStruct`, `freeCompStruct`: the functions. `rtapi` says which of the two libraries
  runs; the one without realtime has neither functs nor instances to free.
-/

namespace MachinekitHal

open Store

/-- `hal_param_t`: all that is used of a param is in its header. -/
structure HalParam where
  deriving DecidableEq

/-- The HAL state with everything a component can own. -/
structure OwnedHal extends PlugHal where
  params : List (Obj HalParam)
  vtables : List (Obj Vtable)

/-- Two states with the same objects: they differ in what is said of rings at most. -/
structure SameObjects (s t : OwnedHal) : Prop where
  hal : t.toHal = s.toHal
  plugs : t.plugs = s.plugs
  params : t.params = s.params
  vtables : t.vtables = s.vtables
  bufs : ∀ p ∈ s.plugs, t.bufs (plugRb p.off) = s.bufs (plugRb p.off)

/-- What runs as the destructor of an instance: the code of its component, or nothing. It
releases what the instance has beside HAL objects: memory, and rings it attached itself. -/
structure Destructor where
  run : Obj Inst → OwnedHal → OwnedHal
  objects : ∀ inst s, SameObjects s (run inst s)

namespace OwnedHal

variable (s : OwnedHal)

/-- All functs of an owner are freed. -/
def freeFunctsOf (id : ℤ) : OwnedHal := { s with toHal := s.toHal.freeFunctsOf id }

/-- All pins of an owner are freed. -/
def freePinsOf (id : ℤ) : OwnedHal := { s with toHal := s.toHal.freePinsOf id }

/-- All params of an owner are freed. -/
def freeParamsOf (id : ℤ) : OwnedHal :=
  halgForeach OwnedHal.params (ownedBy id)
    (fun off s => { s with params := halgFreeObject off s.params }) s

/-- All plugs of an owner are deleted. -/
def freePlugsOf (id : ℤ) : OwnedHal :=
  halgForeach (fun s : OwnedHal => s.plugs) (ownedBy id)
    (fun off s => { s with toPlugHal := (halgPlugDelete off s.toPlugHal).2 }) s

/-- What both libraries free of an owner. -/
def freeRest (id : ℤ) : OwnedHal := ((s.freePinsOf id).freeParamsOf id).freePlugsOf id

variable (rtapi : Bool) (d : Destructor)

/-- `free_inst_struct`. -/
def freeInstStruct (inst : Obj Inst) : OwnedHal :=
  let id := inst.hdr.id.toInt
  let s := if rtapi then d.run inst (s.freeFunctsOf id) else s
  let s := s.freeRest id
  { s with insts := halgFreeObject inst.off s.insts }

/-- `yield_free` on the instance at `off`. -/
def freeInstAt (off : ℕ) : OwnedHal :=
  match at? Obj.off off s.insts with
  | some inst => s.freeInstStruct rtapi d inst
  | none => s

/-- All instances of a component are freed. -/
def freeInstsOf (id : ℤ) : OwnedHal :=
  halgForeach (fun s : OwnedHal => s.insts) (ownedBy id)
    (fun off s => s.freeInstAt rtapi d off) s

/-- `free_comp_struct`. -/
def freeCompStruct (comp : Obj Comp) : Option Errno × OwnedHal :=
  if comp.hdr.refcnt ≠ 0 then (some .EBUSY, s) else
  let id := comp.hdr.id.toInt
  let s := if rtapi then (s.freeFunctsOf id).freeInstsOf rtapi d id else s
  let s := s.freeRest id
  (none, { s with comps := halgFreeObject comp.off s.comps })

end OwnedHal

end MachinekitHal
