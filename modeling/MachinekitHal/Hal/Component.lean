import MachinekitHal.Hal.Pin
import MachinekitHal.Hal.Funct

/-!
`hal_comp.c`, `hal_instance.c`: the teardown of components and instances.

What a component or an instance owns is freed before it is: functs first, then the
instances of a component, then pins. Params and plugs are not modelled. The custom
destructor of an instance runs between its functs and its pins with the HAL mutex
released, so `free_inst_struct` is split there.

* `freeInstFuncts`, `freeInstRest`, `freeInstStruct`: `free_inst_struct` before and
  after the destructor, and the whole of it for a component without one.
* `freeCompStruct`, `halgExit`, `halgInstDelete`; `freeCompRest` is what follows the
  instances of a component.
-/

namespace MachinekitHal

open Store

variable {α : Type}

/-- The selection of `halg_foreach` by owner; an owner id of `0` is no filter. -/
def ownedBy (id : ℤ) (o : Obj α) : Bool := id == 0 || o.hdr.ownerId.toInt == id

namespace Hal

variable (h : Hal)

/-- All functs of an owner are freed. -/
def freeFunctsOf (id : ℤ) : Hal :=
  halgForeach Hal.functs (ownedBy id) (fun off h => h.freeFunctStruct off) h

/-- All pins of an owner are freed. -/
def freePinsOf (id : ℤ) : Hal :=
  halgForeach Hal.pins (ownedBy id) (fun off h => h.freePinStruct off) h

/-- `free_inst_struct` up to the call of the destructor. -/
def freeInstFuncts (inst : Obj Inst) : Hal := h.freeFunctsOf inst.hdr.id.toInt

/-- `free_inst_struct` from there on. -/
def freeInstRest (inst : Obj Inst) : Hal :=
  let h := h.freePinsOf inst.hdr.id.toInt
  { h with insts := halgFreeObject inst.off h.insts }

/-- `free_inst_struct`. -/
def freeInstStruct (inst : Obj Inst) : Hal := (h.freeInstFuncts inst).freeInstRest inst

/-- `yield_free` on the instance at `off`. -/
def freeInstAt (off : ℕ) : Hal :=
  match at? Obj.off off h.insts with
  | some inst => h.freeInstStruct inst
  | none => h

/-- `free_comp_struct` after its instances are gone. -/
def freeCompRest (comp : Obj Comp) : Hal :=
  let h := h.freePinsOf comp.hdr.id.toInt
  { h with comps := halgFreeObject comp.off h.comps }

/-- `free_comp_struct`. -/
def freeCompStruct (comp : Obj Comp) : Option Errno × Hal :=
  if comp.hdr.refcnt ≠ 0 then (some .EBUSY, h) else
  let id := comp.hdr.id.toInt
  let h := h.freeFunctsOf id
  let h := halgForeach Hal.insts (ownedBy id) (fun off h => h.freeInstAt off) h
  (none, h.freeCompRest comp)

/-- `halg_exit`. What `free_comp_struct` returns is not looked at. -/
def halgExit (compId : ℤ) : Option Errno × Hal :=
  match findById compId h.comps with
  | none => (some .EINVAL, h)
  | some comp => (none, (h.freeCompStruct comp).2)

/-- `halg_inst_delete`. -/
def halgInstDelete (name : String) : Option Errno × Hal :=
  match findByName name h.insts with
  | none => (some .ENOENT, h)
  | some inst => (none, h.freeInstStruct inst)

end Hal

end MachinekitHal
