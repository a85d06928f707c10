import MachinekitHal.Hal.Group

/-!
`hal_vtable.c`: exported vtables.

A vtable is found by its name and version when it is referenced, and by its id when the
reference is given back. `context` is the context of the caller: `0` in the realtime
process, the process id elsewhere.

* `findVtableByName`: the lookup.
* `halgExportVtable`, `halgRemoveVtable`, `halgReferenceVtable`, `halgUnreferenceVtable`:
  the operations.
-/

namespace MachinekitHal

open Store

namespace GroupHal

variable (s : GroupHal)

/-- `halg_find_vtable_by_name`. -/
def findVtableByName (name : String) (version : ℤ) : Option (Obj Vtable) :=
  s.vtables.find? fun v => v.hdr.valid && v.hdr.name == name && v.body.version == version

/-- `halg_export_vtable`: the id of the new vtable. -/
def halgExportVtable (mem : Option Alloc) (name : String) (version : ℤ) (vtref : ℕ)
    (compId context : ℤ) : Except Errno ℤ × GroupHal :=
  if halNameLen < name.length then (.error .EINVAL, s) else
  if vtref = 0 then (.error .EINVAL, s) else
  if s.locked halLockLoad then (.error .EPERM, s) else
  -- make sure no such vtable name already exists
  if (s.findVtableByName name version).isSome then (.error .EEXIST, s) else
  match halgCreateObject mem compId name
      { vtable := vtref, version := version, context := context : Vtable } with
  | none => (.error .ENOMEM, s)
  | some vt => (.ok vt.hdr.id.toInt, { s with vtables := addObject vt s.vtables })

/-- `halg_remove_vtable`. -/
def halgRemoveVtable (vtableId : ℤ) : Option Errno × GroupHal :=
  if s.locked halLockLoad then (some .EPERM, s) else
  match findById vtableId s.vtables with
  | none => (some .ENOENT, s)
  | some vt =>
    -- still referenced?
    if vt.hdr.refcnt ≠ 0 then (some .ENOENT, s)
    else (freeRc vt, s.freeObject vt.off)

/-- `halg_reference_vtable`: the id and the vtable. -/
def halgReferenceVtable (name : String) (version context : ℤ) : Except Errno (ℤ × ℕ) × GroupHal :=
  if halNameLen < name.length then (.error .EINVAL, s) else
  if s.locked halLockLoad then (.error .EPERM, s) else
  match s.findVtableByName name version with
  | none => (.error .ENOENT, s)
  | some vt =>
    -- make sure it's in the proper context
    if vt.body.context ≠ context then (.error .ENOENT, s)
    else (.ok (vt.hdr.id.toInt, vt.body.vtable), s.hoIncref vt.off)

/-- `halg_unreference_vtable`. -/
def halgUnreferenceVtable (vtableId context : ℤ) : Option Errno × GroupHal :=
  match findById vtableId s.vtables with
  | none => (some .ENOENT, s)
  | some vt =>
    -- make sure it's in the proper context
    if vt.body.context ≠ context then (some .ENOENT, s)
    else (none, s.hoDecref vt.off)

end GroupHal

end MachinekitHal
