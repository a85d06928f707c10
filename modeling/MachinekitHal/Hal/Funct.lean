import MachinekitHal.Hal.Data

/-!
`hal_funct.c`, and the deletion of threads in `hal_thread.c`.

A `hal_list_t` of funct entries is a list of entries, in list order; an entry lives
at its offset in HAL memory.

* `halgExportXfunctfv`: the funct is created under the HAL mutex. Its timing pins are
  created after the mutex is released, by calls of `halg_pin_newfv` of their own.
* `halAddFunctToThread`, `halDelFunctFromThread`: the lists of the threads. The memory
  of a new entry is given as an argument.
* `addThread`: what `hal_create_xthread` adds to the list once it succeeded. The
  periods and priorities, the task and the timing pins of a thread are left out.
-/

namespace MachinekitHal

open Store

/-- `hal_export_xfunct_args_t`. -/
structure HalExportXfunctArgs where
  type : FunctSignature
  funct : ℕ
  arg : ℕ
  usesFp : Bool
  reentrant : Bool
  ownerId : ℤ

/-- `rtapi_snprintf(buff, HAL_NAME_LEN, "%s.funct", name)`. -/
def functAlias (name : String) : String :=
  String.ofList ((name ++ ".funct").toList.take (halNameLen - 1))

/-- `k` moves along a list of `len` entries, from its root; the move that reaches the
root again fails. -/
def walk (len : ℕ) : ℕ → Option ℕ
  | 0 => some 0
  | k + 1 =>
    match walk len k with
    | some i => if i = len then none else some (i + 1)
    | none => none

/-- The index at which `hal_add_funct_to_thread` inserts: relative to the start of the
list for a positive position, to its end for a negative one. -/
def insertionPoint (len : ℕ) (position : ℤ) : Option ℕ :=
  if 0 < position then walk len (position.toNat - 1)
  else (walk len ((-position).toNat - 1)).map fun i => len - i

namespace Hal

variable (h : Hal)

/-- Change the descriptor of the funct at `off`. -/
def modifyFunct (off : ℕ) (f : Funct → Funct) : Hal :=
  { h with functs := modify Obj.off off (fun o => { o with body := f o.body }) h.functs }

/-- Change the funct list of the thread at `off`. -/
def modifyList (off : ℕ) (f : List FunctEntry → List FunctEntry) : Hal :=
  { h with
    threads := modify Obj.off off
      (fun o => { o with body := { o.body with functList := f o.body.functList } }) h.threads }

/-- `halpr_find_funct_by_name` as the thread operations use it: by name, else by the
name with `.funct` appended. -/
def findFunct (name : String) : Option (Obj Funct) :=
  match findByName name h.functs with
  | some funct => some funct
  | none => findByName (functAlias name) h.functs

/-- `halg_export_xfunctfv`. -/
def halgExportXfunctfv (mem : Option Alloc) (xf : HalExportXfunctArgs) (name : String) :
    Option Errno × Hal :=
  if h.locked halLockLoad then (some .EPERM, h) else
  if halNameLen < name.length then (some .ENOMEM, h) else
  if (findByName name h.functs).isSome then (some .EINVAL, h) else
  match h.findOwningComp xf.ownerId with
  | none => (some .EINVAL, h)
  | some comp =>
  -- not a realtime component
  if comp.body.type = .typeUser then (some .EINVAL, h) else
  -- instances may export functs post hal_ready
  if (findById xf.ownerId h.insts).isNone ∧
      (comp.body.state = .compUnbound ∨ comp.body.state = .compBound ∨
        comp.body.state = .compReady) then (some .EINVAL, h)
  else
  match halgCreateObject mem xf.ownerId name
      { arg := xf.arg, funct := xf.funct, type := xf.type, usesFp := xf.usesFp
        reentrant := xf.reentrant, users := 0 : Funct } with
  | none => (some .ENOMEM, h)
  | some nf => (none, { h with functs := addObject nf h.functs })

/-- `alloc_funct_entry_struct`: from the free list, else the new memory at `mem`. The
entry is empty. -/
def allocFunctEntryStruct (mem : ℕ) : ℕ × Hal :=
  match h.functEntryFree with
  | e :: rest => (e.off, { h with functEntryFree := rest })
  | [] => (mem, h)

/-- `free_funct_entry_struct`. -/
def freeFunctEntryStruct (e : FunctEntry) : Hal :=
  let h := if 0 < e.functPtr then
      h.modifyFunct e.functPtr fun f => { f with users := f.users - 1 }
    else h
  { h with
    functEntryFree := { e with functPtr := 0, arg := 0, funct := 0 } :: h.functEntryFree }

/-- `dlist_remove_entry` on an entry of the list of the thread at `off`, and
`free_funct_entry_struct`. -/
def removeEntry (off : ℕ) (e : FunctEntry) : Hal :=
  (h.modifyList off fun l => l.erase e).freeFunctEntryStruct e

/-- `hal_add_funct_to_thread`. -/
def halAddFunctToThread (mem : ℕ) (functName threadName : String)
    (position readBarrier writeBarrier : ℤ) : Option Errno × Hal :=
  if h.locked halLockConfig then (some .EPERM, h) else
  if position = 0 then (some .EINVAL, h) else
  match h.findFunct functName with
  | none => (some .EINVAL, h)
  | some funct =>
  -- type-check the functions which go onto threads
  if funct.body.type = .fsUserland then (some .EINVAL, h) else
  -- found the function, is it available?
  if 0 < funct.body.users ∧ funct.body.reentrant = false then (some .EINVAL, h) else
  match findByName threadName h.threads with
  | none => (some .EINVAL, h)
  | some thread =>
  if funct.body.usesFp ∧ thread.body.usesFp = false then (some .EINVAL, h) else
  match insertionPoint thread.body.functList.length position with
  | none => (some .EINVAL, h)
  | some i =>
    let (off, h) := h.allocFunctEntryStruct mem
    let e : FunctEntry :=
      { off := off, rmb := BitVec.ofInt 8 readBarrier, wmb := BitVec.ofInt 8 writeBarrier
        type := funct.body.type, arg := funct.body.arg, funct := funct.body.funct
        functPtr := funct.off }
    let h := h.modifyList thread.off fun l => l.insertIdx i e
    (none, h.modifyFunct funct.off fun f => { f with users := f.users + 1 })

/-- `hal_del_funct_from_thread`: the first entry that points to the funct. -/
def halDelFunctFromThread (functName threadName : String) : Option Errno × Hal :=
  if h.locked halLockConfig then (some .EPERM, h) else
  match h.findFunct functName with
  | none => (some .EINVAL, h)
  | some funct =>
  if funct.body.users = 0 then (some .EINVAL, h) else
  match findByName threadName h.threads with
  | none => (some .EINVAL, h)
  | some thread =>
  match thread.body.functList.find? fun e => e.functPtr = funct.off with
  | none => (some .EINVAL, h)
  | some e => (none, h.removeEntry thread.off e)

/-- Run thru the funct entry list of the thread at `off` and delete the entries that
meet `sel`. -/
def removeEntries (sel : FunctEntry → Bool) (off : ℕ) : Hal :=
  match at? Obj.off off h.threads with
  | none => h
  | some thread =>
    thread.body.functList.foldl (fun h e => if sel e then h.removeEntry off e else h) h

/-- `free_funct_struct`: `thread_cb` on all threads, then the funct itself. -/
def freeFunctStruct (off : ℕ) : Hal :=
  match at? Obj.off off h.functs with
  | none => h
  | some funct =>
    let h := if 0 < funct.body.users then
        halgForeach Hal.threads (fun _ => true)
          (fun thread h => h.removeEntries (fun e => e.functPtr = off) thread) h
      else h
    { h with functs := halgFreeObject off h.functs }

/-- `free_thread_struct`. -/
def freeThreadStruct (off : ℕ) : Hal :=
  let h := h.removeEntries (fun _ => true) off
  { h with threads := halgFreeObject off h.threads }

/-- `halg_exit_thread`: a named thread, or all of them. -/
def halgExitThread (name : Option String) : Option Errno × Hal :=
  if h.locked halLockRun then (some .EPERM, h) else
  let sel : Obj Thread → Bool := fun t => name.all fun n => t.hdr.name == n
  if name.isSome ∧ (h.threads.any fun t => t.hdr.valid && sel t) = false then (some .EINVAL, h)
  else (none, halgForeach Hal.threads sel (fun off h => h.freeThreadStruct off) h)

/-- A thread that was created, with an empty funct list. -/
def addThread (mem : Option Alloc) (name : String) (usesFp : Bool) : Option Errno × Hal :=
  if h.locked halLockConfig then (some .EPERM, h) else
  if halNameLen < name.length then (some .EINVAL, h) else
  if (findByName name h.threads).isSome then (some .EINVAL, h) else
  match halgCreateObject mem 0 name { usesFp := usesFp, functList := [] : Thread } with
  | none => (some .ENOMEM, h)
  | some new => (none, { h with threads := addObject new h.threads })

end Hal

end MachinekitHal
