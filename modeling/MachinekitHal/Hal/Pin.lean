import MachinekitHal.Hal.Data

/-!
`hal_pin.c` and the pin accessors of `hal_priv.h`.

* `pinValue`, `pinIsLinked`, `pinLinkedTo`: the accessors.
* `halgPinNewfv`: pin creation, legacy (`data_ptr_addr` given) and v2.
* `unlinkPin`, `freePinStruct`: unlinking and deletion.
-/

namespace MachinekitHal

open Store

/-- `pin_is_linked`. -/
def pinIsLinked (pin : Obj Pin) : Bool := pin.body.dataPtr ≠ .dummysig pin.off

/-- `pin_linked_to`, for the signal at `sig`. -/
def pinLinkedTo (sig : ℕ) (pin : Obj Pin) : Bool := pin.body.signal == sig

/-- What unlinking and linking write to the pin: its data pointer, its signal and its
dummy signal. -/
def Pin.point (p : Pin) (dataPtr : DataRef) (signal : ℕ) (dummysig : HalDataU) : Pin :=
  { p with dataPtr := dataPtr, signal := signal, dummysig := dummysig }

/-- The reader, writer and bidir counts after a pin of direction `dir` was linked. -/
def Sig.count (g : Sig) (dir : HalPinDir) : Sig :=
  { g with
    readers := if dir.hasIn then g.readers + 1 else g.readers
    writers := if dir = .halOut then g.writers + 1 else g.writers
    bidirs := if dir = .halIo then g.bidirs + 1 else g.bidirs }

/-- The reader, writer and bidir counts after a pin of direction `dir` was unlinked. -/
def Sig.uncount (g : Sig) (dir : HalPinDir) : Sig :=
  { g with
    readers := if dir.hasIn then g.readers - 1 else g.readers
    writers := if dir = .halOut then g.writers - 1 else g.writers
    bidirs := if dir = .halIo then g.bidirs - 1 else g.bidirs }

namespace Hal

variable (h : Hal)

/-- `pin_value`: the value behind the pin. -/
def pinValue (pin : Obj Pin) : HalDataU :=
  if pin.body.signal ≠ 0 then
    match h.sigAt pin.body.signal with
    | some sig => sig.body.value
    | none => 0
  else pin.body.dummysig

/-- Change the descriptor of the pin at `off`. -/
def modifyPin (off : ℕ) (f : Pin → Pin) : Hal :=
  { h with pins := modify Obj.off off (fun o => { o with body := f o.body }) h.pins }

/-- Change the descriptor of the signal at `off`. -/
def modifySig (off : ℕ) (f : Sig → Sig) : Hal :=
  { h with sigs := modify Obj.off off (fun o => { o with body := f o.body }) h.sigs }

variable {h} in
/-- A write to a signal, read back. -/
lemma modifySig_sigAt {off : ℕ} (f : Sig → Sig) (off' : ℕ) :
    (h.modifySig off' f).sigAt off =
      if off' = off then (h.sigAt off).map fun o => { o with body := f o.body }
      else h.sigAt off :=
  at?_modify fun _ => rfl

variable {h} in
/-- A write to a pin, read back. -/
lemma modifyPin_pinAt {off : ℕ} (f : Pin → Pin) (off' : ℕ) :
    (h.modifyPin off' f).pinAt off =
      if off' = off then (h.pinAt off).map fun o => { o with body := f o.body }
      else h.pinAt off :=
  at?_modify fun _ => rfl

/-- `*data_ptr_addr = comp->shmem_base + off` for a legacy pin, nothing for a v2 pin. -/
def setCell (pin : Obj Pin) (ref : DataRef) : Hal :=
  match pin.hdr.legacy, pin.body.dataPtrAddr, h.findOwningComp pin.hdr.ownerId.toInt with
  | true, some a, some comp =>
    { h with cells := Function.update h.cells a (some ⟨comp.body.shmemBase, ref⟩) }
  | _, _, _ => h

/-- `SHMCHK(p)`, the address taken relative to the base of the segment. -/
def shmchk (a : ℤ) : Bool := 0 < a ∧ a < h.halSize

/-- The pin `halg_pin_newfv` adds to the list. -/
def newPin (pin : Obj Pin) (dataPtrAddr : Option ℤ) : Obj Pin :=
  { pin with
    hdr := { pin.hdr with legacy := dataPtrAddr.isSome }
    body := { pin.body with
      dataPtrAddr := dataPtrAddr.map Int.toNat
      dataPtr := .dummysig pin.off } }

/-- `halg_pin_newfv`. A `data_ptr_addr` that holds a pointer already is reported, but
used. -/
def halgPinNewfv (mem : Option Alloc) (type : HalType) (dir : HalPinDir)
    (dataPtrAddr : Option ℤ) (ownerId : ℤ) (defval : HalDataU) (name : String) :
    Option Errno × Hal :=
  if h.locked halLockLoad then (some .EPERM, h) else
  match fmtAp 128 name with
  | none => (some .E2BIG, h)
  | some name =>
  if !halValidType type then (some .EINVAL, h) else
  if !halValidDir dir then (some .EINVAL, h) else
  if (findByName name h.pins).isSome then (some .EEXIST, h) else
  match h.findOwningComp ownerId with
  | none => (some .EINVAL, h)
  | some _ =>
  -- the v2 pins don't use data_ptr_addr
  if !(dataPtrAddr.all h.shmchk) then (some .EINVAL, h) else
  match halgCreateObject mem ownerId name
      { dataPtrAddr := none, dataPtr := .dummysig 0, signal := 0, dummysig := defval
        type := type, dir := dir : Pin } with
  | none => (some .ENOMEM, h)
  | some new =>
    let pin := newPin new dataPtrAddr
    let h := h.setCell pin (.dummysig pin.off)
    (none, { h with pins := addObject pin h.pins })

/-- `unlink_pin`. The value is left alone if the type has no case in the copy. -/
def unlinkPin (off : ℕ) : Hal :=
  match h.pinAt off with
  | none => h
  | some pin =>
    if pinIsLinked pin then
      let sig := pin.body.signal
      let dummy := (copyValue pin.body.type pin.body.dummysig (h.pinValue pin)).getD
        pin.body.dummysig
      ((h.setCell pin (.dummysig off)).modifySig sig (Sig.uncount · pin.body.dir)).modifyPin off
        (Pin.point · (.dummysig off) 0 dummy)
    else h

/-- `free_pin_struct`. -/
def freePinStruct (off : ℕ) : Hal :=
  let h := h.unlinkPin off
  { h with pins := halgFreeObject off h.pins }

end Hal

end MachinekitHal
