import MachinekitHal.Hal.Pin

/-!
`hal_signal.c`: signals and links.

* `halgSignalNew`, `halgSignalDelete`, `freeSigStruct`: signals.
* `halgLink`, `halgUnlink`: links; `linkPin` is what a link that passes all checks
  does.
* `propagateBarriers`: barrier inheritance on linking.
-/

namespace MachinekitHal

open Store

/-- `propagate_barriers_cb`: the header of a pin of direction `dir` after it inherited
from the header of the signal. -/
def Halhdr.inherit (pin sig : Halhdr) (dir : HalPinDir) : Halhdr :=
  match dir with
  | .halIn => { pin with rmb := if sig.rmb then sig.rmb else pin.rmb }
  | .halOut => { pin with wmb := if sig.wmb then sig.rmb else pin.wmb }
  | .halIo =>
    { pin with
      rmb := if sig.rmb then sig.rmb else pin.rmb
      wmb := if sig.wmb then sig.rmb else pin.wmb }
  | .halDirUnspecified => pin

namespace Hal

variable (h : Hal)

/-- `halg_foreach_pin_by_signal` for the signal at `sig`. -/
def foreachPinBySignal (sig : ℕ) (cb : ℕ → Hal → Hal) : Hal :=
  halgForeach Hal.pins (pinLinkedTo sig) cb h

/-- `propagate_barriers_cb` on the pin at `off`. -/
def propagateBarriersCb (sig : Halhdr) (off : ℕ) : Hal :=
  { h with
    pins := modify Obj.off off (fun o => { o with hdr := o.hdr.inherit sig o.body.dir }) h.pins }

/-- `halg_signal_propagate_barriers`. -/
def propagateBarriers (sig : Obj Sig) : Hal :=
  h.foreachPinBySignal sig.off fun off h => h.propagateBarriersCb sig.hdr off

/-- `halg_signal_new`. -/
def halgSignalNew (mem : Option Alloc) (name : String) (type : HalType) : Option Errno × Hal :=
  if h.locked halLockConfig then (some .EPERM, h) else
  if halNameLen < name.length then (some .EINVAL, h) else
  if (findByName name h.sigs).isSome then (some .EINVAL, h) else
  match halgCreateObject mem 0 name
      { type := type, value := 0, readers := 0, writers := 0, bidirs := 0 : Sig } with
  | none => (some .ENOMEM, h)
  | some new =>
    match type with
    | .halBit | .halS32 | .halU32 | .halFloat =>
      (none, { h with sigs := addObject new h.sigs })
    -- the object was never added, so nothing of it is left
    | _ => (some .EINVAL, h)

/-- `free_sig_struct`: unlink any pins linked to this signal, then free it. -/
def freeSigStruct (sig : Obj Sig) : Option Errno × Hal :=
  let h := h.foreachPinBySignal sig.off fun off h => h.unlinkPin off
  (freeRc sig, { h with sigs := halgFreeObject sig.off h.sigs })

/-- `halg_signal_delete`. -/
def halgSignalDelete (name : String) : Option Errno × Hal :=
  if h.locked halLockConfig then (some .EPERM, h) else
  if halNameLen < name.length then (some .EINVAL, h) else
  match findByName name h.sigs with
  | none => (some .ENOENT, h)
  | some sig => h.freeSigStruct sig

/-- The new link of `halg_link`: everything is OK. -/
def linkPin (pin : Obj Pin) (sig : Obj Sig) : Option Errno × Hal :=
  let ref := DataRef.value sig.off
  let h := (h.setCell pin ref).modifyPin pin.off fun p => { p with dataPtr := ref }
  -- the first pin, or the first OUT pin, gives the signal its value
  let inherits := pin.body.dir = .halOut ∨
    sig.body.readers + sig.body.writers + sig.body.bidirs = 0
  match if inherits then copyValue pin.body.type sig.body.value (h.pinValue pin)
      else some sig.body.value with
  | none => (some .EINVAL, h)
  | some v =>
    let h := h.modifySig sig.off fun g => { g.count pin.body.dir with value := v }
    let h := h.modifyPin pin.off fun p => { p with signal := sig.off }
    (none, h.propagateBarriers sig)

/-- `halg_link`. -/
def halgLink (pinName sigName : String) : Option Errno × Hal :=
  if h.locked halLockConfig then (some .EPERM, h) else
  if halNameLen < pinName.length then (some .EINVAL, h) else
  if halNameLen < sigName.length then (some .EINVAL, h) else
  match findByName pinName h.pins with
  | none => (some .EINVAL, h)
  | some pin =>
  match findByName sigName h.sigs with
  | none => (some .EINVAL, h)
  | some sig =>
  -- found both pin and signal, are they already connected?
  if pinLinkedTo sig.off pin then (none, h) else
  -- is the pin connected to something else?
  if pinIsLinked pin then (some .EINVAL, h) else
  if pin.body.type ≠ sig.body.type then (some .EINVAL, h) else
  if pin.body.dir = .halOut ∧ (0 < sig.body.writers ∨ 0 < sig.body.bidirs) then
    (some .EINVAL, h)
  else if pin.body.dir = .halIo ∧ 0 < sig.body.writers then (some .EINVAL, h)
  else h.linkPin pin sig

/-- `halg_unlink`. -/
def halgUnlink (pinName : String) : Option Errno × Hal :=
  if h.locked halLockConfig then (some .EPERM, h) else
  if halNameLen < pinName.length then (some .EINVAL, h) else
  match findByName pinName h.pins with
  | none => (some .EINVAL, h)
  | some pin => (none, h.unlinkPin pin.off)

end Hal

end MachinekitHal
