import MachinekitHal.Hal.Ring

/-!
`hal_ring.c`: HAL plugs.

A plug is a HAL object with a ringbuffer attached to a ring. It marks itself in the ring's
header, as the reader or as the writer; a second plug of the same role overwrites the mark.

* `halgPlugNew`, `halgPlugDelete`: the operations, on the HAL state with plugs `PlugHal`.
* `PlugAct`, `plugStep`: the calls on rings and plugs.

A ringbuffer is known by a number; that of a plug is the offset of the plug (`plugRb`). The
multiframe accessor of a plug, which is local to it, is left out.
-/

namespace MachinekitHal

open Store

/-- `hal_plugtype_t`. -/
inductive PlugRole where
  | plugReader | plugWriter
  deriving DecidableEq

/-- `hal_plug_t`, less the ringbuffer. -/
structure HalPlug where
  flags : ℕ
  ringId : ℤ
  role : PlugRole
  deriving DecidableEq

/-- The HAL state with rings and plugs. -/
structure PlugHal extends RingHal where
  plugs : List (Obj HalPlug)

/-- `plug_args_t`, less the owner. -/
structure PlugArgs where
  type : PlugRole
  flags : ℕ
  ringName : Option String
  ringId : ℤ

/-- What the environment answers during `halg_plug_new`: what the allocators do, the object
that the search for the owner among the objects of all types finds, and the pointer that is in
the memory of the variable `plug` before it is set, if that is not NULL. -/
structure PlugEnv extends RingEnv where
  owner : Option Halhdr
  stale : Option ℕ

/-- `RINGTYPE_ANY`. -/
def ringtypeAny : ℕ := 3

/-- The last part of the name of a plug. -/
def PlugRole.tag : PlugRole → String
  | .plugWriter => "write"
  | .plugReader => "read"

/-- The mark for a role. -/
def RingHeader.user (rh : RingHeader) : PlugRole → ℤ
  | .plugWriter => rh.writer
  | .plugReader => rh.reader

/-- Mark a header. -/
def RingHeader.mark (rh : RingHeader) (role : PlugRole) (id : ℤ) : RingHeader :=
  match role with
  | .plugWriter => { rh with writer := id }
  | .plugReader => { rh with reader := id }

/-- Take the marks of `self` away. -/
def RingHeader.unmark (rh : RingHeader) (self : ℤ) : RingHeader :=
  { rh with writer := if rh.writer = self then 0 else rh.writer
            reader := if rh.reader = self then 0 else rh.reader }

/-- `&plug->rb`. -/
def plugRb (plug : ℕ) : ℕ := plug

namespace PlugHal

variable (s : PlugHal)

/-- The ring of a new plug, by name or by id. -/
def plugRing (args : PlugArgs) : Option (Obj HalRing) :=
  match args.ringName with
  | some name => findByName name s.ringObjs
  | none => findById args.ringId s.ringObjs

/-- The tests of `halg_plug_new` before it allocates: the ring and the name of the plug, if
there is the ring, the name is short enough and new, and the types agree. -/
def plugChecks (args : PlugArgs) (owner : Halhdr) : Option (Obj HalRing × String) :=
  match s.plugRing args with
  | none => none
  | some ring =>
    match fmtAp 127 (ring.hdr.name ++ "." ++ owner.name ++ "." ++ args.type.tag) with
    | none => none
    | some plugname =>
      match findByName plugname s.plugs with
      | some _ => none
      | none =>
        let wanted := args.flags % 4
        let ringIs := ring.body.flags % 4
        if wanted ≠ ringtypeAny ∧ wanted ≠ ringIs then none else some (ring, plugname)

/-- The `FAIL` exit of `halg_plug_new`. Before the allocation the `goto` passes by the
initialization of `plug`, which is then whatever was in its memory; freed are rings and plugs,
the objects of this model. -/
def plugFail (plug : Option ℕ) : PlugHal :=
  match plug with
  | some off => { s with ringObjs := halgFreeObject off s.ringObjs
                         plugs := halgFreeObject off s.plugs }
  | none => s

/-- What the descriptor allocator promises for a plug. -/
def fresh (mem : Option Alloc) : Bool :=
  s.toRingHal.fresh mem &&
    mem.all fun m => m.off ∉ s.plugs.map Obj.off && !(s.bufs (plugRb m.off)).magic

end PlugHal

/-- `halg_plug_new`: the offset of the new plug, or NULL. -/
def halgPlugNew (e : PlugEnv) (args : PlugArgs) (s : PlugHal) : Option ℕ × PlugHal :=
  if s.locked halLockLoad then (none, s) else
  match e.owner with
  | none => (none, s)
  | some owner =>
    match s.plugChecks args owner with
    | none => (none, s.plugFail e.stale)
    | some (ring, plugname) =>
      let body : HalPlug := { flags := args.flags, ringId := ring.hdr.id.toInt, role := args.type }
      match halgCreateObject e.desc owner.id.toInt plugname body with
      | none => (none, s.plugFail none)
      | some plug =>
        let rb := plugRb plug.off
        match halgRingAttachfv e.toRingEnv (some rb) ring.hdr.name s.toRingHal with
        -- the descriptor that is freed here is not on the list yet
        | (some _, t) => (none, { s with toRingHal := t })
        | (none, t) =>
          let loc := (t.bufs rb).header
          let t := t.setHeader loc ((t.headerAt loc).mark args.type plug.hdr.id.toInt)
          (some plug.off, { s with toRingHal := t, plugs := addObject plug s.plugs })

/-- `halg_plug_delete` of what is at an offset. The ringbuffer of a plug on the list was
attached once, so its header is not NULL; the return value of `halg_ring_detach` is
ignored. -/
def halgPlugDelete (plug : ℕ) (s : PlugHal) : Option Errno × PlugHal :=
  if s.locked halLockLoad then (some .EPERM, s) else
  match at? Obj.off plug s.plugs with
  | none => (some .EINVAL, s)
  | some o =>
    if o.hdr.valid = false then (some .EINVAL, s)
    else
      let loc := (s.bufs (plugRb plug)).header
      let t := s.toRingHal.setHeader loc ((s.headerAt loc).unmark o.hdr.id.toInt)
      let t := (halgRingDetach (plugRb plug) t).2
      (freeRc o, { s with toRingHal := t, plugs := halgFreeObject plug s.plugs })

/-- The calls on rings and plugs. -/
inductive PlugAct where
  | ring (a : RingAct)
  | plugNew (e : PlugEnv) (args : PlugArgs)
  | plugDelete (plug : ℕ)

/-- What the HAL memory allocator promises for a new ring: no ring is there. -/
def RingHal.ringmemFresh (s : RingHal) (ringmem : Option ℕ) : Bool :=
  ringmem.all fun off => s.ringObjs.all fun o =>
    !o.hdr.valid || o.body.flags &&& allocHalmem = 0 || o.body.ringOffset ≠ off

/-- One call; the allocators return unused memory. `hal_sweep` collects rings and plugs. -/
def plugStep (s : PlugHal) : PlugAct → Option PlugHal
  | .ring .sweep => some { s with ringObjs := sweep s.ringObjs, plugs := sweep s.plugs }
  | .ring (.ringNewfv e size spSize mode fmt) =>
    if s.ringmemFresh e.ringmem then
      (ringStep s.toRingHal (.ringNewfv e size spSize mode fmt)).map fun t =>
        { s with toRingHal := t }
    else none
  | .ring a => (ringStep s.toRingHal a).map fun t => { s with toRingHal := t }
  | .plugNew e args => if s.fresh e.desc then some (halgPlugNew e args s).2 else none
  | .plugDelete plug => some (halgPlugDelete plug s).2

end MachinekitHal
