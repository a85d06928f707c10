import MachinekitHal.Lib.Runs
import MachinekitHal.Ring.Record

/-!
`multiframe.h`: multipart messages over a record ring.

A message is a record that holds its frames one behind the other, each with the
eight bytes of a `frameheader_t` in front. A `msgbuffer_t` is local to a reader or a
writer; here one value holds the fields of both, with the ring they share.

Pointers into the ring are offsets in its storage, `none` is a null pointer.

* `MsgSys`: a message buffer, what its two users hold, and the history.
* `MsgSys.step`: one call of a user, or a store to the frame begun. `frame_write` is
  three of them (`frameWrite_run`).
-/

namespace MachinekitHal

open Bytes Word Runs

/-- `msgbuffer_t`. -/
structure MsgBuf where
  ring : RecordRing
  /-- `_write` -/
  write : Option ℕ
  writeSize : ℕ
  writeOff : ℕ
  /-- `_read` -/
  read : Option ℕ
  readSize : ℕ
  readOff : ℕ

namespace MsgBuf

/-- `msgbuffer_init`. -/
def init (ring : RecordRing) : MsgBuf :=
  { ring := ring, write := none, writeSize := 0, writeOff := 0, read := none, readSize := 0,
    readOff := 0 }

/-- The storage of the ring replaced. -/
def setBuf (m : MsgBuf) (buf : Mem) : MsgBuf := { m with ring := { m.ring with buf := buf } }

section setBuf

variable (m : MsgBuf) (buf : Mem)

@[simp] lemma setBuf_ring : (m.setBuf buf).ring = { m.ring with buf := buf } := rfl

@[simp] lemma setBuf_write : (m.setBuf buf).write = m.write := rfl

@[simp] lemma setBuf_writeSize : (m.setBuf buf).writeSize = m.writeSize := rfl

@[simp] lemma setBuf_writeOff : (m.setBuf buf).writeOff = m.writeOff := rfl

end setBuf

/-- The first frame of a message allocates in the record ring. -/
def frameAlloc (m : MsgBuf) (sz : ℕ) : Except Errno (MsgBuf × ℕ) :=
  match m.write with
  | some w => .ok (m, w)
  | none =>
    match m.ring.recordWriteBegin sz with
    | .error e => .error e
    | .ok w => .ok ({ m with write := some w, writeSize := sz, writeOff := 0 }, w)

/-- A frame that does not fit what is allocated at `w` reallocates. -/
def frameRealloc (m : MsgBuf) (w sz : ℕ) : Except Errno MsgBuf :=
  match m.ring.recordWriteBegin (wrap32 (m.writeOff + sz)) with
  | .error e => .error e
  | .ok w' =>
    let buf := if w ≠ w' then
        storeBytes m.ring.buf w' (loadBytes m.ring.buf w m.writeOff)
      else m.ring.buf
    .ok { m.setBuf buf with write := some w', writeSize := wrap32 (m.writeOff + sz) }

/-- `frame_write_begin`: the message buffer it leaves behind, and the data pointer. The
address of the frame header is computed before the reallocation. -/
def frameWriteBegin (m : MsgBuf) (size flags : ℕ) : MsgBuf × Except Errno ℕ :=
  let sz := wrap32 (size + 8)
  match m.frameAlloc sz with
  | .error e => (m, .error e)
  | .ok (m, w) =>
    let frame := w + m.writeOff
    -- compared as `size_t`
    match if m.writeSize < m.writeOff + 8 + size then m.frameRealloc w sz else .ok m with
    | .error e => (m, .error e)
    | .ok m =>
      (m.setBuf (store32 (store32 m.ring.buf frame size) (frame + 4) flags),
        .ok (frame + 8))

/-- `frame_write_end`. The frame header is looked for at `_write`, taken as a pointer to a
`frameheader_t`, plus `write_off`: at eight times that many bytes. -/
def frameWriteEnd (m : MsgBuf) (size : ℕ) : Except Errno MsgBuf :=
  match m.write with
  | none => .error .EINVAL
  | some w =>
    .ok { m.setBuf (store32 m.ring.buf (w + 8 * m.writeOff) size) with
      writeOff := wrap32 (m.writeOff + 8 + size) }

/-- `frame_write`. -/
def frameWrite (m : MsgBuf) (bs : List UInt8) (flags : ℕ) : MsgBuf × Except Errno Unit :=
  match m.frameWriteBegin bs.length flags with
  | (m, .error e) => (m, .error e)
  | (m, .ok ptr) =>
    let m := m.setBuf (storeBytes m.ring.buf ptr bs)
    match m.frameWriteEnd bs.length with
    | .error e => (m, .error e)
    | .ok m => (m, .ok ())

/-- `msg_write_flush`. A null pointer is not the address behind the first size word. -/
def msgWriteFlush (m : MsgBuf) : MsgBuf :=
  { m with ring := m.ring.recordWriteEnd (m.write.getD 0) m.writeOff, write := none }

/-- `msg_write_abort`. -/
def msgWriteAbort (m : MsgBuf) : MsgBuf := { m with write := none }

/-- The second half of `frame_read`: data pointer, size and flags of the next frame of the
record at `d`. -/
def frameAt (m : MsgBuf) (d : ℕ) : Except Errno (ℕ × ℕ × ℕ) :=
  if m.readOff = m.readSize then .error .EAGAIN
  else
    let frame := d + m.readOff
    .ok (frame + 8, load32 m.ring.buf frame, load32 m.ring.buf (frame + 4))

/-- `frame_read`, `none` if it does not return. -/
def frameRead (m : MsgBuf) : Option (MsgBuf × Except Errno (ℕ × ℕ × ℕ)) :=
  match m.read with
  | some d => some (m, m.frameAt d)
  | none =>
    match m.ring.recordRead with
    | none => none
    | some (.error e) => some (m, .error e)
    | some (.ok (size, d)) =>
      let m := { m with read := some d, readSize := size, readOff := 0 }
      some (m, m.frameAt d)

/-- `frame_shift`. -/
def frameShift (m : MsgBuf) : Except Errno MsgBuf :=
  match m.read with
  | none => .error .EINVAL
  | some d =>
    if m.readOff = m.readSize then .error .EINVAL
    else .ok { m with
      readOff := wrap32 (m.readOff + 8 + load32 m.ring.buf (d + m.readOff)) }

/-- `msg_read_flush`, `none` if it does not return. -/
def msgReadFlush (m : MsgBuf) : Option (MsgBuf × Except Errno Unit) :=
  match m.read with
  | none => some (m, .error .EINVAL)
  | some _ =>
    let m := { m with read := none }
    match m.ring.recordShift with
    | none => none
    | some (.error e) => some (m, .error e)
    | some (.ok ring) => some ({ m with ring := ring }, .ok ())

end MsgBuf

/-! ### The users of a message buffer -/

/-- A frame: its flags and its payload. -/
structure Frame where
  flags : ℕ
  bytes : List UInt8
  deriving DecidableEq

/-- The bytes of a frame: a `frameheader_t` and the payload. -/
def Frame.encode (f : Frame) : List UInt8 := le32 f.bytes.length ++ (le32 f.flags ++ f.bytes)

/-- The bytes of a message. -/
def encodeMsg (fs : List Frame) : List UInt8 := fs.flatMap Frame.encode

/-- The data pointer, size and flags of a frame begun. -/
structure Opened where
  data : ℕ
  size : ℕ
  flags : ℕ

/-- A message buffer, its users, and the history. -/
structure MsgSys where
  mb : MsgBuf
  /-- the frame begun and not ended -/
  opened : Option Opened
  /-- the result of the writer's last call, `none` for `0` -/
  wret : Option Errno
  /-- the result of the reader's last call, `none` for `0` -/
  rret : Option Errno
  /-- the frame the last `frame_read` gave the reader -/
  got : Option Frame
  /-- the frames of the message in progress -/
  pending : List Frame
  /-- the messages sent off -/
  sent : List (List Frame)
  /-- the frames obtained of the message being read -/
  current : List Frame
  /-- the messages obtained -/
  obtained : List (List Frame)

/-- The calls, and the stores to the frame begun. -/
inductive MsgOp where
  | frameWriteBegin (size flags : ℕ)
  /-- the writer stores `bs` to the frame begun, from byte `i` on -/
  | fill (i : ℕ) (bs : List UInt8)
  | frameWriteEnd (c : ℕ)
  | msgWriteFlush
  | frameRead
  | frameShift
  | msgReadFlush

namespace MsgSys

/-- Both users idle on a ring just set up. -/
def init (ring : RecordRing) : MsgSys :=
  { mb := .init ring, opened := none, wret := none, rret := none, got := none, pending := [],
    sent := [], current := [], obtained := [] }

/-- One call, or one store to the frame begun. The writer ends each frame it begins, and
sends off messages of at least one frame; the reader shifts the frames it read and flushes
the message when `frame_read` returns `EAGAIN`. -/
def step (s : MsgSys) : MsgOp → Option MsgSys
  | .frameWriteBegin size flags =>
    if s.opened.isNone ∧ size < 4294967296 ∧ flags < 4294967296 then
      match s.mb.frameWriteBegin size flags with
      | (mb, .error e) => some { s with mb := mb, wret := some e }
      | (mb, .ok data) =>
        some { s with mb := mb, wret := none, opened := some ⟨data, size, flags⟩ }
    else none
  | .fill i bs =>
    match s.opened with
    | none => none
    | some o =>
      if i + bs.length ≤ o.size then
        some { s with mb := s.mb.setBuf (storeBytes s.mb.ring.buf (o.data + i) bs) }
      else none
  | .frameWriteEnd c =>
    match s.opened with
    | none => none
    | some o =>
      if c ≤ o.size then
        match s.mb.frameWriteEnd c with
        | .error e => some { s with opened := none, wret := some e }
        | .ok mb =>
          let f : Frame := ⟨o.flags, loadBytes s.mb.ring.buf o.data c⟩
          some { s with
            mb := mb, opened := none, wret := none, pending := s.pending ++ [f] }
      else none
  | .msgWriteFlush =>
    if s.opened.isNone ∧ s.pending ≠ [] then
      some { s with
        mb := s.mb.msgWriteFlush, wret := none, pending := [], sent := s.sent ++ [s.pending] }
    else none
  | .frameRead =>
    match s.mb.frameRead with
    | none => none
    | some (mb, .error e) => some { s with mb := mb, rret := some e, got := none }
    | some (mb, .ok (data, size, flags)) =>
      some { s with
        mb := mb, rret := none, got := some ⟨flags, loadBytes mb.ring.buf data size⟩ }
  | .frameShift =>
    match s.got with
    | none => none
    | some f =>
      match s.mb.frameShift with
      | .error e => some { s with rret := some e, got := none }
      | .ok mb =>
        some { s with mb := mb, rret := none, got := none, current := s.current ++ [f] }
  | .msgReadFlush =>
    if s.rret = some .EAGAIN ∧ s.mb.read.isSome then
      match s.mb.msgReadFlush with
      | none => none
      | some (mb, .error e) => some { s with mb := mb, rret := some e, current := [] }
      | some (mb, .ok ()) =>
        some { s with
          mb := mb, rret := none, current := [], obtained := s.obtained ++ [s.current] }
    else none

end MsgSys

/-- `frame_write` is `frame_write_begin`, a store of the whole payload, and
`frame_write_end`. -/
theorem frameWrite_run {s : MsgSys} {mb : MsgBuf} {bs : List UInt8} {flags : ℕ}
    (hopened : s.opened = none) (hsize : bs.length < 4294967296) (hflags : flags < 4294967296)
    (hw : s.mb.frameWrite bs flags = (mb, .ok ())) :
    ∃ t, run MsgSys.step (fun _ _ => true) s
        [.frameWriteBegin bs.length flags, .fill 0 bs, .frameWriteEnd bs.length] = some t ∧
      t.mb = mb ∧ t.pending = s.pending ++ [⟨flags, bs⟩] := by
  rw [MsgBuf.frameWrite] at hw
  cases hbegin : s.mb.frameWriteBegin bs.length flags with
  | mk m res =>
    cases res with
    | error e => simp [hbegin] at hw
    | ok ptr =>
      simp only [hbegin] at hw
      cases hend : (m.setBuf (storeBytes m.ring.buf ptr bs)).frameWriteEnd bs.length with
      | error e => simp [hend] at hw
      | ok m' =>
        simp only [hend, Prod.mk.injEq, and_true] at hw
        subst hw
        refine ⟨{ s with
          mb := m', opened := none, wret := none
          pending := s.pending ++ [⟨flags, bs⟩] }, ?_, rfl, rfl⟩
        simp [run, MsgSys.step, hopened, hsize, hflags, hbegin, hend, loadBytes_storeBytes]

end MachinekitHal
