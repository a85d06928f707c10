import MachinekitHal.Basic
import MachinekitHal.Lib.Bytes
import MachinekitHal.Ring.Layout

/-!
`ring.h`: the operations of a record ring, each as one step.

The shared data of a record ring are the head and generation of its header, the
tail of its trailer and the storage. A data pointer is modelled by its offset in
the storage. What the operations do when reader and writer run at the same time is the subject
of `Interleaving.lean`.

`_ring_read_at` and `_ring_shift_offset` call themselves at offset `0` when they
meet a wrap mark. A second wrap mark there would repeat the same call for ever,
so two levels decide the result; `none` is "does not return".
-/

namespace MachinekitHal

open Bytes Word

/-- The wrap mark, the size word `-1`. -/
def wrapMark : ℕ := 4294967295

/-- A size word read as `rrecsize_t` is negative. -/
def isNegative (v : ℕ) : Bool := 2147483648 ≤ v

/-- The data of a record ring. -/
structure RecordRing where
  size : ℕ
  head : ℕ
  tail : ℕ
  generation : ℕ
  buf : Mem

/-- `ringheader_init` of a record ring whose storage holds `buf`, which is not
cleared. -/
def RecordRing.init (flags size : ℕ) (buf : Mem) : RecordRing :=
  { size := ringStorageAlloc flags size, head := 0, tail := 0, generation := 0, buf := buf }

/-- The free space as `record_write_begin` computes it from `head` and `tail`. -/
def freeSpace (size head tail : ℕ) : ℕ :=
  sub32 (sub32 (wrap32 (size + head)) tail) 1 % size + 1

/-- `rtapi_inc_u64` of the generation counter. -/
def incGeneration (g : ℕ) : ℕ := (g + 1) % 18446744073709551616

namespace RecordRing

/-- `record_write_begin`: the offset of the buffer to write to. -/
def recordWriteBegin (r : RecordRing) (sz : ℕ) : Except Errno ℕ :=
  let a := recordUsage sz
  -- record too large for ring?
  if r.size < a then .error .ERANGE
  else if freeSpace r.size r.head r.tail ≤ a then .error .EAGAIN
  -- would the write wrap around the end of ring?
  else if r.size < wrap32 (r.tail + a) then
    if r.head ≤ a then .error .EAGAIN else .ok 4
  else .ok (r.tail + 4)

/-- `record_write_end`: commit `sz` bytes at `data`. -/
def recordWriteEnd (r : RecordRing) (data sz : ℕ) : RecordRing :=
  -- the write was at the beginning of the buffer: invalidate the tail record
  let r := if data = 4 then
      { r with buf := store32 r.buf r.tail wrapMark, tail := 0 }
    else r
  { r with
    buf := store32 r.buf r.tail sz
    tail := wrap32 (r.tail + recordUsage sz) % r.size }

/-- `record_write`: copying write. -/
def recordWrite (r : RecordRing) (bs : List UInt8) : Except Errno RecordRing :=
  match r.recordWriteBegin bs.length with
  | .error e => .error e
  | .ok data => .ok ({ r with buf := storeBytes r.buf data bs }.recordWriteEnd data bs.length)

/-- `_ring_read_at`: size and data offset of the record at `offset`, with at most
`fuel` nested calls. -/
def ringReadAt (r : RecordRing) : ℕ → ℕ → Option (Except Errno (ℕ × ℕ))
  | 0, _ => none
  | fuel + 1, offset =>
    if offset = r.tail then some (.error .EAGAIN)
    else if isNegative (load32 r.buf offset) then ringReadAt r fuel 0
    else some (.ok (load32 r.buf offset, offset + 4))

/-- `record_read`. -/
def recordRead (r : RecordRing) : Option (Except Errno (ℕ × ℕ)) := r.ringReadAt 2 r.head

/-- The offset of the record behind the one at `offset` whose size word is `v`. -/
def offsetAfter (size offset v : ℕ) : ℕ :=
  wrap32 (offset + sizeAligned (wrap32 (v + 4))) % size

/-- `_ring_shift_offset`: the offset behind the record at `offset`, with at most
`fuel` nested calls. Every level tests the head of the ring, not `offset`. -/
def ringShiftOffset (r : RecordRing) : ℕ → ℕ → Option (Except Errno ℕ)
  | 0, _ => none
  | fuel + 1, offset =>
    if r.head = r.tail then some (.error .EAGAIN)
    else if isNegative (load32 r.buf offset) then ringShiftOffset r fuel 0
    else
      let off := offsetAfter r.size offset (load32 r.buf offset)
      if isNegative off then some (.error .EAGAIN) else some (.ok off)

/-- `record_shift`: consume a record. -/
def recordShift (r : RecordRing) : Option (Except Errno RecordRing) :=
  (r.ringShiftOffset 2 r.head).map fun
    | .error e => .error e
    | .ok off => .ok { r with generation := incGeneration r.generation, head := off }

/-- `record_flush_reader`, whose loop ends after fewer than `fuel` records. -/
def recordFlushReader : ℕ → RecordRing → Option RecordRing
  | 0, _ => none
  | fuel + 1, r =>
    match r.recordShift with
    | none => none
    | some (.error _) => some r
    | some (.ok r') => recordFlushReader fuel r'

/-- `record_flush`, whose compare-and-swap succeeds when nobody interferes. -/
def recordFlush (r : RecordRing) : RecordRing :=
  { r with generation := incGeneration r.generation, head := r.tail }

end RecordRing

/-! ### The free space -/

lemma freeSpace_straight {size head tail : ℕ} (h1 : head ≤ tail) (h2 : tail < size)
    (h3 : size < 2147483648) : freeSpace size head tail = size - (tail - head) := by
  have h : sub32 (sub32 (wrap32 (size + head)) tail) 1 = size + head - tail - 1 := by
    rw [sub32, sub32, wrap32]; omega
  rw [freeSpace, h, Nat.mod_eq_of_lt (by omega)]
  omega

lemma freeSpace_wrapped {size head tail : ℕ} (h1 : tail < head) (h2 : head < size)
    (h3 : size < 2147483648) : freeSpace size head tail = head - tail := by
  have h : sub32 (sub32 (wrap32 (size + head)) tail) 1 = size + (head - tail - 1) := by
    rw [sub32, sub32, wrap32]; omega
  rw [freeSpace, h, Nat.add_mod_left, Nat.mod_eq_of_lt (by omega)]
  omega

end MachinekitHal
