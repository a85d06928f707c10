import MachinekitHal.Lib.Circular
import MachinekitHal.Ring.Layout

/-!
`ring.h`: the operations of a stream ring.

The memory `mem` starts at `buf[0]`: the storage of the ring, then, at the next
cache line, the `ringtrailer_t`, whose first word is the tail index, and the
scratchpad. So a store behind the storage is a store to the tail index.

A transfer is modelled by its pieces, the ranges of `buf` the code moves one after
the other with `memcpy`. In `stream_read` and `stream_write` the second piece starts
where the first one ends (`splitAt`), in `stream_peek` and the vectors at the start
of the buffer.

* `StreamSys`: the ring, and the history: the bytes kept, that is accepted and not
  dropped by a flush, and the bytes read.
* `StreamSys.step`: one operation, or a store to the bytes of the write vector.
-/

namespace MachinekitHal

open Bytes Word Circular

/-- The data of a stream ring. -/
structure StreamRing where
  size : ℕ
  sizeMask : ℕ
  head : ℕ
  mem : Mem

namespace StreamRing

/-- `_trailer_from_header`, as an offset from `buf`. -/
def trailer (r : StreamRing) : ℕ := cacheAlign r.size

/-- The tail index. -/
def tail (r : StreamRing) : ℕ := load32 r.mem r.trailer

/-- The store of the tail index. -/
def setTail (r : StreamRing) (v : ℕ) : StreamRing :=
  { r with mem := store32 r.mem r.trailer v }

/-- `ringheader_init` of a stream ring; `mem` is not cleared. -/
def init (flags size : ℕ) (mem : Mem) : StreamRing :=
  let n := ringStorageAlloc flags size
  setTail { size := n, sizeMask := sub32 n 1, head := 0, mem := mem } 0

/-- `stream_read_space`. -/
def readSpace (r : StreamRing) : ℕ :=
  if r.head < r.tail then r.tail - r.head
  else wrap32 (sub32 r.tail r.head + r.size) &&& r.sizeMask

/-- `stream_write_space`. -/
def writeSpace (r : StreamRing) : ℕ :=
  if r.head < r.tail then sub32 (wrap32 (sub32 r.head r.tail + r.size) &&& r.sizeMask) 1
  else if r.tail < r.head then r.head - r.tail - 1
  else sub32 r.size 1

/-- The pieces of a transfer of `n` bytes at `a`, when the second one starts at `second`. -/
def splitAt (r : StreamRing) (a n second : ℕ) : List (ℕ × ℕ) :=
  let cnt2 := wrap32 (a + n)
  if r.size < cnt2 then [(a, r.size - a), (second, cnt2 &&& r.sizeMask)] else [(a, n)]

/-- The pieces of `stream_get_read_vector`. -/
def readVector (r : StreamRing) : List (ℕ × ℕ) := r.splitAt r.head r.readSpace 0

/-- The pieces of `stream_get_write_vector`. -/
def writeVector (r : StreamRing) : List (ℕ × ℕ) := r.splitAt r.tail r.writeSpace 0

/-- The bytes `stream_read` and `stream_peek` copy of `cnt` requested. -/
def toRead (r : StreamRing) (cnt : ℕ) : ℕ := if r.readSpace < cnt then r.readSpace else cnt

/-- The bytes `stream_write` copies of `cnt` requested. -/
def toWrite (r : StreamRing) (cnt : ℕ) : ℕ := if r.writeSpace < cnt then r.writeSpace else cnt

/-- The pieces of `stream_read`: the second at `buf[head + n1]`. -/
def readPieces (r : StreamRing) (cnt : ℕ) : List (ℕ × ℕ) :=
  r.splitAt r.head (r.toRead cnt) (r.head + (r.size - r.head))

/-- The pieces of `stream_peek`: the second at `buf[(head + n1) & size_mask]`. -/
def peekPieces (r : StreamRing) (cnt : ℕ) : List (ℕ × ℕ) :=
  r.splitAt r.head (r.toRead cnt) ((r.head + (r.size - r.head)) &&& r.sizeMask)

/-- The pieces of `stream_write`: the second at `buf[tail + n1]`. -/
def writePieces (r : StreamRing) (cnt : ℕ) : List (ℕ × ℕ) :=
  r.splitAt r.tail (r.toWrite cnt) (r.tail + (r.size - r.tail))

/-- The bytes of `n` requested that the pieces of a transfer add up to. -/
def total (ps : List (ℕ × ℕ)) : ℕ := (ps.map Prod.snd).sum

/-- `stream_read_advance`. -/
def readAdvance (r : StreamRing) (cnt : ℕ) : StreamRing :=
  { r with head := wrap32 (r.head + cnt) &&& r.sizeMask }

/-- `stream_write_advance`. -/
def writeAdvance (r : StreamRing) (cnt : ℕ) : StreamRing :=
  r.setTail (wrap32 (r.tail + cnt) &&& r.sizeMask)

/-- `stream_read`: the ring, and the bytes copied. -/
def read (r : StreamRing) (cnt : ℕ) : StreamRing × List UInt8 :=
  if r.readSpace = 0 then (r, [])
  else
    let ps := r.readPieces cnt
    (r.readAdvance (total ps), loadPieces r.mem ps)

/-- `stream_peek`: the bytes copied. -/
def peek (r : StreamRing) (cnt : ℕ) : List UInt8 :=
  if r.readSpace = 0 then [] else loadPieces r.mem (r.peekPieces cnt)

/-- `stream_flush`. -/
def flush (r : StreamRing) : StreamRing :=
  if 0 < r.readSpace then r.readAdvance r.readSpace else r

/-- `stream_write`: the ring, and the count of bytes accepted. The tail index is loaded
again behind the copies. -/
def write (r : StreamRing) (src : List UInt8) : StreamRing × ℕ :=
  if r.writeSpace = 0 then (r, 0)
  else
    let ps := r.writePieces src.length
    let r' := { r with mem := storePieces r.mem ps src }
    (r'.writeAdvance (total ps), r.toWrite src.length)

end StreamRing

/-! ### The users of a stream ring -/

/-- A stream ring, and the history. -/
structure StreamSys where
  ring : StreamRing
  /-- the bytes accepted, less those a flush dropped -/
  kept : List UInt8
  /-- the bytes read -/
  out : List UInt8
  /-- what the last operation gave its caller -/
  got : List UInt8
  /-- the count the last operation returned -/
  count : ℕ

/-- The operations, and the stores to the bytes of the write vector. -/
inductive StreamOp where
  | write (src : List UInt8)
  | read (cnt : ℕ)
  | peek (cnt : ℕ)
  | readAdvance (cnt : ℕ)
  /-- the writer stores to the first bytes of the write vector -/
  | fill (bs : List UInt8)
  | writeAdvance (cnt : ℕ)
  | flush

namespace StreamSys

/-- A ring just set up. -/
def init (flags size : ℕ) (mem : Mem) : StreamSys :=
  { ring := .init flags size mem, kept := [], out := [], got := [], count := 0 }

/-- The bytes the read vector describes. -/
def readable (s : StreamSys) : List UInt8 := loadPieces s.ring.mem s.ring.readVector

/-- The bytes the write vector describes. -/
def writable (s : StreamSys) : List UInt8 := loadPieces s.ring.mem s.ring.writeVector

/-- One operation. Advancing reads the first bytes of the read vector and accepts the first
bytes of the write vector; counts are `ringsize_t`. -/
def step (s : StreamSys) : StreamOp → Option StreamSys
  | .write src =>
    if src.length < 4294967296 then
      let (ring, n) := s.ring.write src
      some { s with ring := ring, kept := s.kept ++ src.take n, count := n }
    else none
  | .read cnt =>
    if cnt < 4294967296 then
      let (ring, bs) := s.ring.read cnt
      some { s with ring := ring, out := s.out ++ bs, got := bs, count := s.ring.toRead cnt }
    else none
  | .peek cnt =>
    if cnt < 4294967296 then
      some { s with got := s.ring.peek cnt, count := s.ring.toRead cnt }
    else none
  | .readAdvance cnt =>
    if cnt < 4294967296 then
      some { s with ring := s.ring.readAdvance cnt, out := s.out ++ s.readable.take cnt }
    else none
  | .fill bs =>
    if bs.length ≤ StreamRing.total s.ring.writeVector then
      some { s with
        ring := { s.ring with mem := storePieces s.ring.mem s.ring.writeVector bs } }
    else none
  | .writeAdvance cnt =>
    if cnt < 4294967296 then
      some { s with ring := s.ring.writeAdvance cnt, kept := s.kept ++ s.writable.take cnt }
    else none
  | .flush =>
    some { s with
      ring := s.ring.flush, kept := s.kept.take s.out.length, count := s.ring.readSpace }

/-- The ranges of `buf` an operation loads from or stores to. -/
def touches (s : StreamSys) : StreamOp → List (ℕ × ℕ)
  | .write src => if s.ring.writeSpace = 0 then [] else s.ring.writePieces src.length
  | .read cnt => if s.ring.readSpace = 0 then [] else s.ring.readPieces cnt
  | .peek cnt => if s.ring.readSpace = 0 then [] else s.ring.peekPieces cnt
  | .readAdvance _ => s.ring.readVector
  | .fill _ => s.ring.writeVector
  | .writeAdvance _ => s.ring.writeVector
  | .flush => []

end StreamSys

end MachinekitHal
