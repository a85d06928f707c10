import MachinekitHal.Lib.Runs
import MachinekitHal.Ring.RecordLayout

/-!
A record ring shared by one writer thread and one reader thread.

Every atomic load and store of `head`, `tail`, a size word or a payload byte is a
step of its own, under sequential consistency; the program counters `WPc` and
`RPc` say which access is next. What a thread alone writes (`tail` and the end of
the storage for the writer) is read together with the access it is used for.

* `Act`: the calls a thread may make when idle, the payload stores and loads
  between calls, and `w` and `r`, the next access inside a call.
* `Sys`: the shared ring, the two threads, and a history that no access reads.
* `step`: the transition function; `WriterStores` are the bytes the writer's next
  access stores to.
-/

namespace MachinekitHal

open Bytes Word

/-- Where the writer stands. -/
inductive WPc where
  /-- outside a call, no write begun -/
  | idle
  /-- `record_write_begin`, before the first load of `head` -/
  | loadHead (sz : ℕ)
  /-- `record_write_begin`, before the second load of `head` -/
  | wrapTest (sz : ℕ)
  /-- `record_write_begin` returned `0` with this data pointer -/
  | filling (data sz : ℕ)
  /-- `record_write_end`, before the store of the wrap mark; `p` is the payload the
  writer left at the data pointer, which no access reads -/
  | mark (c : ℕ) (p : List UInt8)
  /-- `record_write_end`, before the store of `tail = 0` -/
  | resetTail (c : ℕ) (p : List UInt8)
  /-- `record_write_end`, before the store of the size word -/
  | sizeWord (c : ℕ) (p : List UInt8)
  /-- `record_write_end`, before the final store of `tail` -/
  | publish (c : ℕ) (p : List UInt8)
  /-- `record_flush`, before the increment of the generation -/
  | flushGen
  /-- `record_flush`, before the load of `head` -/
  | flushHead
  /-- `record_flush`, before the compare-and-swap of `head` -/
  | flushCas (h : ℕ)

/-- The writer is outside a call. -/
def WPc.mayBegin : WPc → Bool
  | .idle => true
  | .filling _ _ => true
  | _ => false

/-- The writer is outside a call and has no write begun. -/
def WPc.isIdle : WPc → Bool
  | .idle => true
  | _ => false

/-- The writer is inside `record_flush`. -/
def WPc.inFlush : WPc → Bool
  | .flushGen => true
  | .flushHead => true
  | .flushCas _ => true
  | _ => false

/-- Where the reader stands. -/
inductive RPc where
  /-- outside a call -/
  | idle
  /-- `_ring_read_at`, before the load of `tail` -/
  | readTail (off : ℕ)
  /-- `_ring_read_at`, before the load of the size word -/
  | readSize (off : ℕ)
  /-- `record_shift`, before the load of `head` it passes on -/
  | shiftCall
  /-- `_ring_shift_offset`, before its own load of `head` -/
  | shiftLoad (off : ℕ)
  /-- `_ring_shift_offset`, before the load of `tail` -/
  | shiftTest (off h : ℕ)
  /-- `_ring_shift_offset`, before the load of the size word -/
  | shiftSize (off : ℕ)
  /-- `record_shift`, before the increment of the generation -/
  | shiftGen (new : ℕ)
  /-- `record_shift`, before the store of `head` -/
  | shiftHead (new : ℕ)

/-- The reader is outside a call. -/
def RPc.isIdle : RPc → Bool
  | .idle => true
  | _ => false

/-- The reader is inside `record_shift`. -/
def RPc.inShift : RPc → Bool
  | .shiftCall => true
  | .shiftLoad _ => true
  | .shiftTest _ _ => true
  | .shiftSize _ => true
  | .shiftGen _ => true
  | .shiftHead _ => true
  | _ => false

/-- The index of the record last committed at the offset `off`. -/
def lastAt : List Rec → ℕ → Option ℕ
  | [], _ => none
  | r :: rs, off =>
    match lastAt rs off with
    | some i => some (i + 1)
    | none => if r.off = off then some 0 else none

/-- What the last successful `record_read` gave the reader: size and data offset,
and the payload bytes loaded since. `seq` says which of the committed records it is. -/
structure Got where
  seq : Option ℕ
  size : ℕ
  data : ℕ
  bytes : List UInt8
  deriving DecidableEq

/-- The shared ring, the two threads, and the history. -/
structure Sys where
  ring : RecordRing
  wpc : WPc
  /-- the result of the writer's last call, `none` for `0` -/
  wret : Option Errno
  rpc : RPc
  /-- the result of the reader's last call, `none` for `0` -/
  rret : Option Errno
  got : Option Got
  /-- the count of a `record_flush_reader` in progress -/
  flushing : Option ℕ
  /-- the committed records -/
  log : List Rec
  /-- how many of them were consumed or flushed -/
  shifted : ℕ
  /-- what the reader had read at each successful `record_shift` -/
  obtained : List Got
  /-- `record_flush` has moved `head` since the reader's call loaded it -/
  stale : Bool

/-- The actions of the two threads. -/
inductive Act where
  /-- the writer calls `record_write_begin` -/
  | wbegin (sz : ℕ)
  /-- the writer stores a payload byte of the write begun -/
  | wstore (i : ℕ) (b : UInt8)
  /-- the writer calls `record_write_end` -/
  | wend (c : ℕ)
  /-- the writer calls `record_flush` -/
  | wflush
  /-- the next access of the writer's call -/
  | w
  /-- the reader calls `record_read`, and loads `head` -/
  | rread
  /-- the reader loads the next payload byte of the record read -/
  | rcopy
  /-- the reader calls `record_shift` -/
  | rshift
  /-- the reader calls `record_flush_reader` -/
  | rflush
  /-- the next access of the reader's call -/
  | r

/-- The actions of the writer thread. -/
def Act.isWriter : Act → Bool
  | .wbegin _ => true
  | .wstore _ _ => true
  | .wend _ => true
  | .wflush => true
  | .w => true
  | _ => false

namespace Sys

/-- Both threads idle on a ring just set up. -/
def init (ring : RecordRing) : Sys :=
  { ring := ring, wpc := .idle, wret := none, rpc := .idle, rret := none, got := none,
    flushing := none, log := [], shifted := 0, obtained := [], stale := false }

/-- The committed records not yet consumed or flushed. -/
def unread (s : Sys) : List Rec := s.log.drop s.shifted

/-- The next access of the writer's call. -/
def writerStep (s : Sys) : Option Sys :=
  match s.wpc with
  | .idle => none
  | .filling _ _ => none
  | .loadHead sz =>
    let a := recordUsage sz
    if freeSpace s.ring.size s.ring.head s.ring.tail ≤ a then
      some { s with wpc := .idle, wret := some .EAGAIN }
    else if s.ring.size < wrap32 (s.ring.tail + a) then some { s with wpc := .wrapTest sz }
    else some { s with wpc := .filling (s.ring.tail + 4) sz, wret := none }
  | .wrapTest sz =>
    if s.ring.head ≤ recordUsage sz then some { s with wpc := .idle, wret := some .EAGAIN }
    else some { s with wpc := .filling 4 sz, wret := none }
  | .mark c p =>
    some { s with
      ring := { s.ring with buf := store32 s.ring.buf s.ring.tail wrapMark }
      wpc := .resetTail c p }
  | .resetTail c p => some { s with ring := { s.ring with tail := 0 }, wpc := .sizeWord c p }
  | .sizeWord c p =>
    some { s with
      ring := { s.ring with buf := store32 s.ring.buf s.ring.tail c }
      wpc := .publish c p }
  | .publish c p =>
    some { s with
      ring := { s.ring with tail := wrap32 (s.ring.tail + recordUsage c) % s.ring.size }
      wpc := .idle, wret := none
      log := s.log ++ [⟨s.ring.tail, p⟩] }
  | .flushGen =>
    some { s with
      ring := { s.ring with generation := incGeneration s.ring.generation }
      wpc := .flushHead }
  | .flushHead => some { s with wpc := .flushCas s.ring.head }
  | .flushCas h =>
    if s.ring.head = h then
      some { s with
        ring := { s.ring with head := s.ring.tail }
        wpc := .idle, wret := none
        shifted := s.log.length
        stale := s.stale || s.ring.head != s.ring.tail }
    else some { s with wpc := .flushGen }

/-- `_ring_shift_offset` or `_ring_read_at` ends with `EAGAIN`. -/
def failRead (s : Sys) : Sys := { s with rpc := .idle, rret := some .EAGAIN, flushing := none }

/-- The next access of the reader's call. -/
def readerStep (s : Sys) : Option Sys :=
  match s.rpc with
  | .idle => none
  | .readTail off =>
    if off = s.ring.tail then some s.failRead
    else some { s with rpc := .readSize off }
  | .readSize off =>
    let v := load32 s.ring.buf off
    if isNegative v then some { s with rpc := .readTail 0 }
    else some { s with
      rpc := .idle, rret := none
      got := some ⟨lastAt s.log off, v, off + 4, []⟩ }
  | .shiftCall => some { s with rpc := .shiftLoad s.ring.head, stale := false }
  | .shiftLoad off => some { s with rpc := .shiftTest off s.ring.head }
  | .shiftTest off h =>
    if h = s.ring.tail then some s.failRead
    else some { s with rpc := .shiftSize off }
  | .shiftSize off =>
    let v := load32 s.ring.buf off
    if isNegative v then some { s with rpc := .shiftLoad 0 }
    else
      let new := RecordRing.offsetAfter s.ring.size off v
      if isNegative new then some s.failRead else some { s with rpc := .shiftGen new }
  | .shiftGen new =>
    some { s with
      ring := { s.ring with generation := incGeneration s.ring.generation }
      rpc := .shiftHead new }
  | .shiftHead new =>
    some { s with
      ring := { s.ring with head := new }
      rpc := if s.flushing.isSome then .shiftCall else .idle
      rret := none
      got := none
      flushing := s.flushing.map (· + 1)
      shifted := s.shifted + 1
      obtained := s.obtained ++ s.got.toList }

/-- The transition function: `none` when the action is not enabled. -/
def step (s : Sys) : Act → Option Sys
  | .wbegin sz =>
    -- `sz` is a `ringsize_t`; a write begun before and not ended is given up
    if s.wpc.mayBegin ∧ sz < 4294967296 then
      if s.ring.size < recordUsage sz then some { s with wpc := .idle, wret := some .ERANGE }
      else some { s with wpc := .loadHead sz }
    else none
  | .wstore i b =>
    match s.wpc with
    | .filling data sz =>
      if i < sz then
        some { s with ring := { s.ring with buf := store8 s.ring.buf (data + i) b } }
      else none
    | _ => none
  | .wend c =>
    match s.wpc with
    | .filling data sz =>
      if c ≤ sz then
        let p := loadBytes s.ring.buf data c
        some { s with wpc := if data = 4 then .mark c p else .sizeWord c p }
      else none
    | _ => none
  | .wflush => if s.wpc.isIdle then some { s with wpc := .flushGen } else none
  | .w => s.writerStep
  | .rread =>
    if s.rpc.isIdle then
      some { s with rpc := .readTail s.ring.head, got := none, stale := false }
    else none
  | .rcopy =>
    match s.got with
    | some g =>
      if s.rpc.isIdle ∧ g.bytes.length < g.size then
        let b := s.ring.buf (g.data + g.bytes.length)
        some { s with got := some { g with bytes := g.bytes ++ [b] } }
      else none
    | none => none
  | .rshift => if s.rpc.isIdle then some { s with rpc := .shiftCall, flushing := none } else none
  | .rflush =>
    if s.rpc.isIdle then some { s with rpc := .shiftCall, flushing := some 0 } else none
  | .r => s.readerStep

/-- The bytes the writer stores to when it does the action `a`. -/
def WriterStores (s : Sys) (a : Act) (x : ℕ) : Prop :=
  match a, s.wpc with
  | .wstore i _, .filling data _ => x = data + i
  | .w, .mark _ _ => s.ring.tail ≤ x ∧ x < s.ring.tail + 4
  | .w, .sizeWord _ _ => s.ring.tail ≤ x ∧ x < s.ring.tail + 4
  | _, _ => False

end Sys

/-- A writer that does not call `record_flush` is never inside it. -/
lemma Sys.inFlush_of_step {s t : Sys} {a : Act} (ha : a ≠ .wflush) (hs : s.step a = some t)
    (h : s.wpc.inFlush = false) : t.wpc.inFlush = false := by
  cases a with
  | w =>
    simp only [Sys.step, Sys.writerStep] at hs
    split at hs <;> try split_ifs at hs
    all_goals cases hs
    all_goals first | rfl | simp_all [WPc.inFlush]
  | r =>
    simp only [Sys.step, Sys.readerStep, Sys.failRead] at hs
    split at hs <;> try split_ifs at hs
    all_goals cases hs
    all_goals exact h
  | wflush => exact absurd rfl ha
  | _ =>
    simp only [Sys.step] at hs
    try split at hs
    all_goals try split_ifs at hs
    all_goals cases hs
    all_goals first | rfl | exact h

/-- A writer outside `record_flush` does not move `head`. -/
lemma Sys.stale_of_step {s t : Sys} {a : Act} (hs : s.step a = some t)
    (hfl : s.wpc.inFlush = false) (h : s.stale = false) : t.stale = false := by
  cases a with
  | w =>
    simp only [Sys.step, Sys.writerStep] at hs
    split at hs <;> try split_ifs at hs
    all_goals cases hs
    all_goals first | exact h | simp_all [WPc.inFlush]
  | r =>
    simp only [Sys.step, Sys.readerStep, Sys.failRead] at hs
    split at hs <;> try split_ifs at hs
    all_goals cases hs
    all_goals first | exact h | rfl
  | _ =>
    simp only [Sys.step] at hs
    try split at hs
    all_goals try split_ifs at hs
    all_goals cases hs
    all_goals first | exact h | rfl

/-! ### Which record stands at an offset -/

lemma lastAt_eq_none {rs : List Rec} {off : ℕ} (h : ∀ r ∈ rs, r.off ≠ off) :
    lastAt rs off = none := by
  induction rs with
  | nil => rfl
  | cons r rs ih =>
    rw [lastAt, ih fun r' hr' => h r' (.tail _ hr'),
      if_neg (h r (.head _))]

/-- The record behind which no other one stands at its offset. -/
lemma lastAt_append {r : Rec} {rs : List Rec} (h : ∀ r' ∈ rs, r'.off ≠ r.off) :
    ∀ before : List Rec, lastAt (before ++ r :: rs) r.off = some before.length
  | [] => by rw [List.nil_append, lastAt, lastAt_eq_none h, if_pos rfl]; rfl
  | b :: before => by rw [List.cons_append, lastAt, lastAt_append h before]; rfl

/-- The oldest unread record, and its place among the committed ones. -/
lemma Sys.unread_eq_cons {s : Sys} {r : Rec} {rest : List Rec} (h : s.unread = r :: rest) :
    s.shifted < s.log.length ∧ s.log.take (s.shifted + 1) = s.log.take s.shifted ++ [r] ∧
      s.log.drop (s.shifted + 1) = rest ∧ s.log = s.log.take s.shifted ++ r :: rest := by
  have hlt : s.shifted < s.log.length := by
    by_contra hcon
    rw [unread, List.drop_eq_nil_of_le (by omega)] at h
    cases h
  have hsplit := h
  rw [unread, List.drop_eq_getElem_cons hlt] at h
  obtain ⟨hr, hrest⟩ := List.cons.inj h
  refine ⟨hlt, by rw [List.take_succ_eq_append_getElem hlt, hr], hrest, ?_⟩
  rw [← hsplit, unread, List.take_append_drop]

end MachinekitHal
