import MachinekitHal.Hostmot2.EthReads
import MachinekitHal.Lib.Buffers
import MachinekitHal.Lib.Runs

/-!
Queued writes of the ethernet boards of hostmot2.

* `Eth.Writer`: the board with its write packet.
* `Eth.enqueueWrite`, `Eth.sendQueuedWrites`, `Eth.write`: the functions of the driver. A copy that
  leaves its buffer has no result.
* `Eth.WriteSys.step`: the calls in any order, with what was enqueued and what was sent.
* `WriteLaw`: the packets sent are the writes enqueued.
* `Clean`: what is asked of a call.
* `WriteInv`: the invariant, with what is in the write packet.
* `writes_iff`: when a call keeps the law, in every run of clean calls.
-/

namespace MachinekitHal.Eth

open Buffers Bytes Word

/-- `sizeof(board->write_packet)`. -/
def sizeofWritePacket : ℕ := 1400

/-- `sizeof(packet.tmp_buffer)` in `hm2_eth_write`. -/
def sizeofTmpBuffer : ℕ := 127 * 8

/-- `CMD_WRITE_HOSTMOT2_ADDR32_INCR`. -/
def cmdWriteHostmot2Addr32Incr (size : ℕ) : ℕ := 0xC280 + size % 128

/-- The board with `write_packet`, the offset of `write_packet_ptr` and `write_packet_size`. -/
structure Writer where
  board : Board
  writePacket : List UInt8
  writePacketPtr : ℕ
  writePacketSize : ℕ

/-- The end of `hm2_eth_enqueue_write`, when the write fits. -/
def Writer.append (w : Writer) (addr : ℕ) (buffer : Mem) (size : ℕ) : Option Writer := do
  let header := lbp16InitPacket4 (cmdWriteHostmot2Addr32Incr (size / 4)) addr
  let packet ← writeAt w.writePacket w.writePacketPtr header
  let packet ← writeAt packet (w.writePacketPtr + 4) (loadBytes buffer 0 size)
  return { w with
    writePacket := packet
    writePacketPtr := w.writePacketPtr + 4 + size
    writePacketSize := w.writePacketSize + (4 + size) }

/-- `hm2_eth_enqueue_write`. The copy takes its size as a `size_t`: a negative one is beyond every
buffer. -/
def enqueueWrite (w : Writer) (addr : ℕ) (buffer : Mem) (size : ℤ) : Option (IoResult × Writer) :=
  if !w.board.commActive then some (.success, w)
  else if size = 0 then some (.success, w)
  else if (sizeofWritePacket : ℤ) < w.writePacketPtr + 4 + size then some (.failure, w)
  else if size < 0 then none
  else (w.append addr buffer size.toNat).map fun w => (.success, w)

/-- The write counter is counted up. -/
def Board.countWrite (board : Board) : Board :=
  { board with writeCnt := wrap32 (board.writeCnt + 1) }

/-- The write of the counter, at the end of a packet. -/
def counterBytes (writeCnt : ℕ) : List UInt8 :=
  lbp16InitPacket4 cmdWriteTimer 0x14 ++ le32 writeCnt

/-- `hm2_eth_send_queued_writes`; `sent` is whether the socket takes the packet, which is then the
last result. -/
def sendQueuedWrites (w : Writer) (sent : Bool) :
    Option (IoResult × Writer × Option (List UInt8)) :=
  if sizeofWritePacket < w.writePacketPtr + 4 + 4 then some (.failure, w, none)
  else do
    let board := w.board.countWrite
    let packet ← writeAt w.writePacket w.writePacketPtr (counterBytes board.writeCnt)
    let w := { w with
      board := board
      writePacket := packet
      writePacketPtr := w.writePacketPtr + 8
      writePacketSize := w.writePacketSize + 8 }
    let datagram ← readAt packet 0 w.writePacketSize
    if sent then
      return (.success, { w with writePacketPtr := 0, writePacketSize := 0 }, some datagram)
    else
      -- the packet is left as it is
      return (.failure, { w with board := (recordSoftError board).2 }, none)

/-- `hm2_eth_write`; `rt` is whether it is called in a realtime task. -/
def write (rt : Bool) (w : Writer) (addr : ℕ) (buffer : Mem) (size : ℤ) (sent : Bool) :
    Option (IoResult × Writer × Option (List UInt8)) :=
  if rt then (enqueueWrite w addr buffer size).map fun (r, w) => (r, w, none)
  else if !w.board.commActive then some (.success, w, none)
  else if size = 0 then some (.success, w, none)
  else if size < 0 ∨ (sizeofTmpBuffer : ℤ) < size then none
  else
    let w := { w with board := w.board.countWrite }
    let datagram := lbp16InitPacket4 (cmdWriteHostmot2Addr32Incr (size.toNat / 4)) addr ++
      loadBytes buffer 0 size.toNat
    if sent then some (.success, w, some datagram)
    else some (.failure, { w with board := (recordSoftError w.board).2 }, none)

/-! ### Runs -/

/-- A write. -/
structure Entry where
  addr : ℕ
  data : List UInt8

/-- A write in a packet. -/
def Entry.bytes (e : Entry) : List UInt8 :=
  lbp16InitPacket4 (cmdWriteHostmot2Addr32Incr (e.data.length / 4)) e.addr ++ e.data

/-- A packet of queued writes that was sent, with the writes enqueued since the one before and the
write counter. -/
structure SentPacket where
  datagram : List UInt8
  writes : List Entry
  writeCnt : ℕ

/-- The writer, with all writes enqueued, those since the last packet that was sent, the packets
and immediate writes that were sent, and whether a packet failed since. -/
structure WriteSys where
  writer : Writer
  enqueued : List Entry
  pending : List Entry
  sent : List SentPacket
  immediate : List (Entry × List UInt8)
  residue : Bool

/-- The calls; `other` is what the rest of the driver does to the board. -/
inductive WriteOp where
  | enqueue (addr : ℕ) (buffer : Mem) (size : ℤ)
  | write (rt : Bool) (addr : ℕ) (buffer : Mem) (size : ℤ) (sent : Bool)
  | send (sent : Bool)
  | other (board : Board)

/-- The write is enqueued. -/
def Writer.Accepts (w : Writer) (size : ℤ) : Prop :=
  w.board.commActive = true ∧ size ≠ 0 ∧ w.writePacketPtr + 4 + size ≤ sizeofWritePacket
  deriving Decidable

/-- A call to enqueue. -/
def WriteSys.enqueue (s : WriteSys) (addr : ℕ) (buffer : Mem) (size : ℤ) : Option WriteSys :=
  (enqueueWrite s.writer addr buffer size).map fun (_, writer) =>
    let writes := if s.writer.Accepts size then [⟨addr, loadBytes buffer 0 size.toNat⟩] else []
    { s with writer := writer, enqueued := s.enqueued ++ writes, pending := s.pending ++ writes }

/-- One call. -/
def WriteSys.step (s : WriteSys) : WriteOp → Option WriteSys
  | .enqueue addr buffer size => s.enqueue addr buffer size
  | .write rt addr buffer size sent =>
    if rt then s.enqueue addr buffer size
    else (Eth.write false s.writer addr buffer size sent).map fun (_, writer, datagram) =>
      { s with
        writer := writer
        immediate := s.immediate ++
          (datagram.map fun d => (⟨addr, loadBytes buffer 0 size.toNat⟩, d)).toList }
  | .send sent =>
    (sendQueuedWrites s.writer sent).map fun (_, writer, datagram) =>
      match datagram with
      | some d => { s with
          writer := writer
          pending := []
          sent := s.sent ++ [⟨d, s.pending, writer.board.writeCnt⟩]
          residue := false }
      | none => { s with
          writer := writer
          residue := s.residue || decide (s.writer.writePacketPtr < writer.writePacketPtr) }
  | .other board => some { s with writer := { s.writer with board := board } }

/-- The system after `init_board`. -/
def WriteSys.init (board : Board) : WriteSys where
  writer :=
    { board := board
      writePacket := List.replicate sizeofWritePacket 0
      writePacketPtr := 0
      writePacketSize := 0 }
  enqueued := []
  pending := []
  sent := []
  immediate := []
  residue := false

end MachinekitHal.Eth

namespace MachinekitHal.Eth

open Buffers Bytes Runs Word

/-- A packet with some writes. -/
def packetBytes (writes : List Entry) (writeCnt : ℕ) : List UInt8 :=
  writes.flatMap Entry.bytes ++ counterBytes writeCnt

/-- What the packets sent are. -/
structure WriteLaw (s : WriteSys) : Prop where
  size : s.writer.writePacketSize = s.writer.writePacketPtr
  packets : ∀ p ∈ s.sent, p.datagram = packetBytes p.writes p.writeCnt
  immediate : ∀ p ∈ s.immediate, p.2 = p.1.bytes
  once : s.sent.flatMap SentPacket.writes ++ s.pending = s.enqueued

/-- Sizes that are not negative; immediate writes that fit into the static packet; and no packet
that is sent behind one that failed. -/
def Clean (s : WriteSys) : WriteOp → Prop
  | .enqueue _ _ size => s.writer.Accepts size → 0 ≤ size
  | .write rt _ _ size _ =>
    if rt then s.writer.Accepts size → 0 ≤ size
    else s.writer.board.commActive = true → 0 ≤ size ∧ size ≤ sizeofTmpBuffer
  | .send sent =>
    sent = true → s.residue = false ∨ sizeofWritePacket < s.writer.writePacketPtr + 4 + 4
  | .other _ => True

/-! ### The write packet -/

variable {w w' : Writer} {s s' : WriteSys} {addr : ℕ} {buffer : Mem} {size : ℤ}

lemma length_entry_bytes (e : Entry) : e.bytes.length = 4 + e.data.length := by
  rw [Entry.bytes, List.length_append]
  rfl

lemma length_counterBytes (writeCnt : ℕ) : (counterBytes writeCnt).length = 8 := rfl

/-- A write that fits goes behind those in the packet. -/
lemma exists_append (hlength : w.writePacket.length = sizeofWritePacket) {size : ℕ}
    (hfits : w.writePacketPtr + 4 + size ≤ sizeofWritePacket) (addr : ℕ) (buffer : Mem) :
    ∃ packet, w.append addr buffer size = some { w with
        writePacket := packet
        writePacketPtr := w.writePacketPtr + 4 + size
        writePacketSize := w.writePacketSize + (4 + size) } ∧
      packet.length = sizeofWritePacket ∧
      packet.take (w.writePacketPtr + 4 + size)
        = w.writePacket.take w.writePacketPtr ++
            (⟨addr, loadBytes buffer 0 size⟩ : Entry).bytes := by
  obtain ⟨p₁, hp₁, hlen₁, htake₁⟩ := exists_writeAt w.writePacket w.writePacketPtr
    (lbp16InitPacket4 (cmdWriteHostmot2Addr32Incr (size / 4)) addr)
    (by rw [hlength]; exact le_trans (by simp [lbp16InitPacket4]) hfits)
  obtain ⟨p₂, hp₂, hlen₂, htake₂⟩ := exists_writeAt p₁ (w.writePacketPtr + 4)
    (loadBytes buffer 0 size) (by rw [hlen₁, hlength, length_loadBytes]; exact hfits)
  refine ⟨p₂, ?_, by rw [hlen₂, hlen₁, hlength], ?_⟩
  · rw [Writer.append, hp₁, Option.bind_eq_bind, Option.bind_some, hp₂]
    rfl
  · rw [length_loadBytes] at htake₂
    have hheader : p₁.take (w.writePacketPtr + 4) = w.writePacket.take w.writePacketPtr ++
        lbp16InitPacket4 (cmdWriteHostmot2Addr32Incr (size / 4)) addr := htake₁
    rw [htake₂, hheader, Entry.bytes, length_loadBytes, List.append_assoc]

/-- What is kept by the calls. -/
structure WriteInv (s : WriteSys) : Prop where
  law : WriteLaw s
  length : s.writer.writePacket.length = sizeofWritePacket
  ptr_le : s.writer.writePacketPtr ≤ sizeofWritePacket
  clean : s.residue = false →
    s.writer.writePacket.take s.writer.writePacketPtr = s.pending.flatMap Entry.bytes
  residue : s.residue = true →
    (s.pending.flatMap Entry.bytes).length < s.writer.writePacketPtr

lemma writeInv_init (board : Board) : WriteInv (.init board) where
  law := ⟨rfl, fun _ h => absurd h List.not_mem_nil, fun _ h => absurd h List.not_mem_nil, rfl⟩
  length := List.length_replicate
  ptr_le := Nat.zero_le _
  clean _ := rfl
  residue h := absurd h Bool.false_ne_true

/-! ### Writes that are enqueued -/

lemma enqueueWrite_of_not (h : ¬ w.Accepts size) :
    ∃ r, enqueueWrite w addr buffer size = some (r, w) := by
  rw [enqueueWrite]
  split_ifs with hactive hzero hfull hneg
  · exact ⟨_, rfl⟩
  · exact ⟨_, rfl⟩
  · exact ⟨_, rfl⟩
  · exact absurd ⟨by simpa using hactive, hzero, not_lt.1 hfull⟩ h
  · exact absurd ⟨by simpa using hactive, hzero, not_lt.1 hfull⟩ h

lemma enqueueWrite_of_accepts (h : w.Accepts size) :
    enqueueWrite w addr buffer size = if size < 0 then none
      else (w.append addr buffer size.toNat).map fun w => (.success, w) := by
  rw [enqueueWrite, if_neg (by simp [h.1]), if_neg h.2.1, if_neg (not_lt.2 h.2.2)]

/-- A call to enqueue copies inside the packet unless the size is negative. -/
lemma WriteInv.enqueue (h : WriteInv s) (addr : ℕ) (buffer : Mem)
    (hclean : s.writer.Accepts size → 0 ≤ size) :
    ∃ s', s.enqueue addr buffer size = some s' ∧ WriteInv s' := by
  by_cases haccepts : s.writer.Accepts size
  · obtain ⟨n, rfl⟩ := Int.eq_ofNat_of_zero_le (hclean haccepts)
    have hfits : s.writer.writePacketPtr + 4 + n ≤ sizeofWritePacket := by
      exact_mod_cast haccepts.2.2
    obtain ⟨packet, happend, hlength, htake⟩ := exists_append h.length hfits addr buffer
    have hstep : s.enqueue addr buffer n = some { s with
        writer := { s.writer with
          writePacket := packet
          writePacketPtr := s.writer.writePacketPtr + 4 + n
          writePacketSize := s.writer.writePacketSize + (4 + n) }
        enqueued := s.enqueued ++ [⟨addr, loadBytes buffer 0 n⟩]
        pending := s.pending ++ [⟨addr, loadBytes buffer 0 n⟩] } := by
      have hsize : ¬ (n : ℤ) < 0 := by omega
      rw [WriteSys.enqueue, enqueueWrite_of_accepts haccepts, if_neg hsize, Int.toNat_natCast,
        happend, if_pos haccepts]
      rfl
    refine ⟨_, hstep, ⟨⟨?_, h.law.packets, h.law.immediate, ?_⟩, hlength, hfits, ?_, ?_⟩⟩
    · show s.writer.writePacketSize + (4 + n) = s.writer.writePacketPtr + 4 + n
      rw [h.law.size, Nat.add_assoc]
    · show s.sent.flatMap SentPacket.writes ++ (s.pending ++ _) = s.enqueued ++ _
      rw [← List.append_assoc, h.law.once]
    · intro hresidue
      show packet.take (s.writer.writePacketPtr + 4 + n) = List.flatMap _ (s.pending ++ _)
      rw [htake, h.clean hresidue, List.flatMap_append, List.flatMap_singleton]
    · intro hresidue
      show (List.flatMap _ (s.pending ++ _)).length < s.writer.writePacketPtr + 4 + n
      have hold := h.residue hresidue
      rw [List.flatMap_append, List.flatMap_singleton, List.length_append, length_entry_bytes,
        length_loadBytes]
      omega
  · obtain ⟨r, hr⟩ := @enqueueWrite_of_not s.writer addr buffer size haccepts
    refine ⟨s, ?_, h⟩
    rw [WriteSys.enqueue, hr, if_neg haccepts, Option.map_some]
    dsimp only
    rw [List.append_nil, List.append_nil]

lemma enqueue_eq_none (haccepts : s.writer.Accepts size) (hneg : size < 0) :
    s.enqueue addr buffer size = none := by
  rw [WriteSys.enqueue, enqueueWrite_of_accepts haccepts, if_pos hneg]
  rfl

/-! ### Writes that are sent at once -/

lemma WriteInv.immediate (h : WriteInv s) (addr : ℕ) (buffer : Mem) (sent : Bool)
    (hclean : s.writer.board.commActive = true → 0 ≤ size ∧ size ≤ sizeofTmpBuffer) :
    ∃ s', s.step (.write false addr buffer size sent) = some s' ∧ WriteInv s' := by
  by_cases hskip : s.writer.board.commActive = false ∨ size = 0
  · have hwrite : write false s.writer addr buffer size sent
        = some (.success, s.writer, none) := by
      rw [write, if_neg Bool.false_ne_true]
      rcases hskip with hinactive | rfl
      · rw [hinactive]
        rfl
      · rw [if_pos (rfl : (0 : ℤ) = 0), ite_self]
    refine ⟨s, ?_, h⟩
    rw [WriteSys.step, if_neg Bool.false_ne_true, hwrite, Option.map_some]
    dsimp only [Option.map_none, Option.toList_none]
    rw [List.append_nil]
  · obtain ⟨hactive, hzero⟩ := not_or.1 hskip
    obtain ⟨hsize, hle⟩ := hclean (by simpa using hactive)
    obtain ⟨n, rfl⟩ := Int.eq_ofNat_of_zero_le hsize
    have hwrite : write false s.writer addr buffer n sent =
        if sent then some (.success, { s.writer with board := s.writer.board.countWrite },
          some (⟨addr, loadBytes buffer 0 n⟩ : Entry).bytes)
        else some (.failure, { s.writer with
          board := (recordSoftError s.writer.board.countWrite).2 }, none) := by
      rw [write, if_neg Bool.false_ne_true, if_neg (by simpa using hactive), if_neg hzero,
        if_neg (by omega), Entry.bytes, length_loadBytes]
      rfl
    have hlaw : ∀ board : Board, ∀ sends, (∀ p ∈ sends, p.2 = Entry.bytes p.1) →
        WriteInv { s with
          writer := { s.writer with board := board }
          immediate := s.immediate ++ sends } := by
      intro board sends hsends
      refine ⟨⟨h.law.size, h.law.packets, fun p hp => ?_, h.law.once⟩, h.length, h.ptr_le, h.clean,
        h.residue⟩
      rcases List.mem_append.1 hp with hp | hp
      · exact h.law.immediate p hp
      · exact hsends p hp
    rw [WriteSys.step, if_neg Bool.false_ne_true, hwrite]
    cases sent with
    | true => exact ⟨_, rfl, hlaw _ _ fun p hp => by rw [List.mem_singleton.1 hp]; rfl⟩
    | false => exact ⟨_, rfl, hlaw _ _ fun p hp => absurd hp List.not_mem_nil⟩

lemma immediate_eq_none {sent : Bool} (hactive : s.writer.board.commActive = true)
    (hsize : ¬ (0 ≤ size ∧ size ≤ sizeofTmpBuffer)) :
    s.step (.write false addr buffer size sent) = none := by
  have hzero : size ≠ 0 := fun h => hsize ⟨by omega, by rw [h]; exact Int.natCast_nonneg _⟩
  have hout : size < 0 ∨ (sizeofTmpBuffer : ℤ) < size := by omega
  rw [WriteSys.step, if_neg Bool.false_ne_true, write, if_neg Bool.false_ne_true,
    if_neg (by simp [hactive]), if_neg hzero, if_pos hout]
  rfl

/-! ### Packets that are sent -/

/-- What a call to send does: it leaves the packet where it is if that is too full; else the packet
with the counter is handed to the socket. -/
lemma sendQueuedWrites_of_fits (h : WriteInv s) (sent : Bool)
    (hfits : s.writer.writePacketPtr + 8 ≤ sizeofWritePacket) :
    ∃ packet : List UInt8, packet.length = sizeofWritePacket ∧
      packet.take (s.writer.writePacketPtr + 8) =
        s.writer.writePacket.take s.writer.writePacketPtr ++
          counterBytes s.writer.board.countWrite.writeCnt ∧
      sendQueuedWrites s.writer sent = some (if sent then
        (.success, { s.writer with
          board := s.writer.board.countWrite
          writePacket := packet
          writePacketPtr := 0
          writePacketSize := 0 }, some (packet.take (s.writer.writePacketPtr + 8)))
        else (.failure, { s.writer with
          board := (recordSoftError s.writer.board.countWrite).2
          writePacket := packet
          writePacketPtr := s.writer.writePacketPtr + 8
          writePacketSize := s.writer.writePacketSize + 8 }, none)) := by
  obtain ⟨packet, hwrite, hlength, htake⟩ := exists_writeAt s.writer.writePacket
    s.writer.writePacketPtr (counterBytes s.writer.board.countWrite.writeCnt)
    (by rw [h.length, length_counterBytes]; exact hfits)
  refine ⟨packet, hlength.trans h.length, htake, ?_⟩
  have hread : readAt packet 0 (s.writer.writePacketSize + 8)
      = some (packet.take (s.writer.writePacketPtr + 8)) := by
    rw [readAt, if_pos (by rw [hlength, h.length, h.law.size]; omega), List.drop_zero, h.law.size]
  rw [sendQueuedWrites, if_neg (by omega)]
  dsimp only
  rw [hwrite, Option.bind_eq_bind, Option.bind_some, hread]
  cases sent <;> rfl

/-- A packet that is sent while no other has failed is the writes since the last one. -/
lemma WriteInv.send (h : WriteInv s) {sent : Bool} (hclean : Clean s (.send sent)) :
    ∃ s', s.step (.send sent) = some s' ∧ WriteInv s' := by
  by_cases hfull : sizeofWritePacket < s.writer.writePacketPtr + 4 + 4
  · have hsend : sendQueuedWrites s.writer sent = some (.failure, s.writer, none) := if_pos hfull
    refine ⟨s, ?_, h⟩
    rw [WriteSys.step, hsend, Option.map_some]
    dsimp only
    rw [decide_eq_false (lt_irrefl _), Bool.or_false]
  · have hfits : s.writer.writePacketPtr + 8 ≤ sizeofWritePacket := by omega
    obtain ⟨packet, hlength, htake, hsend⟩ := sendQueuedWrites_of_fits h sent hfits
    rw [WriteSys.step, hsend]
    cases sent with
    | true =>
      have hresidue : s.residue = false := (hclean rfl).resolve_right hfull
      refine ⟨_, rfl, ⟨⟨rfl, fun p hp => ?_, h.law.immediate, ?_⟩, hlength, Nat.zero_le _,
        fun _ => rfl, fun h => absurd h Bool.false_ne_true⟩⟩
      · rcases List.mem_append.1 hp with hp | hp
        · exact h.law.packets p hp
        · rw [List.mem_singleton.1 hp]
          show packet.take _ = packetBytes s.pending _
          rw [htake, h.clean hresidue]
          rfl
      · show List.flatMap _ (s.sent ++ _) ++ [] = s.enqueued
        rw [List.flatMap_append, List.flatMap_singleton, List.append_nil]
        exact h.law.once
    | false =>
      have hgrown : s.writer.writePacketPtr < s.writer.writePacketPtr + 8 := by omega
      have hresidue : (s.residue || decide (s.writer.writePacketPtr <
          s.writer.writePacketPtr + 8)) = true := by
        rw [decide_eq_true hgrown, Bool.or_true]
      refine ⟨_, rfl, ⟨⟨?_, h.law.packets, h.law.immediate, h.law.once⟩, hlength, hfits, ?_, ?_⟩⟩
      · show s.writer.writePacketSize + 8 = s.writer.writePacketPtr + 8
        rw [h.law.size]
      · intro hclear
        exact absurd (hresidue.symm.trans hclear) (by decide)
      · intro _
        show (s.pending.flatMap Entry.bytes).length < s.writer.writePacketPtr + 8
        cases hold : s.residue with
        | true =>
          have hlt := h.residue hold
          omega
        | false =>
          rw [← h.clean hold, List.length_take]
          omega

/-- Behind a packet that failed, the next one has what that one had, and its counter. -/
lemma WriteInv.send_residue (h : WriteInv s) (hresidue : s.residue = true)
    (hfits : s.writer.writePacketPtr + 8 ≤ sizeofWritePacket)
    (hstep : s.step (.send true) = some s') : ¬ WriteLaw s' := by
  intro hlaw
  obtain ⟨packet, hlength, htake, hsend⟩ := sendQueuedWrites_of_fits h true hfits
  rw [WriteSys.step, hsend] at hstep
  cases hstep
  have hpacket := hlaw.packets _ (List.mem_append_right _ (List.mem_singleton_self _))
  have hdatagram : packet.take (s.writer.writePacketPtr + 8)
      = packetBytes s.pending s.writer.board.countWrite.writeCnt := hpacket
  have hlen := congrArg List.length hdatagram
  have hshort := h.residue hresidue
  rw [htake, packetBytes, List.length_append, List.length_append, List.length_take,
    h.length] at hlen
  omega

/-- **In every run of clean calls the next one keeps the law of the packets, and copies inside the
buffers, exactly if it is clean.** -/
theorem writes_iff {board : Board}
    (h : Reach WriteSys.step Clean (.init board) s) (op : WriteOp) :
    (∃ s', s.step op = some s' ∧ WriteLaw s') ↔ Clean s op := by
  have hkeep : ∀ {s : WriteSys} {op : WriteOp}, WriteInv s → Clean s op →
      ∃ s', s.step op = some s' ∧ WriteInv s' := by
    intro s op hs hclean
    cases op with
    | enqueue addr buffer size => exact hs.enqueue addr buffer hclean
    | write rt addr buffer size sent =>
        cases rt with
        | true => exact hs.enqueue addr buffer hclean
        | false => exact hs.immediate addr buffer sent hclean
    | send sent => exact hs.send hclean
    | other board =>
        exact ⟨_, rfl, ⟨⟨hs.law.size, hs.law.packets, hs.law.immediate, hs.law.once⟩, hs.length,
          hs.ptr_le, hs.clean, hs.residue⟩⟩
  have hinv : WriteInv s := by
    refine Reach.invariant (P := WriteInv) (writeInv_init board) ?_ h
    intro s op s' hs hclean hstep
    obtain ⟨s'', hs'', hinv⟩ := hkeep hs hclean
    cases hs''.symm.trans hstep
    exact hinv
  constructor
  · rintro ⟨s', hstep, hlaw⟩
    by_contra hclean
    cases op with
    | enqueue addr buffer size =>
        obtain ⟨haccepts, hneg⟩ := Classical.not_imp.1 hclean
        have hnone := @enqueue_eq_none s addr buffer size haccepts (not_le.1 hneg)
        exact absurd (hnone.symm.trans hstep) (by simp)
    | write rt addr buffer size sent =>
        cases rt with
        | true =>
            obtain ⟨haccepts, hneg⟩ := Classical.not_imp.1 hclean
            have hnone := @enqueue_eq_none s addr buffer size haccepts (not_le.1 hneg)
            exact absurd (hnone.symm.trans hstep) (by simp)
        | false =>
            obtain ⟨hactive, hsize⟩ := Classical.not_imp.1 hclean
            have hnone := @immediate_eq_none s addr buffer size sent hactive hsize
            exact absurd (hnone.symm.trans hstep) (by simp)
    | send sent =>
        obtain ⟨rfl, hresidue⟩ := Classical.not_imp.1 hclean
        obtain ⟨hset, hfits⟩ := not_or.1 hresidue
        exact hinv.send_residue (by simpa using hset) (by omega) hstep hlaw
    | other board => exact hclean trivial
  · intro hclean
    obtain ⟨s', hstep, hs'⟩ := hkeep hinv hclean
    exact ⟨s', hstep, hs'.law⟩

/-- A board during its initialization. -/
def quietBoard : Board := .init none

/-- A write of four bytes is sent. -/
theorem writes_enqueued_and_sent : ∃ s s',
    (WriteSys.init quietBoard).step (.enqueue 0x1000 (fun _ => 7) 4) = some s ∧
      s.step (.send true) = some s' ∧ WriteLaw s' := by
  have hclean : Clean (.init quietBoard) (.enqueue 0x1000 (fun _ => 7) 4) := fun _ => by decide
  obtain ⟨s, hs, -⟩ := (writes_iff Reach.refl (.enqueue 0x1000 (fun _ => 7) 4)).2 hclean
  have hresidue : ((WriteSys.init quietBoard).step (.enqueue 0x1000 (fun _ => 7) 4)).map
      WriteSys.residue = some false := by decide +kernel
  rw [hs, Option.map_some, Option.some_inj] at hresidue
  obtain ⟨s', hs', hlaw⟩ := (writes_iff (Reach.refl.tail hclean hs) (.send true)).2
    fun _ => .inl hresidue
  exact ⟨s, s', hs, hs', hlaw⟩

/-- A packet that fails, and one behind it that is sent: it has both counters. -/
theorem writes_behind_failure :
    ¬ ∀ (board : Board) (s : WriteSys) (op : WriteOp),
      Reach WriteSys.step (fun _ _ => True) (.init board) s →
      ∃ s', s.step op = some s' ∧ WriteLaw s' := by
  intro hall
  have hclean : Clean (.init quietBoard) (.send false) := fun h => absurd h Bool.false_ne_true
  obtain ⟨s, hs, hinv⟩ := (writeInv_init quietBoard).send hclean
  obtain ⟨s', hs', hlaw⟩ := hall quietBoard s (.send true) (Reach.refl.tail trivial hs)
  have hstate : ((WriteSys.init quietBoard).step (.send false)).map
      (fun s => (s.residue, s.writer.writePacketPtr)) = some (true, 8) := by decide +kernel
  rw [hs, Option.map_some, Option.some_inj, Prod.mk.injEq] at hstate
  refine hinv.send_residue hstate.1 ?_ hs' hlaw
  rw [hstate.2]
  decide

end MachinekitHal.Eth
