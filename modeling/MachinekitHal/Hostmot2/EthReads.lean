import MachinekitHal.Lib.Bytes
import MachinekitHal.Lib.Runs
import MachinekitHal.Lib.Word

/-!
Queued reads of the ethernet boards of hostmot2.

* `Eth.Board`: the read packet, the entries of the reads that are queued, the counters.
* `Eth.enqueueRead`, `Eth.sendQueuedReads`, `Eth.receiveQueuedReads`: the functions of the
  driver.
* `Eth.Arrival`: what one receive from the socket gives. A call receives a number of arrivals
  before its deadline and one behind it.
* `Eth.EthSys.step`: the calls in any order, with whatever the rest of the driver does in
  between.

The maxima of times and attempts that the driver keeps as statistics are left out.
-/

namespace MachinekitHal.Eth

open Bytes Word

/-- `MAX_ETH_READS`. -/
def maxEthReads : ℕ := 64

/-- `sizeof(board->read_packet)`. -/
def readPacketSize : ℕ := 1400

/-- Where the bytes of a read go: to a buffer of the caller or to a field of the board. -/
inductive Dest where
  | user (buffer : ℕ)
  | rxudpcount
  /-- `confirm_read_cnt` and `confirm_write_cnt` -/
  | confirm
  deriving DecidableEq

/-- `hm2_read_entry_t`. -/
structure ReadEntry where
  buffer : Dest
  size : ℕ
  receivedDataOffset : ℕ
  deriving DecidableEq

/-- The pins of `hm2_eth_global_t` that the functions use. -/
structure Hal where
  packetErrorLimit : ℤ
  packetErrorIncrement : ℤ
  packetErrorDecrement : ℤ
  packetError : Bool
  packetErrorLevel : ℤ
  packetErrorExceeded : Bool
  packetWrongSeq : ℤ
  deriving DecidableEq

/-- `hm2_eth_t`. The packet is the part in front of `read_packet_ptr`, the entries are those
below `read_entry_count`. -/
structure Board where
  commActive : Bool
  readPacket : List UInt8
  readEntries : List ReadEntry
  totalReadBufferSize : ℕ
  readCnt : ℕ
  writeCnt : ℕ
  confirmReadCnt : ℕ
  confirmWriteCnt : ℕ
  rxudpcount : ℕ
  commErrorCounter : ℤ
  needsSoftReset : Bool
  ioError : Bool
  hal : Option Hal
  deriving DecidableEq

/-- The return values: `0`, `1` and `-EAGAIN`. -/
inductive IoResult where
  | failure
  | success
  | again
  deriving DecidableEq

/-! ### Soft errors -/

/-- `record_soft_error`; the answer is whether the error is below the limit. -/
def recordSoftError (board : Board) : Bool × Board :=
  match board.hal with
  | none => (true, board)
  | some hal =>
    let increment := if hal.packetErrorIncrement < 1 then 1 else hal.packetErrorIncrement
    let counter := wrapInt (board.commErrorCounter + increment)
    let counter := if counter < 0 ∨ hal.packetErrorLimit < counter then hal.packetErrorLimit
      else counter
    let tripped := counter = hal.packetErrorLimit
    (!decide tripped,
      { board with
        needsSoftReset := true
        commErrorCounter := counter
        ioError := decide tripped || board.ioError
        hal := some { hal with
          packetError := true, packetErrorLevel := counter, packetErrorExceeded := tripped } })

/-- `decrement_soft_error`. -/
def decrementSoftError (board : Board) : Board :=
  match board.hal with
  | none => board
  | some hal =>
    let decrement := if hal.packetErrorDecrement < 1 then 1 else hal.packetErrorDecrement
    let counter := wrapInt (board.commErrorCounter - decrement)
    let counter := if counter < 0 then 0 else counter
    { board with
      commErrorCounter := counter
      hal := some { hal with
        packetError := false, packetErrorLevel := counter, packetErrorExceeded := false } }

/-- A soft error as a return value. -/
def softError (board : Board) : IoResult × Board :=
  let (below, board) := recordSoftError board
  (if below then .again else .failure, board)

/-! ### Packets -/

/-- `LBP16_INIT_PACKET4`. -/
def lbp16InitPacket4 (cmd addr : ℕ) : List UInt8 :=
  [UInt8.ofNat cmd, UInt8.ofNat (cmd / 256), UInt8.ofNat addr, UInt8.ofNat (addr / 256)]

/-- `CMD_READ_HOSTMOT2_ADDR32_INCR`. -/
def cmdReadHostmot2Addr32Incr (size : ℕ) : ℕ := 0x4280 + size % 128

/-- `CMD_READ_COMM_CTRL_ADDR16(1)`. -/
def cmdReadCommCtrl : ℕ := 0x5901

/-- `CMD_WRITE_TIMER_ADDR16_INCR(2)`. -/
def cmdWriteTimer : ℕ := 0xD182

/-- `CMD_READ_TIMER_ADDR16_INCR(4)`. -/
def cmdReadTimer : ℕ := 0x5184

/-- A read at the end of the queue. -/
def Board.push (board : Board) (cmd addr : ℕ) (buffer : Dest) (size : ℕ) : Board :=
  { board with
    readPacket := board.readPacket ++ lbp16InitPacket4 cmd addr
    readEntries := board.readEntries ++ [⟨buffer, size, board.totalReadBufferSize⟩]
    totalReadBufferSize := board.totalReadBufferSize + size }

/-- `hm2_eth_enqueue_read`. Sizes are `int`s; those of a packet add up to less than `2 ^ 31`. -/
def enqueueRead (board : Board) (addr buffer size : ℕ) : IoResult × Board :=
  if !board.commActive then (.success, board)
  else if size = 0 then (.success, board)
  else if readPacketSize < board.readPacket.length + 4 then (.failure, board)
  else if maxEthReads ≤ board.readEntries.length then (.failure, board)
  else (.success, board.push (cmdReadHostmot2Addr32Incr (size / 4)) addr (.user buffer) size)

/-- The reads that `hm2_eth_send_queued_reads` adds: the count of received packets, and the
sequence number, which the board is told in front of it. -/
def Board.addConfirm (board : Board) : Board :=
  let board := board.push cmdReadCommCtrl 0x8 .rxudpcount 2
  let board := { board with readCnt := wrap32 (board.readCnt + 1) }
  let board := { board with
    readPacket := board.readPacket ++ lbp16InitPacket4 cmdWriteTimer 0x10 ++ le32 board.readCnt }
  board.push cmdReadTimer 0x10 .confirm 8

/-- `hm2_eth_send_queued_reads`; `sent` is whether the socket takes the packet. -/
def sendQueuedReads (board : Board) (sent : Bool) : IoResult × Board :=
  if readPacketSize < board.readPacket.length + 4 * 3 + 4 then (.failure, board)
  else if maxEthReads ≤ board.readEntries.length + 2 then (.failure, board)
  else
    let board := board.addConfirm
    if sent then (.success, board) else softError board

/-- The queue after `hm2_eth_receive_queued_reads`. -/
def Board.cleared (board : Board) : Board :=
  { board with readPacket := [], readEntries := [], totalReadBufferSize := 0 }

/-! ### Replies -/

/-- The reply of the board to a packet: the bytes of its reads up to the last, and the two
counters that the last one reads. -/
structure Reply where
  fields : List (List UInt8)
  seq : ℕ
  writeCnt : ℕ
  deriving DecidableEq

/-- The datagram. -/
def Reply.wire (r : Reply) : List UInt8 := r.fields.flatten ++ (le32 r.seq ++ le32 r.writeCnt)

/-- What one receive from the socket gives: an error or a timeout, a datagram that is too
short, or the reply to this or another packet. -/
inductive Arrival where
  | nothing
  | short (bytes : List UInt8)
  | reply (r : Reply)
  deriving DecidableEq

/-- The bytes received; a longer datagram is cut. -/
def Arrival.bytes (total : ℕ) : Arrival → List UInt8
  | .nothing => []
  | .short bytes => bytes.take total
  | .reply r => r.wire.take total

/-- `recv == board->total_read_buffer_size`. -/
def Arrival.full (total : ℕ) : Arrival → Bool
  | .nothing => false
  | .short bytes => (bytes.take total).length = total
  | .reply r => (r.wire.take total).length = total

/-- `tmp_buffer`. -/
def tmpBuffer (bytes : List UInt8) : Mem := fun x => (bytes[x]?).getD 0

/-- The board and the memory of the callers. -/
structure EthSys where
  board : Board
  mem : Mem

/-- `memcpy` of one entry. -/
def copyEntry (tmp : Mem) (s : EthSys) (e : ReadEntry) : EthSys :=
  match e.buffer with
  | .user buffer =>
    { s with mem := storeBytes s.mem buffer (loadBytes tmp e.receivedDataOffset e.size) }
  | .rxudpcount =>
    { s with board := { s.board with
        rxudpcount := load32 tmp e.receivedDataOffset % 65536 } }
  | .confirm =>
    { s with board := { s.board with
        confirmReadCnt := load32 tmp e.receivedDataOffset
        confirmWriteCnt := load32 tmp (e.receivedDataOffset + 4) } }

/-- The copy loop. -/
def copyEntries (tmp : Mem) (s : EthSys) : EthSys := s.board.readEntries.foldl (copyEntry tmp) s

/-- `packet_wrong_seq` is counted up. -/
def Board.countWrongSeq (board : Board) : Board :=
  { board with hal := board.hal.map fun hal =>
      { hal with packetWrongSeq := wrapInt (hal.packetWrongSeq + 1) } }

/-- The loop of `hm2_eth_receive_queued_reads` over the arrivals before the deadline and the
first one behind it. Beside the state stands the arrival it is left with, if there is one. -/
def receiveLoop : List Arrival → Arrival → EthSys → EthSys × Option Arrival
  | [], last, s =>
    if last.full s.board.totalReadBufferSize then
      (copyEntries (tmpBuffer (last.bytes s.board.totalReadBufferSize)) s, some last)
    else (s, none)
  | a :: early, last, s =>
    if a.full s.board.totalReadBufferSize then
      let s := copyEntries (tmpBuffer (a.bytes s.board.totalReadBufferSize)) s
      -- not the packet that was asked for: once more
      if s.board.confirmReadCnt ≠ s.board.readCnt then
        receiveLoop early last { s with board := s.board.countWrongSeq }
      else (s, some a)
    else receiveLoop early last s

/-- An operator has reset `io_error`. -/
def Board.resetCounter (board : Board) : Board :=
  match board.hal with
  | none => board
  | some hal =>
    if board.commErrorCounter = hal.packetErrorLimit ∧ board.ioError = false then
      { board with commErrorCounter := 0 }
    else board

/-- The end of `hm2_eth_receive_queued_reads` when a packet was received. -/
def finishReceive (board : Board) : IoResult × Board :=
  match board.hal with
  | none => (.success, board)
  | some _ =>
    if board.writeCnt ≠ 0 ∧ board.writeCnt ≠ board.confirmWriteCnt then softError board
    else (.success, decrementSoftError board)

/-- What a call of `hm2_eth_receive_queued_reads` leaves. -/
structure Received where
  result : IoResult
  sys : EthSys
  arrival : Option Arrival

/-- `hm2_eth_receive_queued_reads`. -/
def receiveQueuedReads (early : List Arrival) (last : Arrival) (s : EthSys) : Received :=
  let (s, arrival) := receiveLoop early last { s with board := s.board.resetCounter }
  let board := s.board.cleared
  let (result, board) := match arrival with
    | none => softError board
    | some _ => finishReceive board
  { result := result, sys := { s with board := board }, arrival := arrival }

/-! ### Runs -/

/-- The calls; `other` is anything else that the driver or its users do to the board. -/
inductive EthOp where
  | enqueue (addr buffer size : ℕ)
  | send (sent : Bool)
  | receive (early : List Arrival) (last : Arrival)
  | other (board : Board) (mem : Mem)

/-- The queue is the same. -/
def Board.sameQueue (board board' : Board) : Bool :=
  board.readPacket = board'.readPacket && board.readEntries = board'.readEntries &&
    board.totalReadBufferSize = board'.totalReadBufferSize

/-- One call. -/
def EthSys.step (s : EthSys) : EthOp → Option EthSys
  | .enqueue addr buffer size =>
    some { s with board := (enqueueRead s.board addr buffer size).2 }
  | .send sent => some { s with board := (sendQueuedReads s.board sent).2 }
  | .receive early last => some (receiveQueuedReads early last s).sys
  | .other board mem => if s.board.sameQueue board then some ⟨board, mem⟩ else none

/-- The board after `init_board`. -/
def Board.init (hal : Option Hal) : Board where
  commActive := true
  readPacket := []
  readEntries := []
  totalReadBufferSize := 0
  readCnt := 0
  writeCnt := 0
  confirmReadCnt := 0
  confirmWriteCnt := 0
  rxudpcount := 0
  commErrorCounter := 0
  needsSoftReset := false
  ioError := false
  hal := hal

end MachinekitHal.Eth
