import MachinekitHal.Hostmot2.EthWrites

/-!
Soft errors of the ethernet boards of hostmot2.

* `Soft`: the error level of a board, with the pins that it depends on.
* `Soft.raise`, `Soft.lower`, `Soft.reset`: what a failure, a clean receive and the start of a
  receive do to it.
* `recordSoftError_soft`, `write_soft`, `sendQueuedWrites_soft`, `sendQueuedReads_soft`,
  `receive_soft`: what the functions of the driver do to it.
-/

namespace MachinekitHal.Eth

open Bytes Word

/-- The error level, with the pins. -/
structure Soft where
  counter : ℤ
  ioError : Bool
  limit : ℤ
  increment : ℤ
  decrement : ℤ
  deriving DecidableEq

/-- The error level of a board. -/
def Board.soft (board : Board) : Option Soft :=
  board.hal.map fun hal =>
    { counter := board.commErrorCounter
      ioError := board.ioError
      limit := hal.packetErrorLimit
      increment := hal.packetErrorIncrement
      decrement := hal.packetErrorDecrement }

/-- The pins are 32-bit integers, the limit is positive, and the level is within it. -/
structure Soft.InRange (x : Soft) : Prop where
  counter_nonneg : 0 ≤ x.counter
  counter_le : x.counter ≤ x.limit
  one_le : 1 ≤ x.limit
  limit_lt : x.limit < 2147483648
  le_increment : -2147483648 ≤ x.increment
  increment_lt : x.increment < 2147483648
  le_decrement : -2147483648 ≤ x.decrement
  decrement_lt : x.decrement < 2147483648

/-- A failure. -/
def Soft.raise (x : Soft) : Soft :=
  { x with
    counter := min x.limit (x.counter + max 1 x.increment)
    ioError := decide (x.limit ≤ x.counter + max 1 x.increment) || x.ioError }

/-- A clean receive. -/
def Soft.lower (x : Soft) : Soft :=
  { x with counter := max 0 (x.counter - max 1 x.decrement) }

/-- The start of a receive. -/
def Soft.reset (x : Soft) : Soft :=
  if x.counter = x.limit ∧ x.ioError = false then { x with counter := 0 } else x

/-! ### The functions -/

variable {board : Board} {x : Soft} {w w' : Writer} {s s' : EthSys}

lemma soft_eq_some : board.soft = some x ↔ ∃ hal, board.hal = some hal ∧
    x = ⟨board.commErrorCounter, board.ioError, hal.packetErrorLimit, hal.packetErrorIncrement,
      hal.packetErrorDecrement⟩ := by
  rw [Board.soft, Option.map_eq_some_iff]
  exact exists_congr fun hal => and_congr_right fun _ => eq_comm

/-- `increment < 1` is taken for 1. -/
lemma ite_lt_one (a : ℤ) : (if a < 1 then 1 else a) = max 1 a := by
  split_ifs <;> omega

/-- The counter wraps to a negative number at most, which is taken for the limit. -/
lemma recordSoftError_soft (hsoft : board.soft = some x) (hx : x.InRange) :
    (recordSoftError board).2.soft = some x.raise := by
  obtain ⟨hal, hhal, rfl⟩ := soft_eq_some.1 hsoft
  obtain ⟨h0, hle, hone, hlim, hinc0, hinc, -, -⟩ := hx
  dsimp only at h0 hle hone hlim hinc0 hinc
  have hcounter : (if wrapInt (board.commErrorCounter + max 1 hal.packetErrorIncrement) < 0 ∨
      hal.packetErrorLimit < wrapInt (board.commErrorCounter + max 1 hal.packetErrorIncrement)
      then hal.packetErrorLimit
      else wrapInt (board.commErrorCounter + max 1 hal.packetErrorIncrement))
      = min hal.packetErrorLimit (board.commErrorCounter + max 1 hal.packetErrorIncrement) := by
    obtain ⟨k, hk⟩ := exists_wrapInt_eq (board.commErrorCounter + max 1 hal.packetErrorIncrement)
    have hlow := le_wrapInt (board.commErrorCounter + max 1 hal.packetErrorIncrement)
    have hhigh := wrapInt_lt (board.commErrorCounter + max 1 hal.packetErrorIncrement)
    split_ifs <;> omega
  rw [recordSoftError, hhal]
  dsimp only
  rw [ite_lt_one, hcounter, Soft.raise, Board.soft, Option.map_some]
  dsimp only
  have hiff : min hal.packetErrorLimit (board.commErrorCounter + max 1 hal.packetErrorIncrement)
      = hal.packetErrorLimit ↔
        hal.packetErrorLimit ≤ board.commErrorCounter + max 1 hal.packetErrorIncrement :=
    min_eq_left_iff
  simp only [hiff]

/-- The counter does not wrap downwards. -/
lemma decrementSoftError_soft (hsoft : board.soft = some x) (hx : x.InRange) :
    (decrementSoftError board).soft = some x.lower := by
  obtain ⟨hal, hhal, rfl⟩ := soft_eq_some.1 hsoft
  obtain ⟨h0, hle, hone, hlim, -, -, hdec0, hdec⟩ := hx
  dsimp only at h0 hle hone hlim hdec0 hdec
  have hwrap : wrapInt (board.commErrorCounter - max 1 hal.packetErrorDecrement)
      = board.commErrorCounter - max 1 hal.packetErrorDecrement := wrapInt_eq (by omega) (by omega)
  have hcounter : (if board.commErrorCounter - max 1 hal.packetErrorDecrement < 0 then 0
      else board.commErrorCounter - max 1 hal.packetErrorDecrement)
      = max 0 (board.commErrorCounter - max 1 hal.packetErrorDecrement) := by
    split_ifs <;> omega
  rw [decrementSoftError, hhal]
  dsimp only
  rw [ite_lt_one, hwrap, hcounter]
  rfl

lemma resetCounter_soft (hsoft : board.soft = some x) :
    board.resetCounter.soft = some x.reset := by
  obtain ⟨hal, hhal, rfl⟩ := soft_eq_some.1 hsoft
  rw [Board.resetCounter, hhal, Soft.reset]
  dsimp only
  split_ifs
  · rw [Board.soft, Option.map_some]
  · exact hsoft

lemma enqueueWrite_board {addr : ℕ} {buffer : Mem} {size : ℤ} {r : IoResult}
    (h : enqueueWrite w addr buffer size = some (r, w')) : w'.board = w.board := by
  rw [enqueueWrite] at h
  split_ifs at h
  · cases h
    rfl
  · cases h
    rfl
  · cases h
    rfl
  · obtain ⟨w₁, happend, hw⟩ := Option.map_eq_some_iff.1 h
    cases hw
    obtain ⟨p₁, -, hrest⟩ := Option.bind_eq_some_iff.1 happend
    obtain ⟨p₂, -, hp₂⟩ := Option.bind_eq_some_iff.1 hrest
    cases hp₂
    rfl

/-- An immediate write that the socket does not take. -/
def Writer.writeFails (w : Writer) (rt : Bool) (size : ℤ) (sent : Bool) : Bool :=
  !rt && w.board.commActive && decide (size ≠ 0) && !sent

lemma write_soft {rt : Bool} {addr : ℕ} {buffer : Mem} {size : ℤ} {sent : Bool} {r : IoResult}
    {d : Option (List UInt8)} (h : write rt w addr buffer size sent = some (r, w', d))
    (hsoft : w.board.soft = some x) (hx : x.InRange) :
    w'.board.soft = some (if w.writeFails rt size sent then x.raise else x) := by
  rw [write] at h
  rw [Writer.writeFails]
  split_ifs at h with hrt hactive hzero hout hsent
  · obtain ⟨⟨r, w₁⟩, henqueue, hw⟩ := Option.map_eq_some_iff.1 h
    cases hw
    rw [enqueueWrite_board henqueue, hrt]
    exact hsoft
  · cases h
    rw [Bool.not_eq_true'] at hactive
    rw [hactive, Bool.and_false]
    exact hsoft
  · cases h
    rw [decide_eq_false (not_not.2 hzero), Bool.and_false]
    exact hsoft
  · cases h
    rw [hsent, Bool.not_true, Bool.and_false]
    exact hsoft
  · cases h
    have hrecord := @recordSoftError_soft w.board.countWrite x hsoft hx
    have hactive' : w.board.commActive = true := by simpa using hactive
    have hfails : (!rt && w.board.commActive && decide (size ≠ 0) && !sent) = true := by
      simp [hrt, hactive', hzero, hsent]
    rw [if_pos hfails]
    exact hrecord

/-- A packet of writes that the socket does not take. -/
def Writer.sendFails (w : Writer) (sent : Bool) : Bool :=
  decide (w.writePacketPtr + 4 + 4 ≤ sizeofWritePacket) && !sent

lemma sendQueuedWrites_soft {sent : Bool} {r : IoResult} {d : Option (List UInt8)}
    (h : sendQueuedWrites w sent = some (r, w', d)) (hsoft : w.board.soft = some x)
    (hx : x.InRange) :
    w'.board.soft = some (if w.sendFails sent then x.raise else x) := by
  rw [sendQueuedWrites] at h
  rw [Writer.sendFails]
  split_ifs at h with hfull hsent
  · cases h
    rw [decide_eq_false (by omega), Bool.false_and]
    exact hsoft
  all_goals
    obtain ⟨packet, -, hrest⟩ := Option.bind_eq_some_iff.1 h
    obtain ⟨datagram, -, hend⟩ := Option.bind_eq_some_iff.1 hrest
    cases hend
    rw [decide_eq_true (by omega), Bool.true_and]
  · rw [hsent]
    exact hsoft
  · have hrecord := @recordSoftError_soft w.board.countWrite x hsoft hx
    rw [if_pos (by simpa using hsent)]
    exact hrecord

/-- A packet of reads that the socket does not take. -/
def Board.readsFail (board : Board) (sent : Bool) : Bool :=
  decide (board.readPacket.length + 4 * 3 + 4 ≤ readPacketSize) &&
    decide (board.readEntries.length + 2 < maxEthReads) && !sent

lemma softError_snd (board : Board) : (softError board).2 = (recordSoftError board).2 := rfl

lemma sendQueuedReads_soft {sent : Bool} (hsoft : board.soft = some x) (hx : x.InRange) :
    (sendQueuedReads board sent).2.soft
      = some (if board.readsFail sent then x.raise else x) := by
  rw [sendQueuedReads, Board.readsFail]
  by_cases hfull : readPacketSize < board.readPacket.length + 4 * 3 + 4
  · rw [if_pos hfull, decide_eq_false (not_le.2 hfull), Bool.false_and, Bool.false_and]
    exact hsoft
  · by_cases hmany : maxEthReads ≤ board.readEntries.length + 2
    · rw [if_neg hfull, if_pos hmany, decide_eq_false (not_lt.2 hmany), Bool.and_false,
        Bool.false_and]
      exact hsoft
    · rw [if_neg hfull, if_neg hmany, decide_eq_true (not_lt.1 hfull),
        decide_eq_true (not_le.1 hmany)]
      cases sent with
      | true => exact hsoft
      | false => exact @recordSoftError_soft board.addConfirm x hsoft hx

/-! ### Receives -/

lemma copyEntry_soft (tmp : Mem) (s : EthSys) (e : ReadEntry) :
    (copyEntry tmp s e).board.soft = s.board.soft := by
  rw [copyEntry]
  cases e.buffer <;> rfl

lemma copyEntries_soft (tmp : Mem) (s : EthSys) :
    (copyEntries tmp s).board.soft = s.board.soft := by
  rw [copyEntries]
  generalize s.board.readEntries = entries
  induction entries generalizing s with
  | nil => rfl
  | cons e entries ih => rw [List.foldl_cons, ih, copyEntry_soft]

lemma countWrongSeq_soft (board : Board) : board.countWrongSeq.soft = board.soft := by
  rw [Board.soft, Board.soft, Board.countWrongSeq, Option.map_map]
  rfl

/-- The arrivals do not change the level. -/
lemma receiveLoop_soft (early : List Arrival) (last : Arrival) (s : EthSys) :
    (receiveLoop early last s).1.board.soft = s.board.soft := by
  induction early generalizing s with
  | nil =>
    rw [receiveLoop]
    split_ifs
    · exact copyEntries_soft _ s
    · rfl
  | cons a early ih =>
    rw [receiveLoop]
    dsimp only
    split_ifs
    · rw [ih, countWrongSeq_soft, copyEntries_soft]
    · exact copyEntries_soft _ s
    · exact ih s

/-- A receive that times out, or whose packet does not confirm the writes. -/
def EthSys.receiveFails (s : EthSys) (early : List Arrival) (last : Arrival) : Bool :=
  let (s, arrival) := receiveLoop early last { s with board := s.board.resetCounter }
  match arrival with
  | none => true
  | some _ => decide (s.board.writeCnt ≠ 0) && decide (s.board.writeCnt ≠ s.board.confirmWriteCnt)

lemma Soft.InRange.reset (hx : x.InRange) : x.reset.InRange := by
  rw [Soft.reset]
  split_ifs
  · exact ⟨le_refl 0, zero_le_one.trans hx.one_le, hx.one_le, hx.limit_lt, hx.le_increment,
      hx.increment_lt, hx.le_decrement, hx.decrement_lt⟩
  · exact hx

lemma finishReceive_soft (hsoft : board.soft = some x) (hx : x.InRange) :
    (finishReceive board).2.soft = some (if decide (board.writeCnt ≠ 0) &&
      decide (board.writeCnt ≠ board.confirmWriteCnt) then x.raise else x.lower) := by
  obtain ⟨hal, hhal, -⟩ := soft_eq_some.1 hsoft
  rw [finishReceive, hhal]
  dsimp only
  by_cases hwrong : board.writeCnt ≠ 0 ∧ board.writeCnt ≠ board.confirmWriteCnt
  · rw [if_pos hwrong, softError_snd, decide_eq_true hwrong.1, decide_eq_true hwrong.2]
    exact recordSoftError_soft hsoft hx
  · rw [if_neg hwrong, ← Bool.decide_and, decide_eq_false hwrong]
    exact decrementSoftError_soft hsoft hx

/-- A receive, from the level behind the reset. -/
lemma receive_soft (early : List Arrival) (last : Arrival) (hsoft : s.board.soft = some x)
    (hx : x.InRange) : (receiveQueuedReads early last s).sys.board.soft
      = some (if s.receiveFails early last then x.reset.raise else x.reset.lower) := by
  have hloop := receiveLoop_soft early last { s with board := s.board.resetCounter }
  rw [resetCounter_soft hsoft] at hloop
  rw [receiveQueuedReads, EthSys.receiveFails]
  dsimp only
  generalize receiveLoop early last { s with board := s.board.resetCounter } = after at hloop ⊢
  obtain ⟨s', arrival⟩ := after
  cases arrival with
  | none => exact @recordSoftError_soft s'.board.cleared x.reset hloop hx.reset
  | some a => exact @finishReceive_soft s'.board.cleared x.reset hloop hx.reset

end MachinekitHal.Eth
