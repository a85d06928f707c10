import MachinekitHal.Basic
import Mathlib.Tactic

/-!
The packet UART of hostmot2.

* `Answer`, `Board`: what the board returns for each read of a register.
* `ReadState`, `readBytes`, `readFrames`, `hm2PktuartRead`: the frames that were received.
* `SendState`, `sendBytes`, `sendFrames`, `hm2PktuartSend`: the frames that are sent.
* `readBytes_eq`: what one frame leaves behind.

`llio->read` and `llio->write` return 0 on failure and 1 on success.
-/

namespace MachinekitHal.Pktuart

/-- A read of a register: its success, and `buff` behind it. -/
structure Answer where
  ok : Bool
  buff : BitVec 32
  deriving DecidableEq

/-- What `llio->read` returns. -/
def Answer.r (a : Answer) : ℤ := if a.ok then 1 else 0

/-- `hm2_get_pktuart` finds an instance, and this is its bitrate. -/
abbrev Instance := Option ℕ

/-! ### Receiving -/

/-- The answers of a board: the mode register, and the two FIFOs in the order of their reads. -/
structure Board where
  rxMode : Answer
  rxCount : ℕ → Answer
  rx : ℕ → Answer

/-- Tx and Rx errors. -/
def TxSCFIFOError : ℤ := 214
def RxRCFIFOError : ℤ := 114
def RxOverrunError : ℤ := 111
def RxStartbitError : ℤ := 110
def RxPacketOverrrunError : ℤ := 1115
def RxPacketStartbitError : ℤ := 1114
def RxPacketSizeZero : ℤ := 1120
def RxArraySizeError : ℤ := 1140

/-- A byte in the array of the caller, and whether the read that it is from succeeded. -/
structure Stored where
  byte : BitVec 8
  ok : Bool
  deriving DecidableEq

/-- The arrays of the caller as far as they are written, the words that were read from the data
FIFO, and whether a read has failed. -/
structure ReadState where
  numFrames : BitVec 8
  frameSizes : ℕ → Option ℕ
  data : ℕ → Option Stored
  words : ℕ
  failed : Bool

/-- Nothing is written. -/
def ReadState.start (numFrames : BitVec 8) : ReadState :=
  ⟨numFrames, fun _ => none, fun _ => none, 0, false⟩

/-- A register is read. -/
def ReadState.note (a : Answer) (s : ReadState) : ReadState :=
  { s with failed := s.failed || !a.ok }

/-- The byte `k` of a word. -/
def byteOf (buff : BitVec 32) (k : ℕ) : BitVec 8 :=
  ((buff &&& (0xff : BitVec 32) <<< (8 * k)) >>> (8 * k)).setWidth 8

/-- The first `n` bytes of a word are stored. -/
def ReadState.store (index n : ℕ) (a : Answer) (s : ReadState) : ReadState :=
  { s with data := fun j =>
      if index ≤ j ∧ j < index + n then some ⟨byteOf a.buff (j - index), a.ok⟩ else s.data j }

/-- A word is read from the data FIFO. -/
def ReadState.fetch (a : Answer) (s : ReadState) : ReadState :=
  { s.note a with words := s.words + 1 }

variable (board : Board)

/-- The last 1 to 3 bytes of a frame. -/
def lastBytes (bytesTotal left c : ℕ) (s : ReadState) : Option ℤ × ReadState :=
  let a := board.rx s.words
  let s := (s.fetch a).store (bytesTotal + c) left a
  if a.r < 0 then (some (-1), s) else (none, s)

/-- The bytes of a frame from `c` on, of which so many are left. A result ends the function. -/
def readBytes (bytesTotal : ℕ) : ℕ → ℕ → ReadState → Option ℤ × ReadState
  | 0, _, s => (none, s)
  | 1, c, s => lastBytes board bytesTotal 1 c s
  | 2, c, s => lastBytes board bytesTotal 2 c s
  | 3, c, s => lastBytes board bytesTotal 3 c s
  | left + 4, c, s =>
    let a := board.rx s.words
    let s := s.fetch a
    if a.r < 0 then (some a.r, s)
    else readBytes bytesTotal left (c + 4) (s.store (bytesTotal + c) 4 a)

/-- The loop over the frames from `i` on, of which so many are left. -/
def readFrames (dataSize : ℕ) : ℕ → ℕ → ℕ → ReadState → ℤ × ReadState
  | 0, _, bytesTotal, s => (bytesTotal, s)
  | left + 1, i, bytesTotal, s =>
    let a := board.rxCount i
    let s := s.note a
    let countb := (a.buff &&& 0x3ff).toNat
    if a.buff.getLsbD 14 then (-RxPacketStartbitError, s)
    else if a.buff.getLsbD 15 then (-RxPacketOverrrunError, s)
    else if countb = 0 then (-RxPacketSizeZero, s)
    else if bytesTotal + countb > dataSize then (-RxArraySizeError, s)
    else
      let s := { s with
        numFrames := s.numFrames + 1
        frameSizes := Function.update s.frameSizes i (some countb) }
      match readBytes board bytesTotal countb 0 s with
      | (some r, s) => (r, s)
      | (none, s) => readFrames dataSize left (i + 1) (bytesTotal + countb) s

/-- `hm2_pktuart_read`. -/
def hm2PktuartRead (inst : Instance) (numFrames : BitVec 8) (maxFrameLength : BitVec 16) :
    ℤ × ReadState :=
  let dataSize : BitVec 16 := BitVec.ofNat 16 (numFrames.toNat * maxFrameLength.toNat)
  match inst with
  | none => (-Errno.EINVAL.code, .start 0)
  | some bitrate =>
    if bitrate = 0 then (-Errno.EINVAL.code, .start 0)
    else
      let a := board.rxMode
      let s := (ReadState.start numFrames).note a
      if a.r < 0 then (-1, s)
      else
        let countp := ((a.buff >>> 16) &&& 0x1f).toNat
        let s := { s with numFrames := 0 }
        if a.buff.getLsbD 1 then (-RxOverrunError, s)
        else if a.buff.getLsbD 0 then (-RxStartbitError, s)
        else if a.buff.getLsbD 4 then (-RxRCFIFOError, s)
        else if countp = 0 then (0, s)
        else readFrames board dataSize.toNat countp 0 0 s

/-! ### Sending -/

/-- `MaxTrFrames` -/
def MaxTrFrames : ℕ := 16

/-- The words that are written to the data FIFO and to the count register. -/
structure SendState where
  numFrames : BitVec 8
  tx : List (BitVec 32)
  txCount : List (BitVec 32)

/-- `data[c] + (data[c+1] << 8) + …`, for `n` bytes. -/
def word (data : ℕ → BitVec 8) (c : ℕ) : ℕ → BitVec 32
  | 0 => 0
  | n + 1 => word data c n + (data (c + n)).setWidth 32 <<< (8 * n)

/-- A word is written to the data FIFO. -/
def SendState.write (buff : BitVec 32) (s : SendState) : SendState :=
  { s with tx := s.tx ++ [buff] }

/-- The bytes of a frame from `c` on, of which so many are left. -/
def sendBytes (data : ℕ → BitVec 8) : ℕ → ℕ → SendState → SendState
  | 0, _, s => s
  | 1, c, s => s.write (word data c 1)
  | 2, c, s => s.write (word data c 2)
  | 3, c, s => s.write (word data c 3)
  | left + 4, c, s => sendBytes data left (c + 4) (s.write (word data c 4))

/-- The loop over the frames from `i` on, of which so many are left. `txMode` are the answers of the
mode register. -/
def sendFrames (txMode : ℕ → Answer) (data : ℕ → BitVec 8) (frameSizes : ℕ → BitVec 16) :
    ℕ → ℕ → BitVec 16 → ℕ → SendState → ℤ × SendState
  | 0, _, count, _, s => (count.toNat, s)
  | left + 1, i, count, c, s =>
    let count := count + frameSizes i
    if count.toNat < c then (-1, s)
    else
      let s := sendBytes data (count.toNat - c) c s
      let s := { s with txCount := s.txCount ++ [(frameSizes i).setWidth 32] }
      let a := txMode i
      if a.buff.getLsbD 4 then (-TxSCFIFOError, s)
      else if a.r < 0 then (-1, s)
      else sendFrames txMode data frameSizes left (i + 1) count count.toNat
        { s with numFrames := s.numFrames + 1 }

/-- `hm2_pktuart_send`. -/
def hm2PktuartSend (inst : Instance) (txMode : ℕ → Answer) (data : ℕ → BitVec 8)
    (numFrames : BitVec 8) (frameSizes : ℕ → BitVec 16) : ℤ × SendState :=
  match inst with
  | none => (-Errno.EINVAL.code, ⟨numFrames, [], []⟩)
  | some bitrate =>
    if bitrate = 0 then (-Errno.EINVAL.code, ⟨numFrames, [], []⟩)
    else
      let nframes := if numFrames.toNat > MaxTrFrames then MaxTrFrames else numFrames.toNat
      sendFrames txMode data frameSizes nframes 0 0 0 ⟨0, [], []⟩

/-! ### One frame -/

section Frame

variable {board} {bytesTotal left c : ℕ} {s : ReadState}

lemma Answer.r_nonneg (a : Answer) : ¬ a.r < 0 := by
  rw [Answer.r]
  split_ifs <;> decide

/-- The words of so many bytes. -/
def wordsOf (n : ℕ) : ℕ := (n + 3) / 4

/-- One of some words could not be read. -/
def Board.wordFailed (board : Board) (first n : ℕ) : Bool :=
  (List.range' first n).any fun k => !(board.rx k).ok

/-- The byte of a frame whose first word is `first`. -/
def Board.stored (board : Board) (first x : ℕ) : Stored :=
  ⟨byteOf (board.rx (first + x / 4)).buff (x % 4), (board.rx (first + x / 4)).ok⟩

/-- The bytes behind the first word. -/
lemma stored_succ (board : Board) (first x : ℕ) :
    board.stored first (x + 4) = board.stored (first + 1) x := by
  have hdiv : (x + 4) / 4 = x / 4 + 1 := by omega
  rw [Board.stored, Board.stored, hdiv, Nat.add_mod_right, Nat.add_assoc, Nat.add_comm 1]

/-- What `n` bytes leave behind in the arrays. -/
def ReadState.advance (board : Board) (index n : ℕ) (s : ReadState) : ReadState :=
  { s with
    data := fun j =>
      if index ≤ j ∧ j < index + n then some (board.stored s.words (j - index)) else s.data j
    words := s.words + wordsOf n
    failed := s.failed || board.wordFailed s.words (wordsOf n) }

lemma lastBytes_eq (hpos : 0 < left) (hlt : left < 4) :
    lastBytes board bytesTotal left c s = (none, s.advance board (bytesTotal + c) left) := by
  have hwords : wordsOf left = 1 := by
    rw [wordsOf]
    omega
  rw [lastBytes, if_neg (Answer.r_nonneg _), ReadState.advance, hwords]
  refine congrArg (Prod.mk none) ?_
  rw [ReadState.store, ReadState.fetch, ReadState.note]
  congr 1
  · funext j
    split_ifs with hj
    · have hdiv : (j - (bytesTotal + c)) / 4 = 0 := by omega
      have hmod : (j - (bytesTotal + c)) % 4 = j - (bytesTotal + c) := by omega
      rw [Board.stored, hdiv, hmod, Nat.add_zero]
    · rfl
  · simp [Board.wordFailed]

/-- The arrays behind the bytes of a frame. -/
lemma readBytes_eq (board : Board) (bytesTotal left c : ℕ) (s : ReadState) :
    readBytes board bytesTotal left c s = (none, s.advance board (bytesTotal + c) left) := by
  induction left using Nat.strong_induction_on generalizing c s with
  | _ left ih =>
    match left, ih with
    | 0, _ =>
      have hdata : (fun j => if bytesTotal + c ≤ j ∧ j < bytesTotal + c + 0 then
          some (board.stored s.words (j - (bytesTotal + c))) else s.data j) = s.data :=
        funext fun j => if_neg (by omega)
      rw [readBytes, ReadState.advance, hdata]
      simp [wordsOf, Board.wordFailed]
    | 1, _ => exact lastBytes_eq (by omega) (by omega)
    | 2, _ => exact lastBytes_eq (by omega) (by omega)
    | 3, _ => exact lastBytes_eq (by omega) (by omega)
    | left + 4, ih =>
      have hwords : wordsOf (left + 4) = wordsOf left + 1 := by
        rw [wordsOf, wordsOf]
        omega
      rw [readBytes, if_neg (Answer.r_nonneg _), ih left (by omega)]
      refine congrArg (Prod.mk none) ?_
      rw [ReadState.advance, ReadState.advance, ReadState.store, ReadState.fetch,
        ReadState.note, hwords]
      dsimp only
      congr 1
      · funext j
        by_cases hfirst : bytesTotal + c ≤ j ∧ j < bytesTotal + c + 4
        · -- the bytes of this word
          have hdiv : (j - (bytesTotal + c)) / 4 = 0 := by omega
          have hmod : (j - (bytesTotal + c)) % 4 = j - (bytesTotal + c) := by omega
          rw [if_neg (by omega), if_pos hfirst, if_pos (by omega), Board.stored, hdiv, hmod,
            Nat.add_zero]
        · by_cases hrest : bytesTotal + (c + 4) ≤ j ∧ j < bytesTotal + (c + 4) + left
          · rw [if_pos hrest, if_pos (by omega)]
            have hsub : j - (bytesTotal + c) = j - (bytesTotal + (c + 4)) + 4 := by omega
            rw [hsub]
            exact congrArg some (stored_succ _ _ _).symm
          · rw [if_neg hrest, if_neg hfirst, if_neg (by omega)]
      · omega
      · rw [Board.wordFailed, Board.wordFailed, List.range'_succ, List.any_cons,
          Bool.or_assoc]

end Frame

end MachinekitHal.Pktuart
