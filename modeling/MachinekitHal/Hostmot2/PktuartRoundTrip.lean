import MachinekitHal.Hostmot2.PktuartRead

/-!
Packets that are sent and read back.

* `begins`, `Holds`: frames in the arrays of the sender.
* `loopback`: what is written comes back from the FIFOs.
* `Returned`: the same frames in the arrays of the receiver.
* `frameWords`, `sendFrames_eq`: the words that are written.
* `returned_iff`: the frames are returned exactly if the product of the limits, in 16 bits, is not
  too small.
-/

namespace MachinekitHal.Pktuart

/-- Where a frame begins, if the frames are put one behind the other. -/
def begins (frames : List (List (BitVec 8))) (i : ℕ) : ℕ :=
  ((frames.take i).map List.length).sum

/-- The bytes of all frames. -/
def totalBytes (frames : List (List (BitVec 8))) : ℕ := (frames.map List.length).sum

/-- The arrays of the sender hold the frames. -/
structure Holds (data : ℕ → BitVec 8) (frameSizes : ℕ → BitVec 16)
    (frames : List (List (BitVec 8))) : Prop where
  sizes : ∀ i (hi : i < frames.length), (frameSizes i).toNat = frames[i].length
  bytes : ∀ i (hi : i < frames.length), ∀ x (hx : x < frames[i].length),
    data (begins frames i + x) = frames[i][x]

/-- All that is written is returned in order, and the mode register is `mode`. -/
def loopback (mode : BitVec 32) (s : SendState) : Board where
  rxMode := ⟨true, mode⟩
  rxCount i := ⟨true, s.txCount.getD i 0⟩
  rx k := ⟨true, s.tx.getD k 0⟩

/-- The mode register announces so many frames, and no errors. -/
structure Announces (mode : BitVec 32) (n : ℕ) : Prop where
  count : ((mode >>> 16) &&& 0x1f).toNat = n
  overrun : mode.getLsbD 1 = false
  startbit : mode.getLsbD 0 = false
  fifo : mode.getLsbD 4 = false

/-- The function returns exactly these frames. -/
structure Returned (frames : List (List (BitVec 8))) (result : ℤ × ReadState) : Prop where
  ret : result.1 = totalBytes frames
  number : result.2.numFrames.toNat = frames.length
  sizes : ∀ i, result.2.frameSizes i = frames[i]?.map List.length
  bytes : ∀ i (hi : i < frames.length), ∀ x (hx : x < frames[i].length),
    result.2.data (begins frames i + x) = some ⟨frames[i][x], true⟩
  rest : ∀ j, totalBytes frames ≤ j → result.2.data j = none

/-! ### Words -/

section Words

variable {data : ℕ → BitVec 8} {c n k : ℕ}

/-- The mask and the shift are a division. -/
lemma byteOf_toNat (buff : BitVec 32) (hk : k < 4) :
    (byteOf buff k).toNat = buff.toNat / 2 ^ (8 * k) % 2 ^ 8 := by
  have hbyte : byteOf buff k = (buff >>> (8 * k)).setWidth 8 := by
    refine BitVec.eq_of_getLsbD_eq fun i hi => ?_
    have hmask : (0xff : BitVec 32).getLsbD i = true := by
      interval_cases i <;> rfl
    rw [byteOf, BitVec.getLsbD_setWidth, BitVec.getLsbD_ushiftRight, BitVec.getLsbD_and,
      BitVec.getLsbD_shiftLeft, BitVec.getLsbD_setWidth, BitVec.getLsbD_ushiftRight,
      Nat.add_sub_cancel_left, hmask, decide_eq_true (by omega : 8 * k + i < 32),
      decide_eq_false (by omega : ¬ 8 * k + i < 8 * k)]
    simp
  rw [hbyte, BitVec.toNat_setWidth, BitVec.toNat_ushiftRight, Nat.shiftRight_eq_div_pow]

/-- One more byte in front of a word. -/
lemma word_succ_toNat (data : ℕ → BitVec 8) (c : ℕ) (hn : n < 4)
    (hlt : (word data c n).toNat < 2 ^ (8 * n)) : (word data c (n + 1)).toNat
      = (word data c n).toNat + 2 ^ (8 * n) * (data (c + n)).toNat := by
  have hbyte := (data (c + n)).isLt
  have hpow : 2 ^ (8 * n) * 2 ^ 8 ≤ 2 ^ 32 := by
    rw [← pow_add]
    exact Nat.pow_le_pow_right (by norm_num) (by omega)
  have hmul : 2 ^ (8 * n) * (data (c + n)).toNat ≤ 2 ^ (8 * n) * (2 ^ 8 - 1) :=
    Nat.mul_le_mul_left _ (by omega)
  rw [Nat.mul_sub, Nat.mul_one] at hmul
  have hpos : 0 < 2 ^ (8 * n) := Nat.two_pow_pos _
  rw [word, BitVec.toNat_add, BitVec.toNat_shiftLeft, BitVec.toNat_setWidth,
    Nat.mod_eq_of_lt (by omega : (data (c + n)).toNat < 2 ^ 32), Nat.shiftLeft_eq, Nat.mul_comm,
    Nat.mod_eq_of_lt (by omega : 2 ^ (8 * n) * (data (c + n)).toNat < 2 ^ 32),
    Nat.mod_eq_of_lt (by omega)]

lemma word_lt (data : ℕ → BitVec 8) (c : ℕ) (hn : n ≤ 4) :
    (word data c n).toNat < 2 ^ (8 * n) := by
  induction n with
  | zero => exact Nat.one_pos
  | succ n ih =>
    have hbyte := (data (c + n)).isLt
    have hmul : 2 ^ (8 * n) * (data (c + n)).toNat ≤ 2 ^ (8 * n) * (2 ^ 8 - 1) :=
      Nat.mul_le_mul_left _ (by omega)
    rw [Nat.mul_sub, Nat.mul_one] at hmul
    have hlt := ih (by omega)
    rw [word_succ_toNat data c (by omega) hlt, Nat.mul_succ, pow_add]
    omega

/-- A byte of a word is the byte that was packed. -/
lemma byteOf_word (data : ℕ → BitVec 8) (c : ℕ) (hn : n ≤ 4) (hk : k < n) :
    byteOf (word data c n) k = data (c + k) := by
  refine BitVec.eq_of_toNat_eq ?_
  rw [byteOf_toNat _ (by omega)]
  induction n with
  | zero => exact absurd hk (Nat.not_lt_zero k)
  | succ n ih =>
    have hlt := word_lt data c (by omega : n ≤ 4)
    rw [word_succ_toNat data c (by omega) hlt]
    rcases Nat.lt_succ_iff_lt_or_eq.1 hk with hkn | rfl
    · -- the new byte is above this one
      have hpow : 2 ^ (8 * n) = 2 ^ (8 * k) * (2 ^ 8 * 2 ^ (8 * (n - k - 1))) := by
        rw [← pow_add, ← pow_add]
        congr 1
        omega
      rw [hpow, Nat.mul_assoc, Nat.add_mul_div_left _ _ (Nat.two_pow_pos _), Nat.mul_assoc,
        Nat.add_mul_mod_self_left]
      exact ih (by omega) hkn
    · rw [Nat.add_mul_div_left _ _ (Nat.two_pow_pos _), Nat.div_eq_of_lt hlt, Nat.zero_add,
        Nat.mod_eq_of_lt (data (c + k)).isLt]

/-- The words of a frame. -/
def frameWords (data : ℕ → BitVec 8) (c n : ℕ) : List (BitVec 32) :=
  (List.range (wordsOf n)).map fun k => word data (c + 4 * k) (min 4 (n - 4 * k))

lemma frameWords_succ (data : ℕ → BitVec 8) (c n : ℕ) :
    frameWords data c (n + 4) = word data c 4 :: frameWords data (c + 4) n := by
  have hwords : wordsOf (n + 4) = wordsOf n + 1 := by
    rw [wordsOf, wordsOf]
    omega
  rw [frameWords, hwords, List.range_succ_eq_map, List.map_cons, List.map_map, frameWords]
  refine congrArg₂ List.cons (by simp) (List.map_congr_left fun k _ => ?_)
  rw [Function.comp_apply, Nat.succ_eq_add_one, show c + 4 * (k + 1) = c + 4 + 4 * k by omega,
    show n + 4 - 4 * (k + 1) = n - 4 * k by omega]

lemma sendBytes_eq (data : ℕ → BitVec 8) (left c : ℕ) (s : SendState) :
    sendBytes data left c s = { s with tx := s.tx ++ frameWords data c left } := by
  induction left using Nat.strong_induction_on generalizing c s with
  | _ left ih =>
    match left, ih with
    | 0, _ => simp [sendBytes, frameWords, wordsOf]
    | 1, _ => rfl
    | 2, _ => rfl
    | 3, _ => rfl
    | left + 4, ih =>
      rw [sendBytes, ih left (by omega), SendState.write, frameWords_succ]
      simp

end Words

/-! ### The frames that are sent -/

section Sent

variable {frames : List (List (BitVec 8))} {data : ℕ → BitVec 8} {frameSizes : ℕ → BitVec 16}
  {txMode : ℕ → Answer} {i k n left : ℕ}

lemma begins_succ (hi : i < frames.length) :
    begins frames (i + 1) = begins frames i + frames[i].length := by
  rw [begins, List.take_succ_eq_append_getElem hi, List.map_append, List.sum_append]
  rfl

lemma begins_length (frames : List (List (BitVec 8))) :
    begins frames frames.length = totalBytes frames := by
  rw [begins, List.take_length, totalBytes]

lemma begins_le (frames : List (List (BitVec 8))) (i : ℕ) :
    begins frames i ≤ totalBytes frames := by
  have hsum : totalBytes frames = begins frames i + totalBytes (frames.drop i) := by
    rw [totalBytes, begins, totalBytes, ← List.sum_append, ← List.map_append,
      List.take_append_drop]
  omega

/-- The data words of the first frames. -/
def txOf (data : ℕ → BitVec 8) (frameSizes : ℕ → BitVec 16) (frames : List (List (BitVec 8)))
    (n : ℕ) : List (BitVec 32) :=
  (List.range n).flatMap fun i => frameWords data (begins frames i) (frameSizes i).toNat

/-- The count words of the first frames. -/
def txCountOf (frameSizes : ℕ → BitVec 16) (n : ℕ) : List (BitVec 32) :=
  (List.range n).map fun i => (frameSizes i).setWidth 32

lemma txOf_succ : txOf data frameSizes frames (n + 1) = txOf data frameSizes frames n
    ++ frameWords data (begins frames n) (frameSizes n).toNat := by
  rw [txOf, List.range_succ, List.flatMap_append, List.flatMap_singleton, txOf]

lemma txCountOf_succ : txCountOf frameSizes (n + 1)
    = txCountOf frameSizes n ++ [(frameSizes n).setWidth 32] := by
  rw [txCountOf, List.range_succ, List.map_append, txCountOf]
  rfl

/-- The loop over the frames, while the mode register shows no error. -/
lemma sendFrames_eq (hholds : Holds data frameSizes frames) (hlt : totalBytes frames < 2 ^ 16)
    (hclear : ∀ i, (txMode i).buff.getLsbD 4 = false) (hle : i + left ≤ frames.length) :
    sendFrames txMode data frameSizes left i (BitVec.ofNat 16 (begins frames i))
        (begins frames i) ⟨BitVec.ofNat 8 i, txOf data frameSizes frames i, txCountOf frameSizes i⟩
      = ((begins frames (i + left) : ℤ), ⟨BitVec.ofNat 8 (i + left),
          txOf data frameSizes frames (i + left), txCountOf frameSizes (i + left)⟩) := by
  induction left generalizing i with
  | zero =>
    have hbegins := begins_le frames i
    rw [sendFrames, BitVec.toNat_ofNat, Nat.mod_eq_of_lt (by omega)]
    rfl
  | succ left ih =>
    have hsize := hholds.sizes i (by omega)
    have hsucc := @begins_succ frames i (by omega)
    have hbegins := begins_le frames (i + 1)
    have hcount : BitVec.ofNat 16 (begins frames i) + frameSizes i
        = BitVec.ofNat 16 (begins frames (i + 1)) := by
      rw [hsucc, BitVec.ofNat_add, ← hsize, BitVec.ofNat_toNat, BitVec.setWidth_eq]
    have hnat : (BitVec.ofNat 16 (begins frames (i + 1))).toNat = begins frames (i + 1) := by
      rw [BitVec.toNat_ofNat, Nat.mod_eq_of_lt (by omega)]
    rw [sendFrames]
    dsimp only
    rw [hcount, hnat, if_neg (by omega : ¬ begins frames (i + 1) < begins frames i), hclear,
      if_neg Bool.false_ne_true,
      if_neg (Answer.r_nonneg _), sendBytes_eq]
    dsimp only
    have hleft : begins frames (i + 1) - begins frames i = (frameSizes i).toNat := by omega
    have hnumber : BitVec.ofNat 8 i + 1 = BitVec.ofNat 8 (i + 1) := by
      rw [BitVec.ofNat_add]
      rfl
    rw [hleft, ← txOf_succ, ← txCountOf_succ, hnumber,
      show i + (left + 1) = i + 1 + left by omega]
    exact ih (by omega)

/-- What `hm2_pktuart_send` writes. -/
lemma send_eq {bitrate : ℕ} (hrate : bitrate ≠ 0) (hholds : Holds data frameSizes frames)
    (hlen : frames.length ≤ 16) (hlt : totalBytes frames < 2 ^ 16)
    (hclear : ∀ i, (txMode i).buff.getLsbD 4 = false) :
    hm2PktuartSend (some bitrate) txMode data (BitVec.ofNat 8 frames.length) frameSizes
      = ((totalBytes frames : ℤ), ⟨BitVec.ofNat 8 frames.length,
          txOf data frameSizes frames frames.length, txCountOf frameSizes frames.length⟩) := by
  have hnat : (BitVec.ofNat 8 frames.length).toNat = frames.length := by
    rw [BitVec.toNat_ofNat, Nat.mod_eq_of_lt (by omega)]
  have hframes := @sendFrames_eq frames data frameSizes txMode 0 frames.length hholds hlt hclear
    (by omega)
  rw [Nat.zero_add, begins_length] at hframes
  rw [hm2PktuartSend]
  dsimp only
  rw [if_neg hrate, hnat, if_neg (by rw [MaxTrFrames]; omega)]
  exact hframes

/-- The first word of a frame. -/
def wordsBefore (frameSizes : ℕ → BitVec 16) : ℕ → ℕ
  | 0 => 0
  | i + 1 => wordsBefore frameSizes i + wordsOf (frameSizes i).toNat

lemma txOf_length (data : ℕ → BitVec 8) (frameSizes : ℕ → BitVec 16)
    (frames : List (List (BitVec 8))) (n : ℕ) :
    (txOf data frameSizes frames n).length = wordsBefore frameSizes n := by
  induction n with
  | zero => rfl
  | succ n ih =>
    rw [txOf_succ, List.length_append, ih, frameWords, List.length_map, List.length_range]
    rfl

/-- A word among all that are sent. -/
lemma txOf_getElem? (hi : i < n) (hk : k < wordsOf (frameSizes i).toNat) :
    (txOf data frameSizes frames n)[wordsBefore frameSizes i + k]?
      = some (word data (begins frames i + 4 * k) (min 4 ((frameSizes i).toNat - 4 * k))) := by
  induction n with
  | zero => exact absurd hi (Nat.not_lt_zero i)
  | succ n ih =>
    rw [txOf_succ]
    rcases Nat.lt_succ_iff_lt_or_eq.1 hi with hlt | rfl
    · have hget := ih hlt
      have hbound := (List.getElem?_eq_some_iff.1 hget).1
      rw [List.getElem?_append_left hbound, hget]
    · rw [List.getElem?_append_right (by rw [txOf_length]; omega), txOf_length,
        Nat.add_sub_cancel_left, frameWords, List.getElem?_map, List.getElem?_range hk]
      rfl

end Sent

/-! ### The frames that are read back -/

section Read

variable {frames : List (List (BitVec 8))} {data : ℕ → BitVec 8} {frameSizes : ℕ → BitVec 16}
  {mode : BitVec 32} {i n : ℕ} {board : Board}

/-- The board when all frames have been sent. -/
def sentBoard (mode : BitVec 32) (data : ℕ → BitVec 8) (frameSizes : ℕ → BitVec 16)
    (frames : List (List (BitVec 8))) : Board :=
  loopback mode ⟨BitVec.ofNat 8 frames.length, txOf data frameSizes frames frames.length,
    txCountOf frameSizes frames.length⟩

lemma sentBoard_rxCount (hi : i < frames.length) :
    (sentBoard mode data frameSizes frames).rxCount i = ⟨true, (frameSizes i).setWidth 32⟩ := by
  rw [sentBoard, loopback, txCountOf]
  simp [hi]

lemma sentBoard_size (hholds : Holds data frameSizes frames)
    (hsizes : ∀ f ∈ frames, 1 ≤ f.length ∧ f.length ≤ 1023) (hi : i < frames.length) :
    (sentBoard mode data frameSizes frames).size i = frames[i].length := by
  have hsize := hholds.sizes i hi
  have hle := (hsizes _ (List.getElem_mem hi)).2
  have hmask : (0x3ff : BitVec 32).toNat = 2 ^ 10 - 1 := rfl
  rw [Board.size, sentBoard_rxCount hi, BitVec.toNat_and, BitVec.toNat_setWidth, hsize, hmask,
    Nat.and_two_pow_sub_one_eq_mod, Nat.mod_eq_of_lt (by omega : frames[i].length < 2 ^ 32),
    Nat.mod_eq_of_lt (by omega)]

lemma sentBoard_offset (hholds : Holds data frameSizes frames)
    (hsizes : ∀ f ∈ frames, 1 ≤ f.length ∧ f.length ≤ 1023) (hi : i ≤ frames.length) :
    (sentBoard mode data frameSizes frames).offset i = begins frames i := by
  induction i with
  | zero => rfl
  | succ i ih =>
    rw [Board.offset, ih (by omega), sentBoard_size hholds hsizes (by omega), ← begins_succ]

lemma sentBoard_wordOffset (hholds : Holds data frameSizes frames)
    (hsizes : ∀ f ∈ frames, 1 ≤ f.length ∧ f.length ≤ 1023) (hi : i ≤ frames.length) :
    (sentBoard mode data frameSizes frames).wordOffset i = wordsBefore frameSizes i := by
  induction i with
  | zero => rfl
  | succ i ih =>
    rw [Board.wordOffset, ih (by omega), sentBoard_size hholds hsizes (by omega),
      ← hholds.sizes i (by omega), wordsBefore]

/-- A count word is good as long as the bytes fit. -/
lemma sentBoard_good {size : ℕ} (hholds : Holds data frameSizes frames)
    (hsizes : ∀ f ∈ frames, 1 ≤ f.length ∧ f.length ≤ 1023) (hi : i < frames.length) :
    (sentBoard mode data frameSizes frames).Good size i ↔ begins frames (i + 1) ≤ size := by
  have hsize := hholds.sizes i hi
  obtain ⟨hpos, hle⟩ := hsizes _ (List.getElem_mem hi)
  have hbit : ∀ b, 10 ≤ b → ((frameSizes i).setWidth 32).getLsbD b = false := by
    intro b hb
    rw [BitVec.getLsbD_setWidth, BitVec.getLsbD, Nat.testBit_lt_two_pow, Bool.and_false]
    exact lt_of_lt_of_le (by omega : (frameSizes i).toNat < 2 ^ 10)
      (Nat.pow_le_pow_right (by norm_num) hb)
  rw [Board.Good, sentBoard_rxCount hi, sentBoard_size hholds hsizes hi,
    sentBoard_offset hholds hsizes (by omega), hbit 14 (by omega), hbit 15 (by omega)]
  exact ⟨fun h => h.2.2.2, fun h => ⟨rfl, rfl, by omega, h⟩⟩

/-- The bytes of a frame come back. -/
lemma sentBoard_stored (hholds : Holds data frameSizes frames) (hi : i < frames.length) {x : ℕ}
    (hx : x < frames[i].length) :
    (sentBoard mode data frameSizes frames).stored (wordsBefore frameSizes i) x
      = ⟨frames[i][x], true⟩ := by
  have hsize := hholds.sizes i hi
  have hword : x / 4 < wordsOf (frameSizes i).toNat := by
    rw [wordsOf]
    omega
  have hget := @txOf_getElem? frames data frameSizes i (x / 4) frames.length hi hword
  have hrx : (sentBoard mode data frameSizes frames).rx (wordsBefore frameSizes i + x / 4)
      = ⟨true, word data (begins frames i + 4 * (x / 4))
          (min 4 ((frameSizes i).toNat - 4 * (x / 4)))⟩ := by
    rw [sentBoard, loopback]
    dsimp only
    rw [List.getD_eq_getElem?_getD, hget, Option.getD_some]
  have hbyte := hholds.bytes i hi x hx
  rw [Board.stored, hrx, byteOf_word data _ (min_le_left _ _) (by omega), ← hbyte, Nat.add_assoc,
    Nat.div_add_mod]

/-- Sixteen frames do not overflow the count. -/
lemma totalBytes_lt (hlen : frames.length ≤ 16)
    (hsizes : ∀ f ∈ frames, 1 ≤ f.length ∧ f.length ≤ 1023) : totalBytes frames < 2 ^ 16 := by
  have hsum : totalBytes frames ≤ (frames.map List.length).length • 1023 :=
    List.sum_le_card_nsmul _ _ fun n hn => by
      obtain ⟨f, hf, rfl⟩ := List.mem_map.1 hn
      exact (hsizes f hf).2
  rw [List.length_map, smul_eq_mul] at hsum
  omega

/-- The loop over the frames that come back. -/
lemma read_sentBoard {bitrate : ℕ} (hrate : bitrate ≠ 0) (hmode : Announces mode frames.length)
    (numFrames : BitVec 8) (maxFrameLength : BitVec 16) :
    hm2PktuartRead (sentBoard mode data frameSizes frames) (some bitrate) numFrames maxFrameLength
      = readFrames (sentBoard mode data frameSizes frames) (dataSize numFrames maxFrameLength)
          frames.length 0 0 (ReadState.note ⟨true, mode⟩ (.start 0)) := by
  have hclear : ¬ (sentBoard mode data frameSizes frames).ModeError := by
    have hmodes : (sentBoard mode data frameSizes frames).rxMode.buff = mode := rfl
    rw [Board.ModeError, hmodes, hmode.overrun, hmode.startbit, hmode.fifo]
    simp
  have hcountp : (sentBoard mode data frameSizes frames).countp = frames.length := hmode.count
  rw [read_frames hrate hclear, hcountp]
  rfl

/-- What the loop leaves behind when all frames fit. -/
lemma returned_stateAt (hlen : frames.length ≤ 16)
    (hsizes : ∀ f ∈ frames, 1 ≤ f.length ∧ f.length ≤ 1023)
    (hholds : Holds data frameSizes frames) :
    Returned frames ((totalBytes frames : ℤ),
      (sentBoard mode data frameSizes frames).stateAt (ReadState.note ⟨true, mode⟩ (.start 0))
        frames.length) := by
  have hs : ReadState.note ⟨true, mode⟩ (.start 0)
      = ReadState.note (sentBoard mode data frameSizes frames).rxMode (.start 0) := rfl
  refine ⟨rfl, ?_, fun i => ?_, fun i hi x hx => ?_, fun j hj => ?_⟩
  · rw [stateAt_numFrames hs, BitVec.toNat_ofNat, Nat.mod_eq_of_lt (by omega)]
  · rw [stateAt_frameSizes hs]
    split_ifs with hi
    · rw [sentBoard_size hholds hsizes hi, List.getElem?_eq_getElem hi, Option.map_some]
    · rw [List.getElem?_eq_none (by omega), Option.map_none]
  · have hdata := @stateAt_data _ _ i frames.length x hs hi
      (by rwa [sentBoard_size hholds hsizes hi])
    rw [sentBoard_offset hholds hsizes hi.le, sentBoard_wordOffset hholds hsizes hi.le,
      sentBoard_stored hholds hi hx] at hdata
    exact hdata
  · refine stateAt_data_none hs ?_
    rw [sentBoard_offset hholds hsizes le_rfl, begins_length]
    exact hj

/-- **Round trip.** At most 16 frames of 1 to 1023 bytes are sent, without an error of the send
count FIFO, and all that is written comes back: then exactly the same frames are read, if and only
if the product of the limits, in 16 bits, is at least the number of all bytes. -/
theorem returned_iff (frames : List (List (BitVec 8))) (hlen : frames.length ≤ 16)
    (hsizes : ∀ f ∈ frames, 1 ≤ f.length ∧ f.length ≤ 1023) (data : ℕ → BitVec 8)
    (frameSizes : ℕ → BitVec 16) (hholds : Holds data frameSizes frames) (bitrate : ℕ)
    (hrate : bitrate ≠ 0) (txMode : ℕ → Answer) (hclear : ∀ i, (txMode i).buff.getLsbD 4 = false)
    (mode : BitVec 32) (hmode : Announces mode frames.length) (numFrames : BitVec 8)
    (maxFrameLength : BitVec 16) :
    Returned frames (hm2PktuartRead (loopback mode (hm2PktuartSend (some bitrate) txMode data
        (BitVec.ofNat 8 frames.length) frameSizes).2) (some bitrate) numFrames maxFrameLength) ↔
      totalBytes frames ≤ dataSize numFrames maxFrameLength := by
  have hboard : loopback mode (hm2PktuartSend (some bitrate) txMode data
      (BitVec.ofNat 8 frames.length) frameSizes).2 = sentBoard mode data frameSizes frames := by
    rw [send_eq hrate hholds hlen (totalBytes_lt hlen hsizes) hclear, sentBoard]
  rw [hboard, read_sentBoard hrate hmode]
  constructor
  · intro hreturned
    obtain ⟨n, hn, hgood, rfl | ⟨hlt, hbad⟩⟩ := exists_taken
      (sentBoard mode data frameSizes frames) (dataSize numFrames maxFrameLength) frames.length
    · -- the last frame fits
      rcases Nat.eq_zero_or_pos frames.length with hzero | hpos
      · rw [List.length_eq_zero_iff.1 hzero]
        exact Nat.zero_le _
      · have hlast := hgood (frames.length - 1) (by omega)
        rw [sentBoard_good hholds hsizes (by omega), Nat.sub_add_cancel hpos, begins_length]
          at hlast
        exact hlast
    · obtain ⟨ret, hret, hread⟩ := @readFrames_bad (sentBoard mode data frameSizes frames)
        (dataSize numFrames maxFrameLength) frames.length 0 n
        (ReadState.note ⟨true, mode⟩ (.start 0)) (fun j _ hj => hgood j (by omega))
        (by rwa [Nat.zero_add]) hlt
      have hresult := hreturned.ret.symm.trans (congrArg Prod.fst hread)
      omega
  · intro hfit
    have hread := @readFrames_good (sentBoard mode data frameSizes frames)
      (dataSize numFrames maxFrameLength) frames.length 0 (ReadState.note ⟨true, mode⟩ (.start 0))
      fun j _ hj => (sentBoard_good hholds hsizes (by omega)).2 ((begins_le _ _).trans hfit)
    rw [Nat.zero_add, sentBoard_offset hholds hsizes le_rfl, begins_length] at hread
    exact (iff_of_eq (congrArg _ hread)).2 (returned_stateAt hlen hsizes hholds)

end Read

/-! ### Two frames, and one -/

/-- Frames of five bytes and of one. -/
def fiveAndOne : List (List (BitVec 8)) := [[1, 2, 3, 4, 5], [6]]

/-- The mode register without errors. -/
def noError : ℕ → Answer := fun _ => ⟨true, 0⟩

lemma noError_clear (i : ℕ) : (noError i).buff.getLsbD 4 = false :=
  show (0 : BitVec 32).getLsbD 4 = false by decide

lemma fiveAndOne_holds : Holds (fun j => [1, 2, 3, 4, 5, 6].getD j 0)
    (fun i => [5, 1].getD i 0) fiveAndOne :=
  ⟨by decide, by decide⟩

/-- There is room for two frames of five bytes. -/
theorem returned_iff_room : Returned fiveAndOne
    (hm2PktuartRead (loopback 0x20000 (hm2PktuartSend (some 2500000) noError
      (fun j => [1, 2, 3, 4, 5, 6].getD j 0) (BitVec.ofNat 8 fiveAndOne.length)
      (fun i => [5, 1].getD i 0)).2) (some 2500000) 2 5) :=
  (returned_iff fiveAndOne (by decide) (by decide) _ _ fiveAndOne_holds 2500000 (by decide) noError
    noError_clear 0x20000 ⟨rfl, rfl, rfl, rfl⟩ 2 5).2 (by decide)

/-- For one byte and 64 frames of 1024 bytes, the array has no room. -/
theorem returned_no_room : ¬ ∀ (frames : List (List (BitVec 8))), frames.length ≤ 16 →
    (∀ f ∈ frames, 1 ≤ f.length ∧ f.length ≤ 1023) →
    ∀ (data : ℕ → BitVec 8) (frameSizes : ℕ → BitVec 16), Holds data frameSizes frames →
    ∀ bitrate, bitrate ≠ 0 →
    ∀ (txMode : ℕ → Answer), (∀ i, (txMode i).buff.getLsbD 4 = false) →
    ∀ (mode : BitVec 32), Announces mode frames.length →
    ∀ (numFrames : BitVec 8) (maxFrameLength : BitVec 16), frames.length ≤ numFrames.toNat →
    (∀ f ∈ frames, f.length ≤ maxFrameLength.toNat) →
    Returned frames (hm2PktuartRead (loopback mode (hm2PktuartSend (some bitrate) txMode data
      (BitVec.ofNat 8 frames.length) frameSizes).2) (some bitrate) numFrames maxFrameLength) := by
  intro h
  have hreturned := h [[7]] (by decide) (by decide) (fun _ => 7) (fun _ => 1)
    ⟨by decide, by decide⟩ 2500000 (by decide) noError noError_clear 0x10000
    ⟨rfl, rfl, rfl, rfl⟩ 64 1024 (by decide) (by decide)
  exact absurd hreturned.ret (by decide)

end MachinekitHal.Pktuart
