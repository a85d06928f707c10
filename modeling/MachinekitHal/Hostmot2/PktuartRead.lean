import MachinekitHal.Hostmot2.Pktuart

/-!
Reading packets, whatever the board returns.

* `ReadState.Delivered`, `Inside`: the frames that the caller gets, in its arrays.
* `Board.Good`, `Board.Accepted`: the count words that are taken.
* `Board.stateAt`, `readFrames_good`, `readFrames_bad`: the loop over the frames.
* `Contained`: the answers of the board for which all goes well.
* `inside_iff`: for these it does, and for no others.
-/

namespace MachinekitHal.Pktuart

/-- Where a frame starts in the data array. -/
def ReadState.offset (s : ReadState) : ℕ → ℕ
  | 0 => 0
  | i + 1 => s.offset i + (s.frameSizes i).getD 0

/-- All bytes of a frame come from reads that succeeded. -/
def ReadState.Delivered (s : ReadState) (i : ℕ) : Prop :=
  ∃ n, s.frameSizes i = some n ∧ ∀ x < n, ∃ b, s.data (s.offset i + x) = some ⟨b, true⟩

/-- The arrays of the caller are kept to, the frames are counted, and a failure is reported. -/
structure Inside (numFrames : BitVec 8) (maxFrameLength : BitVec 16) (result : ℤ × ReadState) :
    Prop where
  frameSizes : ∀ i, (result.2.frameSizes i).isSome → i < numFrames.toNat
  data : ∀ j, (result.2.data j).isSome → j < numFrames.toNat * maxFrameLength.toNat
  delivered : ∀ i, result.2.Delivered i ↔ i < result.2.numFrames.toNat
  failed : result.2.failed → result.1 < 0

/-! ### The answers of the board -/

variable (board : Board)

/-- A sticky error in the mode register. -/
def Board.ModeError : Prop :=
  board.rxMode.buff.getLsbD 1 ∨ board.rxMode.buff.getLsbD 0 ∨ board.rxMode.buff.getLsbD 4

/-- The frames that were received. -/
def Board.countp : ℕ := ((board.rxMode.buff >>> 16) &&& 0x1f).toNat

/-- The size in a count word. -/
def Board.size (i : ℕ) : ℕ := ((board.rxCount i).buff &&& 0x3ff).toNat

/-- The bytes in front of a frame. -/
def Board.offset : ℕ → ℕ
  | 0 => 0
  | i + 1 => Board.offset i + board.size i

/-- The data words in front of a frame. -/
def Board.wordOffset : ℕ → ℕ
  | 0 => 0
  | i + 1 => Board.wordOffset i + wordsOf (board.size i)

/-- A count word without errors, for a frame that is not empty and fits. -/
def Board.Good (dataSize i : ℕ) : Prop :=
  (board.rxCount i).buff.getLsbD 14 = false ∧ (board.rxCount i).buff.getLsbD 15 = false ∧
    board.size i ≠ 0 ∧ board.offset (i + 1) ≤ dataSize

/-- The frame and those in front of it are taken. -/
def Board.Accepted (dataSize i : ℕ) : Prop :=
  i < board.countp ∧ ∀ j ≤ i, board.Good dataSize j

/-- The size of the data array, in 16 bits. -/
def dataSize (numFrames : BitVec 8) (maxFrameLength : BitVec 16) : ℕ :=
  numFrames.toNat * maxFrameLength.toNat % 2 ^ 16

/-- A frame that is taken has an entry in `frame_sizes`, and its words can be read; and if the mode
register or a count word cannot be read, some count word is refused. -/
structure Board.FramesRead (numFrames : BitVec 8) (maxFrameLength : BitVec 16) : Prop where
  entries : ∀ i, board.Accepted (dataSize numFrames maxFrameLength) i → i < numFrames.toNat
  words : ∀ i, board.Accepted (dataSize numFrames maxFrameLength) i →
    ∀ k, board.wordOffset i ≤ k → k < board.wordOffset (i + 1) → (board.rx k).ok
  failed : (∃ i < board.countp, ¬ board.Good (dataSize numFrames maxFrameLength) i) ∨
    board.rxMode.ok ∧ ∀ i < board.countp, (board.rxCount i).ok

/-- Nothing is read, or the mode register has an error, or the frames are read as they should. -/
def Contained (inst : Instance) (numFrames : BitVec 8) (maxFrameLength : BitVec 16) : Prop :=
  inst = none ∨ inst = some 0 ∨ board.ModeError ∨ board.FramesRead numFrames maxFrameLength

/-! ### The loop over the frames -/

/-- The state behind a frame. -/
def Board.step (i : ℕ) (s : ReadState) : ReadState :=
  ({ s.note (board.rxCount i) with
    numFrames := s.numFrames + 1
    frameSizes := Function.update s.frameSizes i (some (board.size i)) } : ReadState).advance board
      (board.offset i) (board.size i)

/-- The state behind so many frames. -/
def Board.stateAt (s : ReadState) : ℕ → ReadState
  | 0 => s
  | i + 1 => board.step i (Board.stateAt s i)

section Loop

variable {board} {dataSize left i k n : ℕ} {s : ReadState}

lemma readFrames_succ (hgood : board.Good dataSize i) :
    readFrames board dataSize (left + 1) i (board.offset i) s
      = readFrames board dataSize left (i + 1) (board.offset (i + 1)) (board.step i s) := by
  obtain ⟨h14, h15, hsize, hoffset⟩ := hgood
  have hsize' : ((board.rxCount i).buff &&& 0x3ff).toNat ≠ 0 := hsize
  have hoffset' : ¬ board.offset i + ((board.rxCount i).buff &&& 0x3ff).toNat > dataSize :=
    not_lt.2 hoffset
  rw [readFrames]
  dsimp only
  rw [h14, h15, if_neg Bool.false_ne_true, if_neg Bool.false_ne_true, if_neg hsize',
    if_neg hoffset', readBytes_eq]
  rfl

lemma readFrames_refused (hbad : ¬ board.Good dataSize i) :
    ∃ ret < 0, readFrames board dataSize (left + 1) i (board.offset i) s
      = (ret, s.note (board.rxCount i)) := by
  rw [readFrames]
  dsimp only
  split_ifs with h14 h15 hsize hoffset
  · exact ⟨_, by decide, rfl⟩
  · exact ⟨_, by decide, rfl⟩
  · exact ⟨_, by decide, rfl⟩
  · exact ⟨_, by decide, rfl⟩
  · exact absurd ⟨by simpa using h14, by simpa using h15, hsize, not_lt.1 hoffset⟩ hbad

lemma readFrames_good (hgood : ∀ j, i ≤ j → j < i + left → board.Good dataSize j) :
    readFrames board dataSize left i (board.offset i) (board.stateAt s i)
      = ((board.offset (i + left) : ℤ), board.stateAt s (i + left)) := by
  induction left generalizing i with
  | zero => rfl
  | succ left ih =>
    rw [readFrames_succ (hgood i le_rfl (by omega))]
    have hrest := ih (i := i + 1) fun j hj hlt => hgood j (by omega) (by omega)
    rw [show i + (left + 1) = i + 1 + left by omega]
    exact hrest

lemma readFrames_bad (hgood : ∀ j, i ≤ j → j < i + k → board.Good dataSize j)
    (hbad : ¬ board.Good dataSize (i + k)) (hk : k < left) :
    ∃ ret < 0, readFrames board dataSize left i (board.offset i) (board.stateAt s i)
      = (ret, (board.stateAt s (i + k)).note (board.rxCount (i + k))) := by
  induction k generalizing i left with
  | zero =>
    obtain ⟨left, rfl⟩ := Nat.exists_eq_add_one.2 hk
    exact readFrames_refused hbad
  | succ k ih =>
    obtain ⟨left, rfl⟩ : ∃ l, left = l + 1 := ⟨left - 1, by omega⟩
    rw [readFrames_succ (hgood i le_rfl (by omega))]
    rw [show i + (k + 1) = i + 1 + k by omega] at hbad ⊢
    exact ih (fun j hj hlt => hgood j (by omega) (by omega)) hbad (by omega)

/-- The first count word that is refused, or the end. -/
lemma exists_taken (board : Board) (dataSize countp : ℕ) : ∃ n ≤ countp,
    (∀ j < n, board.Good dataSize j) ∧ (n = countp ∨ n < countp ∧ ¬ board.Good dataSize n) := by
  induction countp with
  | zero => exact ⟨0, le_rfl, fun j hj => absurd hj (by omega), .inl rfl⟩
  | succ countp ih =>
    obtain ⟨n, hn, hgood, rfl | ⟨hlt, hbad⟩⟩ := ih
    · by_cases hlast : board.Good dataSize n
      · exact ⟨n + 1, le_rfl, fun j hj => (Nat.lt_succ_iff_lt_or_eq.1 hj).elim (hgood j)
          fun h => h ▸ hlast, .inl rfl⟩
      · exact ⟨n, by omega, hgood, .inr ⟨Nat.lt_succ_self n, hlast⟩⟩
    · exact ⟨n, by omega, hgood, .inr ⟨by omega, hbad⟩⟩

end Loop

/-! ### What the loop leaves behind -/

section States

variable {board} {s : ReadState} {i j k n x : ℕ}

lemma offset_mono (h : i ≤ n) : board.offset i ≤ board.offset n := by
  induction h with
  | refl => exact le_rfl
  | step _ ih => exact ih.trans (Nat.le_add_right _ _)

lemma wordOffset_mono (h : i ≤ n) : board.wordOffset i ≤ board.wordOffset n := by
  induction h with
  | refl => exact le_rfl
  | step _ ih => exact ih.trans (Nat.le_add_right _ _)

/-- A word of the first frames belongs to one of them. -/
lemma exists_frame (hk : k < board.wordOffset n) :
    ∃ i < n, board.wordOffset i ≤ k ∧ k < board.wordOffset (i + 1) := by
  induction n with
  | zero => exact absurd hk (Nat.not_lt_zero _)
  | succ n ih =>
    rcases lt_or_ge k (board.wordOffset n) with hlt | hge
    · obtain ⟨i, hi, h⟩ := ih hlt
      exact ⟨i, by omega, h⟩
    · exact ⟨n, by omega, hge, hk⟩

variable (hs : s = ReadState.note board.rxMode (.start 0))

include hs

lemma stateAt_numFrames (n : ℕ) : (board.stateAt s n).numFrames = BitVec.ofNat 8 n := by
  induction n with
  | zero =>
    rw [hs]
    rfl
  | succ n ih =>
    have hstep : (board.stateAt s (n + 1)).numFrames = (board.stateAt s n).numFrames + 1 := rfl
    rw [hstep, ih, BitVec.ofNat_add]
    rfl

lemma stateAt_frameSizes (n j : ℕ) : (board.stateAt s n).frameSizes j
    = if j < n then some (board.size j) else none := by
  induction n with
  | zero =>
    rw [hs]
    rfl
  | succ n ih =>
    have hstep : (board.stateAt s (n + 1)).frameSizes
        = Function.update (board.stateAt s n).frameSizes n (some (board.size n)) := rfl
    rw [hstep, Function.update_apply, ih]
    split_ifs with h1 h2 h3 <;> first | rfl | omega | exact h1 ▸ rfl

lemma stateAt_words (n : ℕ) : (board.stateAt s n).words = board.wordOffset n := by
  induction n with
  | zero =>
    rw [hs]
    rfl
  | succ n ih =>
    have hstep : (board.stateAt s (n + 1)).words
        = (board.stateAt s n).words + wordsOf (board.size n) := rfl
    rw [hstep, ih]
    rfl

lemma stateAt_offset (hi : i ≤ n) : (board.stateAt s n).offset i = board.offset i := by
  induction i with
  | zero => rfl
  | succ i ih =>
    rw [ReadState.offset, ih (by omega), stateAt_frameSizes hs, if_pos (by omega)]
    rfl

/-- The data array behind a frame. -/
lemma stateAt_data_succ (n j : ℕ) : (board.stateAt s (n + 1)).data j
    = if board.offset n ≤ j ∧ j < board.offset n + board.size n then
        some (board.stored (board.wordOffset n) (j - board.offset n))
      else (board.stateAt s n).data j := by
  rw [← stateAt_words hs n]
  rfl

lemma stateAt_data_none (hj : board.offset n ≤ j) : (board.stateAt s n).data j = none := by
  induction n with
  | zero =>
    rw [hs]
    rfl
  | succ n ih =>
    have hoffset : board.offset (n + 1) = board.offset n + board.size n := rfl
    rw [stateAt_data_succ hs, if_neg (by omega), ih (by omega)]

lemma stateAt_data (hi : i < n) (hx : x < board.size i) :
    (board.stateAt s n).data (board.offset i + x)
      = some (board.stored (board.wordOffset i) x) := by
  induction n with
  | zero => exact absurd hi (Nat.not_lt_zero _)
  | succ n ih =>
    rw [stateAt_data_succ hs]
    rcases Nat.lt_succ_iff_lt_or_eq.1 hi with hlt | rfl
    · have hmono := @offset_mono board (i + 1) n hlt
      have hoffset : board.offset (i + 1) = board.offset i + board.size i := rfl
      rw [if_neg (by omega), ih hlt]
    · rw [if_pos (by omega), Nat.add_sub_cancel_left]

/-- A failure is one of the mode register, of a count word or of a data word. -/
lemma stateAt_failed (n : ℕ) : (board.stateAt s n).failed = true ↔
    board.rxMode.ok = false ∨ (∃ i < n, (board.rxCount i).ok = false) ∨
      ∃ k < board.wordOffset n, (board.rx k).ok = false := by
  induction n with
  | zero =>
    rw [hs]
    simp [Board.stateAt, ReadState.note, ReadState.start, Board.wordOffset]
  | succ n ih =>
    have hstep : (board.stateAt s (n + 1)).failed = ((board.stateAt s n).failed
        || !(board.rxCount n).ok || board.wordFailed (board.wordOffset n)
          (wordsOf (board.size n))) := by
      rw [← stateAt_words hs n]
      rfl
    have hword : board.wordFailed (board.wordOffset n) (wordsOf (board.size n)) = true ↔
        ∃ k, (board.wordOffset n ≤ k ∧ k < board.wordOffset (n + 1)) ∧
          (board.rx k).ok = false := by
      simp only [Board.wordFailed, List.any_eq_true, List.mem_range'_1, Bool.not_eq_true']
      rfl
    rw [hstep, Bool.or_eq_true, Bool.or_eq_true, ih, Bool.not_eq_true', hword]
    constructor
    · rintro (((h | ⟨i, hi, h⟩ | ⟨k, hk, h⟩) | h) | ⟨k, ⟨-, hk⟩, h⟩)
      · exact .inl h
      · exact .inr (.inl ⟨i, by omega, h⟩)
      · exact .inr (.inr ⟨k, hk.trans_le (wordOffset_mono (Nat.le_succ n)), h⟩)
      · exact .inr (.inl ⟨n, Nat.lt_succ_self n, h⟩)
      · exact .inr (.inr ⟨k, hk, h⟩)
    · rintro (h | ⟨i, hi, h⟩ | ⟨k, hk, h⟩)
      · exact .inl (.inl (.inl h))
      · rcases Nat.lt_succ_iff_lt_or_eq.1 hi with hlt | rfl
        · exact .inl (.inl (.inr (.inl ⟨i, hlt, h⟩)))
        · exact .inl (.inr h)
      · rcases lt_or_ge k (board.wordOffset n) with hlt | hge
        · exact .inl (.inl (.inr (.inr ⟨k, hlt, h⟩)))
        · exact .inr ⟨k, ⟨hge, hk⟩, h⟩

/-- The frames that are delivered are those whose words could be read. -/
lemma stateAt_delivered (n i : ℕ) : (board.stateAt s n).Delivered i ↔
    i < n ∧ ∀ k, board.wordOffset i ≤ k → k < board.wordOffset (i + 1) → (board.rx k).ok := by
  constructor
  · rintro ⟨m, hm, hbytes⟩
    rw [stateAt_frameSizes hs] at hm
    split_ifs at hm with hi
    cases hm
    refine ⟨hi, fun k hk hlt => ?_⟩
    -- the first byte of the word
    have hlt' : k < board.wordOffset i + (board.size i + 3) / 4 := hlt
    obtain ⟨b, hb⟩ := hbytes (4 * (k - board.wordOffset i)) (by omega)
    rw [stateAt_offset hs hi.le, stateAt_data hs hi (by omega)] at hb
    have hok := congrArg Stored.ok (Option.some.inj hb)
    rw [Board.stored, Nat.mul_div_cancel_left _ (by decide), Nat.add_sub_cancel' hk] at hok
    exact hok
  · rintro ⟨hi, hwords⟩
    refine ⟨board.size i, by rw [stateAt_frameSizes hs, if_pos hi], fun x hx => ?_⟩
    have hlt : board.wordOffset i + x / 4 < board.wordOffset i + (board.size i + 3) / 4 := by omega
    have hok := hwords (board.wordOffset i + x / 4) (Nat.le_add_right _ _) hlt
    exact ⟨_, by rw [stateAt_offset hs hi.le, stateAt_data hs hi hx, Board.stored, hok]⟩

end States

/-! ### The function -/

section Function

variable {board} {numFrames : BitVec 8} {maxFrameLength : BitVec 16} {s : ReadState} {n i : ℕ}
  {ret : ℤ} {bitrate : ℕ} {failed : Bool}

lemma offset_failed (s : ReadState) (failed : Bool) (i : ℕ) :
    ({ s with failed := failed } : ReadState).offset i = s.offset i := by
  induction i with
  | zero => rfl
  | succ i ih => rw [ReadState.offset, ReadState.offset, ih]

lemma delivered_failed (s : ReadState) (failed : Bool) (i : ℕ) :
    ({ s with failed := failed } : ReadState).Delivered i ↔ s.Delivered i := by
  rw [ReadState.Delivered, ReadState.Delivered, offset_failed]

/-- The arrays behind so many frames. -/
lemma inside_stateAt (board : Board) (hs : s = ReadState.note board.rxMode (.start 0))
    (hn : n < 256) (hfit : board.offset n ≤ dataSize numFrames maxFrameLength) :
    Inside numFrames maxFrameLength (ret, { board.stateAt s n with failed := failed }) ↔
      (∀ i < n, i < numFrames.toNat) ∧
      (∀ i < n, ∀ k, board.wordOffset i ≤ k → k < board.wordOffset (i + 1) → (board.rx k).ok) ∧
      (failed → ret < 0) := by
  have hnum : (board.stateAt s n).numFrames.toNat = n := by
    rw [stateAt_numFrames hs, BitVec.toNat_ofNat, Nat.mod_eq_of_lt hn]
  constructor
  · intro h
    refine ⟨fun i hi => h.frameSizes i ?_, fun i hi => ?_, h.failed⟩
    · have hsize := stateAt_frameSizes hs n i
      rw [if_pos hi] at hsize
      exact Option.isSome_iff_exists.2 ⟨_, hsize⟩
    · have hdelivered := (h.delivered i).2 (by rwa [hnum])
      rw [delivered_failed, stateAt_delivered hs] at hdelivered
      exact hdelivered.2
  · rintro ⟨hentries, hwords, hfailed⟩
    refine ⟨fun i hsome => ?_, fun j hsome => ?_, fun i => ?_, hfailed⟩
    · refine hentries i (not_le.1 fun hle => ?_)
      have hsize := stateAt_frameSizes hs n i
      rw [if_neg (by omega)] at hsize
      exact absurd (hsize ▸ hsome) (by simp)
    · have hlt : j < board.offset n := not_le.1 fun hle => by
        have hnone := stateAt_data_none hs hle
        exact absurd (hnone ▸ hsome) (by simp)
      exact hlt.trans_le (hfit.trans (Nat.mod_le _ _))
    · rw [delivered_failed, stateAt_delivered hs, hnum]
      exact ⟨fun h => h.1, fun hi => ⟨hi, hwords i hi⟩⟩

/-- Nothing is read from the board. -/
lemma inside_einval : Inside numFrames maxFrameLength (-Errno.EINVAL.code, .start 0) := by
  refine ⟨fun i h => absurd h (by simp [ReadState.start]),
    fun j h => absurd h (by simp [ReadState.start]), fun i => ?_, fun h => absurd h (by decide)⟩
  constructor
  · rintro ⟨m, hm, -⟩
    exact absurd hm (by simp [ReadState.start])
  · intro hi
    exact absurd hi (Nat.not_lt_zero i)

lemma read_modeError (hrate : bitrate ≠ 0) (hmode : board.ModeError) :
    ∃ ret < 0, hm2PktuartRead board (some bitrate) numFrames maxFrameLength
      = (ret, ReadState.note board.rxMode (.start 0)) := by
  rw [hm2PktuartRead]
  dsimp only
  rw [if_neg hrate, if_neg (Answer.r_nonneg _)]
  split_ifs with h1 h0 h4
  · exact ⟨_, by decide, rfl⟩
  · exact ⟨_, by decide, rfl⟩
  · exact ⟨_, by decide, rfl⟩
  · exact absurd hmode (by rw [Board.ModeError]; tauto)
  · exact absurd hmode (by rw [Board.ModeError]; tauto)

lemma read_frames (hrate : bitrate ≠ 0) (hmode : ¬ board.ModeError) :
    hm2PktuartRead board (some bitrate) numFrames maxFrameLength
      = readFrames board (dataSize numFrames maxFrameLength) board.countp 0 0
          (ReadState.note board.rxMode (.start 0)) := by
  rw [Board.ModeError, not_or, not_or] at hmode
  obtain ⟨h1, h0, h4⟩ := hmode
  rw [hm2PktuartRead]
  dsimp only
  rw [if_neg hrate, if_neg (Answer.r_nonneg _), if_neg h1, if_neg h0, if_neg h4,
    BitVec.toNat_ofNat]
  split_ifs with hzero
  · have hcountp : board.countp = 0 := hzero
    rw [hcountp]
    rfl
  · rfl

lemma countp_lt (board : Board) : board.countp < 32 := by
  rw [Board.countp, BitVec.toNat_and]
  exact lt_of_le_of_lt Nat.and_le_right (by decide)

/-- The frames that are taken, up to the first one that is refused. -/
lemma accepted_iff {size : ℕ} (hn : n ≤ board.countp) (hgood : ∀ j < n, board.Good size j)
    (hend : n = board.countp ∨ ¬ board.Good size n) : board.Accepted size i ↔ i < n := by
  constructor
  · rintro ⟨hi, hall⟩
    rcases hend with rfl | hbad
    · exact hi
    · exact not_le.1 fun hle => hbad (hall n hle)
  · intro hi
    exact ⟨hi.trans_le hn, fun j hj => hgood j (by omega)⟩

/-- The condition on the frames, by their number. -/
lemma framesRead_iff (hacc : ∀ i, board.Accepted (dataSize numFrames maxFrameLength) i ↔ i < n) :
    board.FramesRead numFrames maxFrameLength ↔ (∀ i < n, i < numFrames.toNat) ∧
      (∀ i < n, ∀ k, board.wordOffset i ≤ k → k < board.wordOffset (i + 1) → (board.rx k).ok) ∧
      ((∃ i < board.countp, ¬ board.Good (dataSize numFrames maxFrameLength) i) ∨
        board.rxMode.ok ∧ ∀ i < board.countp, (board.rxCount i).ok) := by
  constructor
  · intro h
    exact ⟨fun i hi => h.entries i ((hacc i).2 hi), fun i hi => h.words i ((hacc i).2 hi),
      h.failed⟩
  · rintro ⟨hentries, hwords, hfailed⟩
    exact ⟨fun i hi => hentries i ((hacc i).1 hi), fun i hi => hwords i ((hacc i).1 hi), hfailed⟩

/-- Without a refused count word, no read may fail. -/
lemma failed_iff (hs : s = ReadState.note board.rxMode (.start 0))
    (hwords : ∀ i < n, ∀ k, board.wordOffset i ≤ k → k < board.wordOffset (i + 1) →
      (board.rx k).ok) :
    (board.stateAt s n).failed = false ↔
      board.rxMode.ok ∧ ∀ i < n, (board.rxCount i).ok := by
  rw [← Bool.not_eq_true, stateAt_failed hs, not_or, not_or, Bool.not_eq_false]
  constructor
  · rintro ⟨hmode, hcounts, -⟩
    refine ⟨hmode, fun i hi => ?_⟩
    by_contra hfail
    exact hcounts ⟨i, hi, by simpa using hfail⟩
  · rintro ⟨hmode, hcounts⟩
    refine ⟨hmode, ?_, ?_⟩
    · rintro ⟨i, hi, hfail⟩
      exact absurd (hcounts i hi) (by simp [hfail])
    · rintro ⟨k, hk, hfail⟩
      obtain ⟨i, hi, hle, hlt⟩ := exists_frame hk
      exact absurd (hwords i hi k hle hlt) (by simp [hfail])

/-- **Reading packets.** For all answers of the board and all limits, the entries of `frame_sizes`
and the bytes of the data array stay within the limits, `num_frames` is the number of frames that
are delivered, and a failed read gives a negative result, if and only if `Contained` holds of the
answers. -/
theorem inside_iff (board : Board) (inst : Instance) (numFrames : BitVec 8)
    (maxFrameLength : BitVec 16) :
    Inside numFrames maxFrameLength (hm2PktuartRead board inst numFrames maxFrameLength) ↔
      Contained board inst numFrames maxFrameLength := by
  rw [Contained]
  cases inst with
  | none => exact iff_of_true inside_einval (.inl rfl)
  | some bitrate =>
      by_cases hrate : bitrate = 0
      · subst hrate
        exact iff_of_true inside_einval (.inr (.inl rfl))
      by_cases hmode : board.ModeError
      · obtain ⟨ret, hret, hread⟩ := @read_modeError board numFrames maxFrameLength _ hrate hmode
        rw [hread]
        refine iff_of_true ?_ (.inr (.inr (.inl hmode)))
        exact (@inside_stateAt _ _ _ 0 _ _ board rfl (by decide) (Nat.zero_le _)).2
          ⟨fun i hi => absurd hi (Nat.not_lt_zero i), fun i hi => absurd hi (Nat.not_lt_zero i),
            fun _ => hret⟩
      obtain ⟨n, hn, hgood, hend⟩ :=
        exists_taken board (dataSize numFrames maxFrameLength) board.countp
      have hlt : n < 256 := hn.trans_lt ((countp_lt board).trans (by decide))
      have hfit : board.offset n ≤ dataSize numFrames maxFrameLength := by
        cases n with
        | zero => exact Nat.zero_le _
        | succ n => exact (hgood n (Nat.lt_succ_self n)).2.2.2
      have hcontained : (some bitrate = none ∨ some bitrate = some 0 ∨ board.ModeError ∨
          board.FramesRead numFrames maxFrameLength) ↔
            board.FramesRead numFrames maxFrameLength := by simp [hrate, hmode]
      rw [hcontained, framesRead_iff fun i => accepted_iff hn hgood (hend.imp_right And.right),
        read_frames hrate hmode]
      rcases hend with rfl | ⟨hcountp, hbad⟩
      · -- all count words are taken
        have hread := @readFrames_good board (dataSize numFrames maxFrameLength) board.countp 0
          (ReadState.note board.rxMode (.start 0)) fun j _ hj => hgood j (by omega)
        rw [Nat.zero_add] at hread
        refine (iff_of_eq (congrArg _ hread)).trans
          ((inside_stateAt board rfl hlt hfit).trans (and_congr_right fun _ =>
            and_congr_right fun hwords => ?_))
        have hnone : ¬ ∃ i < board.countp, ¬ board.Good (dataSize numFrames maxFrameLength) i :=
          fun ⟨i, hi, hbad⟩ => hbad (hgood i hi)
        rw [or_iff_right hnone, ← failed_iff rfl hwords]
        constructor
        · intro h
          by_contra hfailed
          exact absurd (h (by simpa using hfailed)) (by omega)
        · intro h hfailed
          exact absurd (h.symm.trans hfailed) Bool.false_ne_true
      · -- one is refused
        obtain ⟨ret, hret, hread⟩ := @readFrames_bad board (dataSize numFrames maxFrameLength)
          board.countp 0 n (ReadState.note board.rxMode (.start 0))
          (fun j _ hj => hgood j (by omega)) (by rwa [Nat.zero_add]) hcountp
        rw [Nat.zero_add] at hread
        refine (iff_of_eq (congrArg _ hread)).trans
          ((inside_stateAt board rfl hlt hfit).trans (and_congr_right fun _ =>
            and_congr_right fun _ => ?_))
        exact iff_of_true (fun _ => hret) (.inl ⟨n, hcountp, hbad⟩)

end Function

/-- Two frames of four bytes each have been received. -/
def twoFrames : Board where
  rxMode := ⟨true, 0x20000⟩
  rxCount _ := ⟨true, 4⟩
  rx _ := ⟨true, 0x04030201⟩

/-- There is room for one frame of eight bytes: the second size is written behind `frame_sizes`. -/
theorem inside_two_frames : ¬ ∀ (board : Board) (inst : Instance) (numFrames : BitVec 8)
    (maxFrameLength : BitVec 16),
    Inside numFrames maxFrameLength (hm2PktuartRead board inst numFrames maxFrameLength) := by
  intro h
  have hone := (h twoFrames (some 2500000) 1 8).frameSizes 1 (by decide)
  exact absurd hone (by decide)

end MachinekitHal.Pktuart
