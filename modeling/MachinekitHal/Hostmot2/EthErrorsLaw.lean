import MachinekitHal.Hostmot2.EthErrors
import MachinekitHal.Lib.Runs

/-!
The error level of the ethernet boards of hostmot2 in runs.

* `ErrSys`: the calls in any order, with the failures since the user has cleared `io_error`.
* `ErrorLaw`: how the level moves, and when `io_error` is raised.
* `Spared`: what is asked of a call.
* `soft_errors_iff`: when a call keeps the law, in every run of such calls.
-/

namespace MachinekitHal.Eth

open Bytes Runs Word

/-- The board and the memory, with the increment when the user last cleared `io_error` and the
failures since, as long as the increment stays. -/
structure ErrSys where
  writer : Writer
  mem : Mem
  since : Option (ℤ × ℕ)

/-- The calls, and what the user does: to set the pins and to clear `io_error`. `other` is whatever
leaves the level and its pins alone. -/
inductive ErrOp where
  | write (rt : Bool) (addr : ℕ) (buffer : Mem) (size : ℤ) (sent : Bool)
  | sendWrites (sent : Bool)
  | sendReads (sent : Bool)
  | receive (early : List Arrival) (last : Arrival)
  | pins (increment decrement : ℤ)
  | clear
  | other (writer : Writer) (mem : Mem)

/-- What comes of a call, as far as errors go. -/
inductive Outcome where
  | quiet
  | failure
  | clean
  deriving DecidableEq

/-- A call of the driver. -/
def ErrOp.isCall : ErrOp → Bool
  | .write .. | .sendWrites _ | .sendReads _ | .receive .. => true
  | .pins .. | .clear | .other .. => false

/-- A receive. -/
def ErrOp.isReceive : ErrOp → Bool
  | .receive .. => true
  | _ => false

/-- The queue of reads, and where they go. -/
def ErrSys.reads (s : ErrSys) : EthSys := { board := s.writer.board, mem := s.mem }

/-- What comes of an operation. -/
def ErrSys.outcome (s : ErrSys) : ErrOp → Outcome
  | .write rt _ _ size sent => if s.writer.writeFails rt size sent then .failure else .quiet
  | .sendWrites sent => if s.writer.sendFails sent then .failure else .quiet
  | .sendReads sent => if s.writer.board.readsFail sent then .failure else .quiet
  | .receive early last => if s.reads.receiveFails early last then .failure else .clean
  | .pins .. | .clear | .other .. => .quiet

/-- A failure is counted. -/
def countFailure (o : Outcome) (since : Option (ℤ × ℕ)) : Option (ℤ × ℕ) :=
  since.map fun (increment, k) => (increment, if o = .failure then k + 1 else k)

/-- The state of the driver after an operation. -/
def ErrSys.run (s : ErrSys) : ErrOp → Option (Writer × Mem)
  | .write rt addr buffer size sent =>
    (Eth.write rt s.writer addr buffer size sent).map fun (_, writer, _) => (writer, s.mem)
  | .sendWrites sent => (sendQueuedWrites s.writer sent).map fun (_, writer, _) => (writer, s.mem)
  | .sendReads sent =>
    some ({ s.writer with board := (sendQueuedReads s.writer.board sent).2 }, s.mem)
  | .receive early last =>
    let received := receiveQueuedReads early last s.reads
    some ({ s.writer with board := received.sys.board }, received.sys.mem)
  | .pins increment decrement =>
    some ({ s.writer with board := { s.writer.board with
      hal := s.writer.board.hal.map fun hal =>
        { hal with packetErrorIncrement := increment, packetErrorDecrement := decrement } } },
      s.mem)
  | .clear => some ({ s.writer with board := { s.writer.board with ioError := false } }, s.mem)
  | .other writer mem => some (writer, mem)

/-- The failures since the user has cleared `io_error`. -/
def ErrSys.sinceAfter (s : ErrSys) : ErrOp → Option (ℤ × ℕ)
  | .pins increment _ => s.since.filter fun p => p.1 = increment
  | .clear =>
    if s.writer.board.ioError then s.writer.board.soft.map fun x => (x.increment, 0) else s.since
  | op => countFailure (s.outcome op) s.since

/-- One operation. -/
def ErrSys.step (s : ErrSys) (op : ErrOp) : Option ErrSys :=
  (s.run op).map fun (writer, mem) =>
    { writer := writer, mem := mem, since := s.sinceAfter op }

/-- No call is made while `io_error` is set, the pins are 32-bit integers, and the rest of the
driver leaves the level alone. -/
def Fair (s : ErrSys) (op : ErrOp) : Prop :=
  (op.isCall = true → s.writer.board.ioError = false) ∧
    match op with
    | .pins increment decrement =>
      (-2147483648 ≤ increment ∧ increment < 2147483648) ∧
        -2147483648 ≤ decrement ∧ decrement < 2147483648
    | .other writer _ => writer.board.soft = s.writer.board.soft
    | _ => True

/-- The level: zero again when the user has cleared `io_error`. -/
def Soft.level (x : Soft) : ℤ := x.reset.counter

/-- How the level moves, and when `io_error` is raised. -/
structure ErrorLaw (x x' : Soft) (call : Bool) (o : Outcome) (since : Option (ℤ × ℕ)) : Prop where
  range : 0 ≤ x'.counter ∧ x'.counter ≤ x.limit
  failure : o = .failure → x'.counter = min x.limit (x.level + max 1 x.increment) ∧
    (x'.ioError = true ↔ x'.counter = x.limit)
  clean : o = .clean → x'.counter = max 0 (x.level - max 1 x.decrement) ∧ x'.ioError = false
  quiet : call = true → o = .quiet → x'.counter = x.counter ∧ x'.ioError = x.ioError
  again : ∀ increment k, since = some (increment, k) → 1 ≤ increment → x'.ioError = true →
    x.limit ≤ k * increment

/-- An operation that keeps the law. -/
def Lawful (s : ErrSys) (op : ErrOp) (s' : ErrSys) : Prop :=
  ∃ x x', s.writer.board.soft = some x ∧ s'.writer.board.soft = some x' ∧
    ErrorLaw x x' op.isCall (s.outcome op) s'.since

/-- A write or a send that fails when the user has cleared `io_error` comes behind a receive, or
one failure brings the level to the limit. -/
def Spared (s : ErrSys) (op : ErrOp) : Prop :=
  op.isReceive = false → s.outcome op = .failure → ∀ x, s.writer.board.soft = some x →
    x.counter = x.limit → x.limit ≤ max 1 x.increment

/-! ### The level -/

variable {x x' : Soft} {s s' : ErrSys} {op : ErrOp}

/-- What is kept: `io_error` stands for the limit, and the level is what the failures since the
user has cleared it can have brought. -/
structure Accounted (x : Soft) (since : Option (ℤ × ℕ)) : Prop where
  range : x.InRange
  ioError : x.ioError = true → x.counter = x.limit
  since : ∀ increment k, since = some (increment, k) →
    x.increment = increment ∧ (1 ≤ increment → x.level ≤ k * increment)

lemma level_of_ioError (h : x.ioError = true) : x.level = x.counter := by
  rw [Soft.level, Soft.reset, if_neg (by simp [h])]

lemma level_of_lt (h : x.counter < x.limit) : x.level = x.counter := by
  rw [Soft.level, Soft.reset, if_neg fun hle => h.ne hle.1]

lemma level_of_cleared (h : x.counter = x.limit) (hio : x.ioError = false) : x.level = 0 := by
  rw [Soft.level, Soft.reset, if_pos ⟨h, hio⟩]

lemma level_range (hx : x.InRange) : 0 ≤ x.level ∧ x.level ≤ x.limit := by
  have hreset := hx.reset
  have hlimit : x.reset.limit = x.limit := by
    rw [Soft.reset]
    split_ifs <;> rfl
  exact ⟨hreset.counter_nonneg, hlimit ▸ hreset.counter_le⟩

/-! ### Calls -/

/-- The level after a call. -/
def Soft.after (x : Soft) (receive : Bool) : Outcome → Soft
  | .quiet => x
  | .failure => (if receive then x.reset else x).raise
  | .clean => x.reset.lower

lemma call_soft (hstep : s.step op = some s') (hcall : op.isCall = true)
    (hsoft : s.writer.board.soft = some x) (hx : x.InRange) :
    s'.writer.board.soft = some (x.after op.isReceive (s.outcome op)) := by
  obtain ⟨⟨writer, mem⟩, hrun, rfl⟩ := Option.map_eq_some_iff.1 hstep
  cases op with
  | write rt addr buffer size sent =>
    obtain ⟨⟨r, w', d⟩, hwrite, hw⟩ := Option.map_eq_some_iff.1 hrun
    cases hw
    have hafter := write_soft hwrite hsoft hx
    rw [ErrSys.outcome]
    split_ifs at hafter ⊢ <;> exact hafter
  | sendWrites sent =>
    obtain ⟨⟨r, w', d⟩, hsend, hw⟩ := Option.map_eq_some_iff.1 hrun
    cases hw
    have hafter := sendQueuedWrites_soft hsend hsoft hx
    rw [ErrSys.outcome]
    split_ifs at hafter ⊢ <;> exact hafter
  | sendReads sent =>
    cases hrun
    have hafter := @sendQueuedReads_soft s.writer.board x sent hsoft hx
    rw [ErrSys.outcome]
    split_ifs at hafter ⊢ <;> exact hafter
  | receive early last =>
    cases hrun
    have hafter := @receive_soft x s.reads early last hsoft hx
    rw [ErrSys.outcome]
    split_ifs at hafter ⊢ <;> exact hafter
  | pins increment decrement => cases hcall
  | clear => cases hcall
  | other writer mem => cases hcall

variable {since : Option (ℤ × ℕ)} {writer : Writer} {mem : Mem}

lemma raise_inRange (hx : x.InRange) : x.raise.InRange := by
  obtain ⟨h0, hle, hone, hlim, hi0, hi, hd0, hd⟩ := hx
  refine ⟨?_, min_le_left _ _, hone, hlim, hi0, hi, hd0, hd⟩
  exact le_min (by omega) (by omega)

lemma lower_inRange (hx : x.InRange) : x.lower.InRange := by
  obtain ⟨h0, hle, hone, hlim, hi0, hi, hd0, hd⟩ := hx
  refine ⟨le_max_left _ _, ?_, hone, hlim, hi0, hi, hd0, hd⟩
  show max 0 (x.counter - max 1 x.decrement) ≤ x.limit
  omega

/-- A failure counts from the level that stands behind it, if that is the one of the law. -/
lemma Accounted.raised (h : Accounted x since) {y : Soft} (hy : y.InRange)
    (hlimit : y.limit = x.limit) (hincrement : y.increment = x.increment)
    (hio : y.ioError = false)
    (hlevel : min x.limit (y.counter + max 1 x.increment)
      = min x.limit (x.level + max 1 x.increment)) :
    ErrorLaw x y.raise true .failure (countFailure .failure since) ∧
      Accounted y.raise (countFailure .failure since) := by
  have hcounter : y.raise.counter = min x.limit (x.level + max 1 x.increment) := by
    rw [← hlevel, ← hlimit, ← hincrement]
    rfl
  have hraised : y.raise.ioError = true ↔ y.raise.counter = x.limit := by
    rw [hcounter, ← hlevel, ← hlimit, ← hincrement, min_eq_left_iff]
    show (decide (y.limit ≤ y.counter + max 1 y.increment) || y.ioError) = true ↔ _
    rw [hio, Bool.or_false, decide_eq_true_iff]
  have hbound : ∀ increment k, countFailure .failure since = some (increment, k) →
      y.raise.increment = increment ∧ (1 ≤ increment → y.raise.counter ≤ k * increment) := by
    intro increment k hsince
    obtain ⟨⟨i, j⟩, hold, hnew⟩ := Option.map_eq_some_iff.1 hsince
    obtain ⟨rfl, rfl⟩ := Prod.mk.inj hnew
    obtain ⟨hsame, hle⟩ := h.since _ _ hold
    refine ⟨hincrement.trans hsame, fun hone => ?_⟩
    have hle' := hle hone
    have hmax : max 1 x.increment = i := by omega
    rw [hcounter, hmax]
    refine (min_le_right _ _).trans ?_
    rw [if_pos rfl, Nat.cast_add, Nat.cast_one, add_mul, one_mul]
    exact Int.add_le_add_right hle' i
  have hrange := raise_inRange hy
  have hlevel' : y.raise.level = y.raise.counter := by
    by_cases hset : y.raise.ioError = true
    · exact level_of_ioError hset
    · refine level_of_lt (lt_of_le_of_ne hrange.counter_le fun heq => hset (hraised.2 ?_))
      exact heq.trans hlimit
  constructor
  · constructor
    case range => exact ⟨hrange.counter_nonneg, hrange.counter_le.trans_eq hlimit⟩
    case failure => exact fun _ => ⟨hcounter, hraised⟩
    case clean => exact fun hclean => nomatch hclean
    case quiet => exact fun _ hquiet => nomatch hquiet
    case again =>
      intro increment k hsince hone hset
      rw [← hraised.1 hset]
      exact (hbound increment k hsince).2 hone
  · constructor
    case range => exact hrange
    case ioError => exact fun hset => (hraised.1 hset).trans hlimit.symm
    case since => rwa [hlevel']

/-- Nothing is counted but failures. -/
lemma countFailure_of_ne {o : Outcome} (ho : o ≠ .failure) : countFailure o since = since := by
  have hid : (fun p : ℤ × ℕ => (p.1, if o = .failure then p.2 + 1 else p.2)) = id :=
    funext fun p => by rw [if_neg ho, id]
  exact (congrArg (Option.map · since) hid).trans Option.map_id'

lemma reset_fields (x : Soft) : x.reset.limit = x.limit ∧ x.reset.increment = x.increment ∧
    x.reset.decrement = x.decrement ∧ x.reset.ioError = x.ioError := by
  rw [Soft.reset]
  split_ifs <;> exact ⟨rfl, rfl, rfl, rfl⟩

lemma Accounted.lowered (h : Accounted x since) (hio : x.ioError = false) :
    ErrorLaw x x.reset.lower true .clean since ∧ Accounted x.reset.lower since := by
  obtain ⟨hlimit, hincrement, hdecrement, hioError⟩ := reset_fields x
  have hcounter : x.reset.lower.counter = max 0 (x.level - max 1 x.decrement) := by
    rw [← hdecrement]
    rfl
  have hclear : x.reset.lower.ioError = false := hioError.trans hio
  have hrange := lower_inRange h.range.reset
  obtain ⟨hlevel0, hlevel⟩ := level_range h.range
  have hone := h.range.one_le
  have hlevel' : x.reset.lower.level = x.reset.lower.counter := by
    refine level_of_lt ?_
    rw [hcounter]
    exact (show _ < x.limit by omega).trans_eq hlimit.symm
  constructor
  · constructor
    case range => exact ⟨hrange.counter_nonneg, hrange.counter_le.trans_eq hlimit⟩
    case failure => exact fun hfailure => nomatch hfailure
    case clean => exact fun _ => ⟨hcounter, hclear⟩
    case quiet => exact fun _ hquiet => nomatch hquiet
    case again => exact fun _ _ _ _ hset => nomatch hclear.symm.trans hset
  · constructor
    case range => exact hrange
    case ioError => exact fun hset => nomatch hclear.symm.trans hset
    case since =>
      intro increment k hsince
      obtain ⟨hsame, hle⟩ := h.since increment k hsince
      refine ⟨hincrement.trans hsame, fun hpos => ?_⟩
      have hle' := hle hpos
      rw [hlevel', hcounter]
      omega

/-- A call that comes to nothing. -/
lemma Accounted.quiet (h : Accounted x since) (hio : x.ioError = false) :
    ErrorLaw x x true .quiet since := by
  constructor
  case range => exact ⟨h.range.counter_nonneg, h.range.counter_le⟩
  case failure => exact fun hfailure => nomatch hfailure
  case clean => exact fun hclean => nomatch hclean
  case quiet => exact fun _ _ => ⟨rfl, rfl⟩
  case again => exact fun _ _ _ _ hset => nomatch hio.symm.trans hset

/-! ### What is not a call -/

lemma setPins_soft (hsoft : s.writer.board.soft = some x) {increment decrement : ℤ}
    (hrun : s.run (.pins increment decrement) = some (writer, mem)) :
    writer.board.soft = some { x with increment := increment, decrement := decrement } := by
  obtain ⟨hal, hhal, rfl⟩ := soft_eq_some.1 hsoft
  cases hrun
  rw [Board.soft, hhal]
  rfl

lemma clear_soft (hsoft : s.writer.board.soft = some x)
    (hrun : s.run .clear = some (writer, mem)) :
    writer.board.soft = some { x with ioError := false } := by
  obtain ⟨hal, hhal, rfl⟩ := soft_eq_some.1 hsoft
  cases hrun
  rw [Board.soft, hhal]
  rfl

/-- What the law asks of an operation that is not a call. -/
lemma Accounted.errorLaw (h : Accounted x' since) (hlimit : x'.limit = x.limit) :
    ErrorLaw x x' false .quiet since := by
  constructor
  case range => exact ⟨h.range.counter_nonneg, h.range.counter_le.trans_eq hlimit⟩
  case failure => exact fun hfailure => nomatch hfailure
  case clean => exact fun hclean => nomatch hclean
  case quiet => exact fun hcall => nomatch hcall
  case again =>
    intro increment k hsince hone hset
    have hle := (h.since increment k hsince).2 hone
    rwa [level_of_ioError hset, h.ioError hset, hlimit] at hle

/-- New pins end the count, unless the increment stays. -/
lemma Accounted.pins (h : Accounted x since) {increment decrement : ℤ}
    (hincrement : -2147483648 ≤ increment ∧ increment < 2147483648)
    (hdecrement : -2147483648 ≤ decrement ∧ decrement < 2147483648) :
    Accounted { x with increment := increment, decrement := decrement }
      (since.filter fun p => p.1 = increment) := by
  constructor
  case range => exact { h.range with
    le_increment := hincrement.1
    increment_lt := hincrement.2
    le_decrement := hdecrement.1
    decrement_lt := hdecrement.2 }
  case ioError => exact h.ioError
  case since =>
    intro i k hsince
    obtain ⟨hold, hkeep⟩ := Option.filter_eq_some_iff.1 hsince
    refine ⟨(of_decide_eq_true hkeep).symm, fun hone => ?_⟩
    have hlevel :
        Soft.level { x with increment := increment, decrement := decrement } = x.level := by
      rw [Soft.level, Soft.level, Soft.reset, Soft.reset]
      split_ifs <;> rfl
    rw [hlevel]
    exact (h.since i k hold).2 hone

/-- The user clears `io_error`. -/
lemma Accounted.clear (h : Accounted x since) :
    Accounted { x with ioError := false }
      (if x.ioError then some (x.increment, 0) else since) := by
  constructor
  case range => exact { h.range with }
  case ioError => exact fun hset => nomatch hset
  case since =>
    intro i k hsince
    split_ifs at hsince with hset
    · cases hsince
      have hlevel : Soft.level { x with ioError := false } = 0 :=
        level_of_cleared (h.ioError hset) rfl
      exact ⟨rfl, fun _ => by rw [hlevel, Nat.cast_zero, zero_mul]⟩
    · have hsame : { x with ioError := false } = x := by
        rw [← Bool.eq_false_of_not_eq_true hset]
      rw [hsame]
      exact h.since i k hsince

/-! ### Runs -/

/-- Whether a call keeps the law depends on what stands behind it. -/
lemma lawful_iff (hsoft : s.writer.board.soft = some x)
    (hsoft' : s'.writer.board.soft = some x') :
    Lawful s op s' ↔ ErrorLaw x x' op.isCall (s.outcome op) s'.since := by
  constructor
  · rintro ⟨y, y', hy, hy', hlaw⟩
    obtain rfl : x = y := Option.some.inj (hsoft.symm.trans hy)
    obtain rfl : x' = y' := Option.some.inj (hsoft'.symm.trans hy')
    exact hlaw
  · exact fun hlaw => ⟨x, x', hsoft, hsoft', hlaw⟩

lemma since_of_call (hstep : s.step op = some s') (hcall : op.isCall = true) :
    s'.since = countFailure (s.outcome op) s.since := by
  obtain ⟨⟨writer, mem⟩, -, rfl⟩ := Option.map_eq_some_iff.1 hstep
  cases op with
  | write rt addr buffer size sent => rfl
  | sendWrites sent => rfl
  | sendReads sent => rfl
  | receive early last => rfl
  | pins increment decrement => cases hcall
  | clear => cases hcall
  | other writer mem => cases hcall

/-- A call that is spared keeps the law. -/
lemma call_lawful (h : Accounted x s.since) (hsoft : s.writer.board.soft = some x)
    (hstep : s.step op = some s') (hcall : op.isCall = true) (hio : x.ioError = false)
    (hspared : Spared s op) :
    ∃ x', s'.writer.board.soft = some x' ∧
      ErrorLaw x x' true (s.outcome op) s'.since ∧ Accounted x' s'.since := by
  refine ⟨_, call_soft hstep hcall hsoft h.range, ?_⟩
  rw [since_of_call hstep hcall]
  obtain ⟨hlimit, hincrement, -, hioError⟩ := reset_fields x
  cases hout : s.outcome op with
  | quiet =>
    rw [countFailure_of_ne (by decide)]
    exact ⟨h.quiet hio, h⟩
  | clean =>
    rw [countFailure_of_ne (by decide)]
    exact h.lowered hio
  | failure =>
    cases hreceive : op.isReceive with
    | true => exact h.raised h.range.reset hlimit hincrement (hioError.trans hio) rfl
    | false =>
      refine @Accounted.raised x s.since h x h.range rfl rfl hio ?_
      by_cases hfull : x.counter = x.limit
      · have hone := hspared hreceive hout x hsoft hfull
        have hpos := h.range.one_le
        rw [level_of_cleared hfull hio, hfull]
        omega
      · rw [level_of_lt (lt_of_le_of_ne h.range.counter_le hfull)]

/-- A call that is not spared breaks it: the level counts from the limit. -/
lemma not_lawful (h : Accounted x s.since) (hsoft : s.writer.board.soft = some x)
    (hstep : s.step op = some s') (hcall : op.isCall = true) (hio : x.ioError = false)
    (hlawful : Lawful s op s') : Spared s op := by
  intro hreceive hout y hy hfull
  obtain rfl : x = y := Option.some.inj (hsoft.symm.trans hy)
  have hafter := call_soft hstep hcall hsoft h.range
  rw [hreceive, hout] at hafter
  have hlaw := ((lawful_iff hsoft hafter).1 hlawful).failure hout
  have hcounter : min x.limit (x.counter + max 1 x.increment)
      = min x.limit (x.level + max 1 x.increment) := hlaw.1
  have hpos := h.range.one_le
  rw [level_of_cleared hfull hio, hfull] at hcounter
  omega

/-- What is not a call is spared, and keeps the law. -/
lemma user_lawful (h : Accounted x s.since) (hsoft : s.writer.board.soft = some x)
    (hstep : s.step op = some s') (hcall : op.isCall = false) (hfair : Fair s op) :
    ∃ x', s'.writer.board.soft = some x' ∧
      ErrorLaw x x' false (s.outcome op) s'.since ∧ Accounted x' s'.since := by
  obtain ⟨⟨writer, mem⟩, hrun, rfl⟩ := Option.map_eq_some_iff.1 hstep
  cases op with
  | pins increment decrement =>
    have hpins := h.pins hfair.2.1 hfair.2.2
    exact ⟨_, setPins_soft hsoft hrun, hpins.errorLaw rfl, hpins⟩
  | clear =>
    have hclear := h.clear
    have hsince : s.sinceAfter .clear = if x.ioError then some (x.increment, 0) else s.since := by
      obtain ⟨hal, -, rfl⟩ := soft_eq_some.1 hsoft
      rw [ErrSys.sinceAfter, hsoft]
      rfl
    dsimp only
    rw [hsince]
    exact ⟨_, clear_soft hsoft hrun, hclear.errorLaw rfl, hclear⟩
  | other writer mem =>
    cases hrun
    have hsince : s.sinceAfter (.other writer mem) = s.since :=
      @countFailure_of_ne s.since .quiet (by decide)
    dsimp only
    rw [hsince]
    exact ⟨x, hfair.2.trans hsoft, h.errorLaw rfl, h⟩
  | write rt addr buffer size sent => cases hcall
  | sendWrites sent => cases hcall
  | sendReads sent => cases hcall
  | receive early last => cases hcall

lemma spared_of_user (hcall : op.isCall = false) : Spared s op := by
  intro _ hout
  cases op with
  | pins increment decrement => cases hout
  | clear => cases hout
  | other writer mem => cases hout
  | _ => cases hcall

/-- The invariant of the runs. -/
def AccountedSys (s : ErrSys) : Prop :=
  ∃ x, s.writer.board.soft = some x ∧ Accounted x s.since

lemma step_accounted (h : AccountedSys s) (hfair : Fair s op) (hspared : Spared s op)
    (hstep : s.step op = some s') : AccountedSys s' ∧ Lawful s op s' := by
  obtain ⟨x, hsoft, hx⟩ := h
  cases hcall : op.isCall with
  | true =>
    have hio : x.ioError = false := by
      obtain ⟨hal, -, rfl⟩ := soft_eq_some.1 hsoft
      exact hfair.1 hcall
    obtain ⟨x', hsoft', hlaw, hx'⟩ := call_lawful hx hsoft hstep hcall hio hspared
    exact ⟨⟨x', hsoft', hx'⟩, x, x', hsoft, hsoft', hcall ▸ hlaw⟩
  | false =>
    obtain ⟨x', hsoft', hlaw, hx'⟩ := user_lawful hx hsoft hstep hcall hfair
    exact ⟨⟨x', hsoft', hx'⟩, x, x', hsoft, hsoft', hcall ▸ hlaw⟩

lemma reach_accounted {s₀ : ErrSys} (h₀ : AccountedSys s₀)
    (h : Reach ErrSys.step (fun s op => Fair s op ∧ Spared s op) s₀ s) : AccountedSys s :=
  h.invariant h₀ fun hs hok hstep => (step_accounted hs hok.1 hok.2 hstep).1

/-- The error level of a board. Whatever calls are made in whatever order, and however the user sets
the pins: a call keeps the law if and only if it is spared. -/
theorem soft_errors_iff {s₀ : ErrSys} (h₀ : s₀.writer.board.soft = some x) (hx : x.InRange)
    (hclear : x.ioError = false) (hsince : s₀.since = none)
    (hs : Reach ErrSys.step (fun s op => Fair s op ∧ Spared s op) s₀ s) (hfair : Fair s op)
    (hstep : s.step op = some s') : Lawful s op s' ↔ Spared s op := by
  have hstart : AccountedSys s₀ :=
    ⟨x, h₀, hx, fun hset => (nomatch hclear.symm.trans hset),
      fun _ _ hsome => (nomatch hsince.symm.trans hsome)⟩
  have hreach := reach_accounted hstart hs
  refine ⟨fun hlawful => ?_, fun hspared => (step_accounted hreach hfair hspared hstep).2⟩
  cases hcall : op.isCall with
  | false => exact spared_of_user hcall
  | true =>
      obtain ⟨y, hsoft, hy⟩ := hreach
      have hio : y.ioError = false := by
        obtain ⟨hal, -, rfl⟩ := soft_eq_some.1 hsoft
        exact hfair.1 hcall
      exact not_lawful hy hsoft hstep hcall hio hlawful

/-- A board with the pins as they are exported. -/
def exportedBoard : Board :=
  .init (some {
    packetErrorLimit := 10
    packetErrorIncrement := 2
    packetErrorDecrement := 1
    packetError := false
    packetErrorLevel := 0
    packetErrorExceeded := false
    packetWrongSeq := 0 })

/-- The driver behind its initialization. -/
def ErrSys.exported : ErrSys where
  writer := (WriteSys.init exportedBoard).writer
  mem := fun _ => 0
  since := none

/-- A `send` of the read requests that fails. -/
theorem soft_errors_send : ∃ s', ErrSys.exported.step (.sendReads false) = some s' ∧
    Lawful ErrSys.exported (.sendReads false) s' := by
  have hspared : Spared ErrSys.exported (.sendReads false) := by
    intro _ _ x hx hfull
    cases hx
    exact absurd hfull (by decide)
  refine ⟨_, rfl, (@soft_errors_iff ⟨0, false, 10, 2, 1⟩ _ _ _ _ rfl ?_ rfl rfl Reach.refl ?_ rfl).2
    hspared⟩
  · constructor <;> decide
  · exact ⟨fun _ => rfl, trivial⟩

/-- The calls that are made, and that the user clears `io_error`. -/
def ErrSys.callable (s : ErrSys) : ErrOp → Bool
  | .pins .. | .other .. => false
  | .clear => true
  | _ => !s.writer.board.ioError

lemma fair_of_callable (h : s.callable op = true) : Fair s op := by
  cases op with
  | pins increment decrement => cases h
  | other writer mem => cases h
  | clear => exact ⟨fun hcall => (nomatch hcall), trivial⟩
  | _ => exact ⟨fun _ => by simpa [ErrSys.callable] using h, trivial⟩

/-- Five failures raise `io_error`. The user clears it, and one more raises it again. -/
theorem soft_errors_cleared : ¬ ∀ (x : Soft) (s₀ s s' : ErrSys) (op : ErrOp),
    s₀.writer.board.soft = some x → x.InRange → x.counter = 0 → x.ioError = false →
    s₀.since = none → Reach ErrSys.step Fair s₀ s → Fair s op → s.step op = some s' →
    Lawful s op s' := by
  intro hall
  have hrun : (run ErrSys.step ErrSys.callable ErrSys.exported
      [.sendReads false, .sendReads false, .sendReads false, .sendReads false, .sendReads false,
        .clear]).map (fun s => (s.writer.board.soft, s.outcome (.sendReads false),
          (s.step (.sendReads false)).map fun s' => s'.writer.board.soft))
      = some (some ⟨10, false, 10, 2, 1⟩, .failure, some (some ⟨10, true, 10, 2, 1⟩)) := by
    decide
  obtain ⟨s, -, hafter, hr⟩ := run_map hrun
  obtain ⟨hsoft, hrest⟩ := Prod.mk.inj hafter
  obtain ⟨hout, hmap⟩ := Prod.mk.inj hrest
  obtain ⟨s', hstep, hsoft'⟩ := Option.map_eq_some_iff.1 hmap
  have hreach : Reach ErrSys.step Fair ErrSys.exported s :=
    hr.mono fun h => fair_of_callable h
  have hfair : Fair s (.sendReads false) := by
    obtain ⟨hal, -, hx⟩ := soft_eq_some.1 hsoft
    exact ⟨fun _ => (congrArg Soft.ioError hx).symm, trivial⟩
  have hlawful := hall ⟨0, false, 10, 2, 1⟩ _ s s' _ rfl (by constructor <;> decide) rfl rfl rfl
    hreach hfair hstep
  have hlaw := ((lawful_iff hsoft hsoft').1 hlawful).failure hout
  exact absurd hlaw.1 (by decide)

end MachinekitHal.Eth
