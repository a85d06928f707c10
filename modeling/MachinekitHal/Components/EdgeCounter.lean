import MachinekitHal.Lib.Runs

/-!
The edge counter of `counter.c`, in two threads.

* `Memory`, `Memory.update`: the counter in shared memory, and what the fast thread does to it.
* `Pc`, `Capture.next`: the slow thread, access by access.
* `CounterSys`: both, with the edges that were seen and the captures that saw index-enable.
* `CounterLaw`: what is asked of a step; `Spared`: the steps that keep it.
* `CountInv`: the counts and the edges.
* `IndexInv`: how the flag stands to what captures have seen.
* `counter_iff`: a step keeps the law if and only if it is spared, in every run of spared steps.
-/

namespace MachinekitHal.EdgeCounter

open Runs

/-- `counter_t` with its pins. Floating point numbers are rational. -/
structure Memory where
  oldZ : Bool
  oldA : Bool
  resetOnIndex : Bool
  rawCount : BitVec 32
  indexEna : Bool
  reset : Bool
  count : BitVec 32
  pos : ℚ
  vel : ℚ
  posScale : ℚ
  oldScale : ℚ
  scale : ℚ
  lastCount : BitVec 32
  lastIndexCount : BitVec 32

/-- A counter as `rtapi_app_main` leaves it. -/
def Memory.init : Memory where
  oldZ := false
  oldA := false
  resetOnIndex := false
  rawCount := 0
  indexEna := false
  reset := false
  count := 0
  pos := 0
  vel := 0
  posScale := 1
  oldScale := 1
  scale := 1
  lastCount := 0
  lastIndexCount := 0

/-! ### The fast thread -/

/-- `update` counts a rising edge of A. -/
def Memory.countA (a : Bool) (m : Memory) : Memory :=
  { m with
    rawCount := if !m.oldA && a then m.rawCount + 1 else m.rawCount
    oldA := a }

/-- `update` latches the count at a rising edge of Z. -/
def Memory.latchZ (z : Bool) (m : Memory) : Memory :=
  if m.resetOnIndex && !m.oldZ && z then
    { m with lastIndexCount := m.rawCount, indexEna := false, oldZ := z }
  else { m with oldZ := z }

/-- `update`. -/
def Memory.update (a z : Bool) (m : Memory) : Memory := (m.countA a).latchZ z

/-! ### The slow thread -/

/-- The next access of `capture` to memory that `update` uses. What else it does is done with the
access in front of it. -/
inductive Pc where
  | reset
  | clearRaw
  | clearIndex
  | raw
  | index
  | ena
  | flag
  deriving DecidableEq

/-- `capture`: where it is, its locals, and what it has read of `index_ena`. -/
structure Capture where
  pc : Pc
  rawCount : BitVec 32
  counts : BitVec 32
  ena : Bool

/-- `capture` takes over a new scale. -/
def Memory.takeScale (m : Memory) : Memory :=
  if m.posScale ≠ m.oldScale then
    let posScale := if m.posScale < 1 / 10 ^ 20 ∧ -1 / 10 ^ 20 < m.posScale then 1 else m.posScale
    { m with oldScale := m.posScale, posScale := posScale, scale := 1 / posScale }
  else m

/-- `capture` computes the position and the velocity. -/
def Memory.scaled (period : ℤ) (counts : BitVec 32) (m : Memory) : Memory :=
  { m with
    pos := m.count.toInt * m.scale
    vel := counts.toInt * m.scale * 10 ^ 9 / period }

/-- One access. -/
def Capture.next (period : ℤ) (c : Capture) (m : Memory) : Capture × Memory :=
  match c.pc with
  | .reset => ({ c with pc := if m.reset then .clearRaw else .raw }, m)
  | .clearRaw => ({ c with pc := .clearIndex }, { m with rawCount := 0 })
  | .clearIndex => ({ c with pc := .raw }, { m with lastIndexCount := 0, lastCount := 0 })
  | .raw => ({ c with pc := .index, rawCount := m.rawCount }, m)
  | .index =>
    let counts := c.rawCount - m.lastCount
    ({ c with pc := .ena, counts := counts },
      ({ m with
        count := c.rawCount - m.lastIndexCount
        lastCount := c.rawCount }.takeScale).scaled period counts)
  | .ena => ({ c with pc := .flag, ena := m.indexEna }, m)
  | .flag => ({ c with pc := .reset }, { m with resetOnIndex := c.ena })

/-! ### Both threads -/

/-- The rising edges of A so far, and those when `capture` read the count. For each capture the
edges since the one before it, and its velocity counts. Whether a capture has seen index-enable
and Z has not risen since, and whether an edge of Z has latched and no capture has behind it seen
index-enable or stored that it is off. -/
structure History where
  edges : ℕ
  read : ℕ
  intervals : List ℕ
  velocity : List (BitVec 32)
  armed : Bool
  used : Bool

/-- The counter, `capture`, and what has happened. -/
structure CounterSys where
  mem : Memory
  cap : Capture
  hist : History

/-- `update` runs, `capture` makes its next access, and the pins are set from outside. -/
inductive CounterOp where
  | update (a z : Bool)
  | access (period : ℤ)
  | raise
  | posScale (x : ℚ)

/-- Z rises. -/
def CounterSys.risesZ (s : CounterSys) (z : Bool) : Bool := !s.mem.oldZ && z

/-- What `update` adds to the history. -/
def CounterSys.seen (s : CounterSys) (a z : Bool) : History :=
  { s.hist with
    edges := if !s.mem.oldA && a then s.hist.edges + 1 else s.hist.edges
    armed := if s.risesZ z then false else s.hist.armed
    used := if s.risesZ z && s.mem.resetOnIndex then true else s.hist.used }

/-- What an access adds to the history. -/
def CounterSys.noted (s : CounterSys) : History :=
  match s.cap.pc with
  | .raw => { s.hist with read := s.hist.edges }
  | .index => { s.hist with
      intervals := s.hist.intervals ++ [s.hist.read - s.hist.intervals.sum]
      velocity := s.hist.velocity ++ [s.cap.rawCount - s.mem.lastCount] }
  | .ena => if s.mem.indexEna then { s.hist with armed := true, used := false } else s.hist
  | .flag => if s.cap.ena then s.hist else { s.hist with used := false }
  | _ => s.hist

/-- `update` runs. -/
def CounterSys.update (s : CounterSys) (a z : Bool) : CounterSys :=
  { s with mem := s.mem.update a z, hist := s.seen a z }

/-- `capture` makes its next access. -/
def CounterSys.access (s : CounterSys) (period : ℤ) : CounterSys where
  mem := (s.cap.next period s.mem).2
  cap := (s.cap.next period s.mem).1
  hist := s.noted

/-- One step. -/
def CounterSys.step (s : CounterSys) : CounterOp → Option CounterSys
  | .update a z => some (s.update a z)
  | .access period => some (s.access period)
  | .raise => some { s with mem := { s.mem with indexEna := true } }
  | .posScale x => some { s with mem := { s.mem with posScale := x } }

/-- Nothing has happened. -/
def CounterSys.init : CounterSys where
  mem := .init
  cap := { pc := .reset, rawCount := 0, counts := 0, ena := false }
  hist :=
    { edges := 0
      read := 0
      intervals := []
      velocity := []
      armed := false
      used := false }

/-! ### The law -/

/-- A rising edge of Z at which a capture has seen index-enable. -/
def CounterSys.first (s : CounterSys) : CounterOp → Bool
  | .update _ z => s.hist.armed && s.risesZ z
  | _ => false

/-- The first edge of Z latches the count and clears index-enable. No other step changes the
latch, and none but one from outside index-enable. The count is the number of the edges of A, and
the velocity counts of the captures are those of the edges between them: a capture accounts for
all edges up to its read, once it has computed them. -/
structure CounterLaw (s : CounterSys) (op : CounterOp) (s' : CounterSys) : Prop where
  first : s.first op = true →
    s'.mem.lastIndexCount = s'.mem.rawCount ∧ s'.mem.indexEna = false
  later : s.first op = false → s'.mem.lastIndexCount = s.mem.lastIndexCount ∧
    (op ≠ .raise → s'.mem.indexEna = s.mem.indexEna)
  raw : s'.mem.rawCount = BitVec.ofNat 32 s'.hist.edges
  velocity : s'.hist.velocity = s'.hist.intervals.map (BitVec.ofNat 32)
  intervals : s'.hist.intervals.sum ≤ s'.hist.read ∧ s'.hist.read ≤ s'.hist.edges ∧
    (s'.cap.pc ≠ .index → s'.hist.intervals.sum = s'.hist.read)

/-- Between the access that finds index-enable raised and the one that stores it. -/
def CounterSys.arming (s : CounterSys) : Bool :=
  decide (s.cap.pc = .flag) && s.cap.ena && !s.mem.resetOnIndex

/-- Z does not rise while a capture is arming, nor once an edge has latched, unless the edge would
latch the same count and index-enable is off. -/
def Spared (s : CounterSys) : CounterOp → Prop
  | .update a z => s.risesZ z = true → s.arming = false ∧
      (s.hist.used = true →
        (if !s.mem.oldA && a then s.mem.rawCount + 1 else s.mem.rawCount) = s.mem.lastIndexCount ∧
          s.mem.indexEna = false)
  | _ => True

/-! ### Counts -/

variable {s : CounterSys}

lemma update_kept (a z : Bool) (m : Memory) :
    (m.update a z).rawCount = (m.countA a).rawCount ∧ (m.update a z).reset = m.reset ∧
      (m.update a z).resetOnIndex = m.resetOnIndex ∧ (m.update a z).lastCount = m.lastCount := by
  rw [Memory.update, Memory.latchZ]
  split_ifs <;> exact ⟨rfl, rfl, rfl, rfl⟩

lemma scaled_kept (period : ℤ) (counts : BitVec 32) (m : Memory) :
    (m.takeScale.scaled period counts).rawCount = m.rawCount ∧
      (m.takeScale.scaled period counts).reset = m.reset ∧
      (m.takeScale.scaled period counts).resetOnIndex = m.resetOnIndex ∧
      (m.takeScale.scaled period counts).lastCount = m.lastCount ∧
      (m.takeScale.scaled period counts).lastIndexCount = m.lastIndexCount ∧
      (m.takeScale.scaled period counts).indexEna = m.indexEna := by
  rw [Memory.takeScale]
  split_ifs <;> exact ⟨rfl, rfl, rfl, rfl, rfl, rfl⟩

/-- The counts and the edges. -/
structure CountInv (s : CounterSys) : Prop where
  reset : s.mem.reset = false
  running : s.cap.pc ≠ .clearRaw ∧ s.cap.pc ≠ .clearIndex
  raw : s.mem.rawCount = BitVec.ofNat 32 s.hist.edges
  last : s.mem.lastCount = BitVec.ofNat 32 s.hist.intervals.sum
  held : s.cap.pc = .index → s.cap.rawCount = BitVec.ofNat 32 s.hist.read
  velocity : s.hist.velocity = s.hist.intervals.map (BitVec.ofNat 32)
  intervals : s.hist.intervals.sum ≤ s.hist.read ∧ s.hist.read ≤ s.hist.edges ∧
    (s.cap.pc ≠ .index → s.hist.intervals.sum = s.hist.read)

lemma countInv_init : CountInv .init where
  reset := rfl
  running := ⟨by decide, by decide⟩
  raw := rfl
  last := rfl
  held h := absurd h (by decide)
  velocity := rfl
  intervals := ⟨le_rfl, le_rfl, fun _ => rfl⟩

lemma CountInv.update (h : CountInv s) (a z : Bool) :
    CountInv (s.update a z) := by
  obtain ⟨hraw, hreset, -, hlast⟩ := update_kept a z s.mem
  have hedges : s.hist.edges ≤ (s.seen a z).edges := by
    rw [CounterSys.seen]
    dsimp only
    split_ifs
    · exact Nat.le_succ _
    · exact le_rfl
  refine ⟨hreset.trans h.reset, h.running, ?_, hlast.trans h.last, h.held, h.velocity,
    h.intervals.1, h.intervals.2.1.trans hedges, h.intervals.2.2⟩
  refine hraw.trans ?_
  show (if !s.mem.oldA && a then s.mem.rawCount + 1 else s.mem.rawCount)
    = BitVec.ofNat 32 (if !s.mem.oldA && a then s.hist.edges + 1 else s.hist.edges)
  rw [h.raw]
  split_ifs
  · rw [BitVec.ofNat_add]
    rfl
  · rfl

/-- The difference of two counts is the number of edges between them. -/
lemma ofNat_sub {m n : ℕ} (h : m ≤ n) :
    BitVec.ofNat 32 n - BitVec.ofNat 32 m = BitVec.ofNat 32 (n - m) := by
  obtain ⟨k, rfl⟩ := Nat.exists_eq_add_of_le h
  rw [Nat.add_sub_cancel_left, BitVec.ofNat_add, BitVec.add_comm, BitVec.add_sub_cancel]

/-- A capture accounts for the edges behind the one before it. -/
lemma CountInv.access (h : CountInv s) (period : ℤ) : CountInv (s.access period) := by
  obtain ⟨hreset, ⟨hclear, hclear'⟩, hraw, hlast, hheld, hvelocity, hsum, hread, hall⟩ := h
  rw [CounterSys.access, Capture.next, CounterSys.noted]
  cases hpc : s.cap.pc with
  | clearRaw => exact absurd hpc hclear
  | clearIndex => exact absurd hpc hclear'
  | reset =>
    rw [hreset]
    dsimp only
    rw [if_neg Bool.false_ne_true]
    exact ⟨hreset, ⟨nofun, nofun⟩, hraw, hlast, nofun, hvelocity,
      hsum, hread, fun _ => hall (by rw [hpc]; decide)⟩
  | raw =>
    exact ⟨hreset, ⟨nofun, nofun⟩, hraw, hlast, fun _ => hraw, hvelocity,
      hsum.trans hread, le_rfl, fun hindex => absurd rfl hindex⟩
  | index =>
    obtain ⟨hraw', hreset', -, hlast', -⟩ := scaled_kept period (s.cap.rawCount - s.mem.lastCount)
      { s.mem with
        count := s.cap.rawCount - s.mem.lastIndexCount
        lastCount := s.cap.rawCount }
    have htotal : (s.hist.intervals ++ [s.hist.read - s.hist.intervals.sum]).sum
        = s.hist.read := by
      rw [List.sum_append, List.sum_singleton, Nat.add_sub_cancel' hsum]
    refine ⟨hreset'.trans hreset, ⟨nofun, nofun⟩, hraw'.trans hraw, hlast'.trans ?_,
      nofun, ?_, htotal.le, hread, fun _ => htotal⟩
    · dsimp only
      rw [htotal]
      exact hheld hpc
    · dsimp only
      rw [hvelocity, List.map_append, List.map_singleton, hheld hpc, hlast, ofNat_sub hsum]
  | ena =>
    dsimp only
    split_ifs
    all_goals
      exact ⟨hreset, ⟨nofun, nofun⟩, hraw, hlast, nofun,
        hvelocity, hsum, hread, fun _ => hall (by rw [hpc]; decide)⟩
  | flag =>
    dsimp only
    split_ifs
    all_goals
      exact ⟨hreset, ⟨nofun, nofun⟩, hraw, hlast, nofun,
        hvelocity, hsum, hread, fun _ => hall (by rw [hpc]; decide)⟩

end MachinekitHal.EdgeCounter

namespace MachinekitHal.EdgeCounter

open Runs

variable {s s' : CounterSys} {a z : Bool} {op : CounterOp}

/-! ### Edges of Z -/

lemma update_latches (hflag : s.mem.resetOnIndex = true) (hrise : s.risesZ z = true) :
    (s.update a z).mem.lastIndexCount = (s.mem.countA a).rawCount ∧
      (s.update a z).mem.indexEna = false := by
  have hlatch : ((s.mem.countA a).resetOnIndex && !(s.mem.countA a).oldZ && z) = true := by
    rw [Bool.and_assoc]
    exact Bool.and_eq_true_iff.2 ⟨hflag, hrise⟩
  rw [CounterSys.update, Memory.update, Memory.latchZ, if_pos hlatch]
  exact ⟨rfl, rfl⟩

lemma update_keeps (h : s.mem.resetOnIndex = false ∨ s.risesZ z = false) :
    (s.update a z).mem.lastIndexCount = s.mem.lastIndexCount ∧
      (s.update a z).mem.indexEna = s.mem.indexEna := by
  have hlatch : ¬ ((s.mem.countA a).resetOnIndex && !(s.mem.countA a).oldZ && z) = true := by
    rw [Bool.and_assoc, Bool.not_eq_true, Bool.and_eq_false_iff]
    exact h
  rw [CounterSys.update, Memory.update, Memory.latchZ, if_neg hlatch]
  exact ⟨rfl, rfl⟩

/-- Index-enable is on while it is armed. The flag is set if it is armed or used, and only a capture
that is arming has it late. -/
structure IndexInv (s : CounterSys) : Prop where
  armed : s.hist.armed = true → s.mem.indexEna = true
  used : s.hist.used = true → s.mem.resetOnIndex = true ∧ s.hist.armed = false
  flag : s.mem.resetOnIndex = true → s.hist.armed = true ∨ s.hist.used = true
  late : s.hist.armed = true → s.mem.resetOnIndex = false → s.arming = true
  seen : s.cap.pc = .flag → s.cap.ena = true → s.hist.armed = true ∨ s.hist.used = true
  unseen : s.cap.pc = .flag → s.cap.ena = false → s.hist.armed = false

lemma indexInv_init : IndexInv .init :=
  ⟨nofun, nofun, nofun, nofun, nofun, nofun⟩

lemma arming_eq (hpc : s.cap.pc = .flag) (hena : s.cap.ena = true)
    (hflag : s.mem.resetOnIndex = false) : s.arming = true := by
  rw [CounterSys.arming, hpc, hena, hflag]
  rfl

/-- A rising edge of Z, not while a capture is arming. -/
lemma IndexInv.rises (h : IndexInv s) (hrise : s.risesZ z = true) (harming : s.arming = false) :
    IndexInv (s.update a z) := by
  have harmed : (s.update a z).hist.armed = false := if_pos hrise
  have hflag : (s.update a z).mem.resetOnIndex = s.mem.resetOnIndex := (update_kept a z s.mem).2.2.1
  have hused : (s.update a z).hist.used = s.mem.resetOnIndex := by
    show (if s.risesZ z && s.mem.resetOnIndex then true else s.hist.used) = s.mem.resetOnIndex
    rw [hrise, Bool.true_and]
    cases hreset : s.mem.resetOnIndex with
    | true => rfl
    | false =>
      refine Bool.eq_false_of_not_eq_true fun hold => ?_
      exact absurd ((h.used hold).1.symm.trans hreset) (by decide)
  refine ⟨?_, ?_, ?_, ?_, ?_, fun _ _ => harmed⟩
  · intro hset
    cases harmed.symm.trans hset
  · intro hset
    exact ⟨hflag.trans (hused.symm.trans hset), harmed⟩
  · intro hset
    exact .inr (hused.trans (hflag.symm.trans hset))
  · intro hset
    cases harmed.symm.trans hset
  · intro hpc hena
    refine .inr (hused.trans (Bool.eq_true_of_not_eq_false fun hreset => ?_))
    cases harming.symm.trans (arming_eq hpc hena hreset)

lemma IndexInv.update (h : IndexInv s) (hspared : Spared s (.update a z)) :
    IndexInv (s.update a z) := by
  cases hrise : s.risesZ z with
  | true => exact h.rises hrise (hspared hrise).1
  | false =>
    have hflag : (s.update a z).mem.resetOnIndex = s.mem.resetOnIndex :=
      (update_kept a z s.mem).2.2.1
    have hena := (@update_keeps s a z (.inr hrise)).2
    have harmed : (s.update a z).hist.armed = s.hist.armed :=
      if_neg (by rw [hrise]; exact Bool.false_ne_true)
    have hused : (s.update a z).hist.used = s.hist.used :=
      if_neg (by rw [hrise]; exact Bool.false_ne_true)
    have harming : (s.update a z).arming = s.arming := by
      rw [CounterSys.arming, hflag]
      rfl
    constructor
    case armed =>
      rw [harmed, hena]
      exact h.armed
    case used =>
      rw [hused, hflag, harmed]
      exact h.used
    case flag =>
      rw [hflag, harmed, hused]
      exact h.flag
    case late =>
      rw [harmed, hflag, harming]
      exact h.late
    case seen =>
      rw [harmed, hused]
      exact h.seen
    case unseen =>
      rw [harmed]
      exact h.unseen

/-- Index-enable is raised from outside. -/
lemma IndexInv.raise (h : IndexInv s) :
    IndexInv { s with mem := { s.mem with indexEna := true } } :=
  ⟨fun _ => rfl, h.used, h.flag, h.late, h.seen, h.unseen⟩

/-- An access that is not to the index. -/
lemma IndexInv.idle (h : IndexInv s) (hflag : s'.mem.resetOnIndex = s.mem.resetOnIndex)
    (hena : s'.mem.indexEna = s.mem.indexEna) (hhist : s'.hist.armed = s.hist.armed)
    (hused : s'.hist.used = s.hist.used) (hpc : s.cap.pc ≠ .flag) (hpc' : s'.cap.pc ≠ .flag) :
    IndexInv s' := by
  constructor
  case armed =>
    rw [hhist, hena]
    exact h.armed
  case used =>
    rw [hused, hflag, hhist]
    exact h.used
  case flag =>
    rw [hflag, hhist, hused]
    exact h.flag
  case late =>
    rw [hhist, hflag]
    intro harmed hreset
    have harming := h.late harmed hreset
    rw [CounterSys.arming, decide_eq_false hpc, Bool.false_and] at harming
    cases harming
  case seen => exact fun hat => absurd hat hpc'
  case unseen => exact fun hat => absurd hat hpc'

/-- `capture` reads index-enable. -/
lemma IndexInv.readEna (h : IndexInv s) (hpc : s.cap.pc = .ena) (period : ℤ) :
    IndexInv (s.access period) := by
  rw [CounterSys.access, Capture.next, CounterSys.noted, hpc]
  dsimp only
  cases hena : s.mem.indexEna with
  | true =>
    rw [if_pos rfl]
    refine ⟨fun _ => hena, by rintro ⟨⟩, fun _ => .inl rfl, fun _ hreset => ?_,
      fun _ _ => .inl rfl, by rintro - ⟨⟩⟩
    exact arming_eq rfl rfl hreset
  | false =>
    have harmed : s.hist.armed = false := by
      refine Bool.eq_false_of_not_eq_true fun hset => ?_
      cases hena.symm.trans (h.armed hset)
    rw [if_neg Bool.false_ne_true]
    refine ⟨fun hset => ?_, h.used, h.flag, fun hset => ?_, by rintro - ⟨⟩, fun _ _ => harmed⟩
    · cases harmed.symm.trans hset
    · cases harmed.symm.trans hset

/-- `capture` stores the flag. -/
lemma IndexInv.storeFlag (h : IndexInv s) (hpc : s.cap.pc = .flag) (period : ℤ) :
    IndexInv (s.access period) := by
  rw [CounterSys.access, Capture.next, CounterSys.noted, hpc]
  dsimp only
  cases hena : s.cap.ena with
  | true =>
    rw [if_pos rfl]
    exact ⟨h.armed, fun hset => ⟨rfl, (h.used hset).2⟩, fun _ => h.seen hpc hena,
      by rintro - ⟨⟩, by rintro ⟨⟩, by rintro ⟨⟩⟩
  | false =>
    have harmed := h.unseen hpc hena
    rw [if_neg Bool.false_ne_true]
    refine ⟨h.armed, by rintro ⟨⟩, by rintro ⟨⟩, fun hset => ?_, by rintro ⟨⟩, by rintro ⟨⟩⟩
    cases harmed.symm.trans hset

/-- The accesses of `capture`. -/
lemma IndexInv.access (h : IndexInv s)
    (hrunning : s.cap.pc ≠ .clearRaw ∧ s.cap.pc ≠ .clearIndex) (period : ℤ) :
    IndexInv (s.access period) := by
  cases hpc : s.cap.pc with
  | clearRaw => exact absurd hpc hrunning.1
  | clearIndex => exact absurd hpc hrunning.2
  | ena => exact h.readEna hpc period
  | flag => exact h.storeFlag hpc period
  | reset =>
    refine h.idle ?_ ?_ ?_ ?_ (by rw [hpc]; decide) ?_
    all_goals rw [CounterSys.access, Capture.next, CounterSys.noted, hpc]
    dsimp only
    split_ifs <;> decide
  | raw =>
    refine h.idle ?_ ?_ ?_ ?_ (by rw [hpc]; decide) ?_
    all_goals rw [CounterSys.access, Capture.next, CounterSys.noted, hpc]
    rintro ⟨⟩
  | index =>
    obtain ⟨-, -, hflag, -, -, hena⟩ := scaled_kept period (s.cap.rawCount - s.mem.lastCount)
      { s.mem with
        count := s.cap.rawCount - s.mem.lastIndexCount
        lastCount := s.cap.rawCount }
    refine h.idle ?_ ?_ ?_ ?_ (by rw [hpc]; decide) ?_
    all_goals rw [CounterSys.access, Capture.next, CounterSys.noted, hpc]
    · exact hflag
    · exact hena
    · rintro ⟨⟩

/-! ### Runs -/

/-- With reset off no access of `capture` changes the latch or index-enable. -/
lemma access_keeps (hrunning : s.cap.pc ≠ .clearRaw ∧ s.cap.pc ≠ .clearIndex) (period : ℤ) :
    (s.access period).mem.lastIndexCount = s.mem.lastIndexCount ∧
      (s.access period).mem.indexEna = s.mem.indexEna := by
  rw [CounterSys.access, Capture.next]
  cases hpc : s.cap.pc with
  | clearRaw => exact absurd hpc hrunning.1
  | clearIndex => exact absurd hpc hrunning.2
  | index =>
    obtain ⟨-, -, -, -, hindex, hena⟩ := scaled_kept period (s.cap.rawCount - s.mem.lastCount)
      { s.mem with
        count := s.cap.rawCount - s.mem.lastIndexCount
        lastCount := s.cap.rawCount }
    exact ⟨hindex, hena⟩
  | _ => exact ⟨rfl, rfl⟩

/-- What is kept by the steps. -/
structure CounterInv (s : CounterSys) : Prop where
  counts : CountInv s
  index : IndexInv s

lemma CounterInv.step (h : CounterInv s) (hspared : Spared s op) (hstep : s.step op = some s') :
    CounterInv s' := by
  cases op with
  | update a z =>
    cases hstep
    exact ⟨h.counts.update a z, h.index.update hspared⟩
  | access period =>
    cases hstep
    exact ⟨h.counts.access period, h.index.access h.counts.running period⟩
  | raise =>
    cases hstep
    obtain ⟨hreset, hrunning, hraw, hlast, hheld, hvelocity, hintervals⟩ := h.counts
    exact ⟨⟨hreset, hrunning, hraw, hlast, hheld, hvelocity, hintervals⟩, h.index.raise⟩
  | posScale x =>
    cases hstep
    obtain ⟨hreset, hrunning, hraw, hlast, hheld, hvelocity, hintervals⟩ := h.counts
    obtain ⟨harmed, hused, hflag, hlate, hseen, hunseen⟩ := h.index
    exact ⟨⟨hreset, hrunning, hraw, hlast, hheld, hvelocity, hintervals⟩,
      ⟨harmed, hused, hflag, hlate, hseen, hunseen⟩⟩

/-- A step keeps its law. -/
def Lawful (s : CounterSys) (op : CounterOp) : Prop :=
  ∃ s', s.step op = some s' ∧ CounterLaw s op s'

/-- What remains of the law is the index. -/
lemma lawful_iff_index (h : CountInv s') (hstep : s.step op = some s') : Lawful s op ↔
    (s.first op = true → s'.mem.lastIndexCount = s'.mem.rawCount ∧ s'.mem.indexEna = false) ∧
      (s.first op = false → s'.mem.lastIndexCount = s.mem.lastIndexCount ∧
        (op ≠ .raise → s'.mem.indexEna = s.mem.indexEna)) := by
  constructor
  · rintro ⟨t, ht, hlaw⟩
    cases hstep.symm.trans ht
    exact ⟨hlaw.first, hlaw.later⟩
  · exact fun hindex => ⟨s', hstep, hindex.1, hindex.2, h.raw, h.velocity, h.intervals⟩

/-- The index behind a rising edge of Z. -/
lemma index_rises_iff (h : IndexInv s) (hrise : s.risesZ z = true) :
    ((s.first (.update a z) = true →
        (s.update a z).mem.lastIndexCount = (s.mem.countA a).rawCount ∧
          (s.update a z).mem.indexEna = false) ∧
      (s.first (.update a z) = false →
        (s.update a z).mem.lastIndexCount = s.mem.lastIndexCount ∧
          (s.update a z).mem.indexEna = s.mem.indexEna)) ↔
    s.arming = false ∧ (s.hist.used = true →
      (s.mem.countA a).rawCount = s.mem.lastIndexCount ∧ s.mem.indexEna = false) := by
  have hfirst : s.first (.update a z) = s.hist.armed := by
    rw [CounterSys.first, hrise, Bool.and_true]
  rw [hfirst]
  constructor
  · rintro ⟨hlatches, hkeeps⟩
    constructor
    · -- an armed edge would not latch
      refine Bool.eq_false_of_not_eq_true fun harming => ?_
      obtain ⟨hat, hflag⟩ := Bool.and_eq_true_iff.1 harming
      obtain ⟨hpc, hena⟩ := Bool.and_eq_true_iff.1 hat
      rw [Bool.not_eq_true'] at hflag
      rcases h.seen (of_decide_eq_true hpc) hena with harmed | hused
      · have hoff := (hlatches harmed).2
        rw [(update_keeps (.inl hflag)).2, h.armed harmed] at hoff
        cases hoff
      · cases hflag.symm.trans (h.used hused).1
    · intro hused
      obtain ⟨hflag, harmed⟩ := h.used hused
      obtain ⟨hindex, hena⟩ := hkeeps harmed
      obtain ⟨hindex', hena'⟩ := @update_latches s a z hflag hrise
      exact ⟨hindex'.symm.trans hindex, hena.symm.trans hena'⟩
  · rintro ⟨harming, hused⟩
    constructor
    · intro harmed
      cases hflag : s.mem.resetOnIndex with
      | true => exact update_latches hflag hrise
      | false => cases harming.symm.trans (h.late harmed hflag)
    · intro harmed
      cases hflag : s.mem.resetOnIndex with
      | false => exact update_keeps (.inl hflag)
      | true =>
        obtain hset | hset := h.flag hflag
        · cases harmed.symm.trans hset
        · obtain ⟨hindex, hena⟩ := @update_latches s a z hflag hrise
          obtain ⟨hsame, hoff⟩ := hused hset
          exact ⟨hindex.trans hsame, hena.trans hoff.symm⟩

lemma update_lawful_iff (h : CounterInv s) :
    Lawful s (.update a z) ↔ Spared s (.update a z) := by
  have hraw : (s.update a z).mem.rawCount = (s.mem.countA a).rawCount :=
    (update_kept a z s.mem).1
  have hraise : CounterOp.update a z ≠ .raise := nofun
  rw [lawful_iff_index (h.counts.update a z) rfl, hraw, forall_prop_of_true hraise]
  cases hrise : s.risesZ z with
  | true =>
    exact (index_rises_iff h.index hrise).trans
      ⟨fun hspared _ => hspared, fun hspared => hspared hrise⟩
  | false =>
    have hfirst : s.first (.update a z) = false := by
      rw [CounterSys.first, hrise, Bool.and_false]
    refine iff_of_true ⟨fun hset => ?_, fun _ => update_keeps (.inr hrise)⟩ fun hset => ?_
    · cases hfirst.symm.trans hset
    · cases hrise.symm.trans hset

/-- The index of the edge counter. With reset off, however `update` runs between the accesses of
`capture`, whatever A and Z do and whenever index-enable is raised: in every run of spared steps,
the next step keeps the law if and only if it is spared. -/
theorem counter_iff (h : Reach CounterSys.step Spared .init s) (op : CounterOp) :
    Lawful s op ↔ Spared s op := by
  have hinv : CounterInv s :=
    h.invariant ⟨countInv_init, indexInv_init⟩ fun hs hspared hstep => hs.step hspared hstep
  cases op with
  | update a z => exact update_lawful_iff hinv
  | access period =>
      refine iff_of_true ((lawful_iff_index (hinv.counts.access period) rfl).2 ?_) trivial
      obtain ⟨hindex, hena⟩ := access_keeps hinv.counts.running period
      exact ⟨nofun, fun _ => ⟨hindex, fun _ => hena⟩⟩
  | raise =>
      have hraise : Spared s .raise := trivial
      refine iff_of_true ((lawful_iff_index (hinv.step hraise rfl).counts rfl).2 ?_) trivial
      exact ⟨nofun, fun _ => ⟨rfl, fun hne => absurd rfl hne⟩⟩
  | posScale x =>
      have hscale : Spared s (.posScale x) := trivial
      refine iff_of_true ((lawful_iff_index (hinv.step hscale rfl).counts rfl).2 ?_) trivial
      exact ⟨nofun, fun _ => ⟨rfl, fun _ => rfl⟩⟩

/-- The steps of one call of `capture`. -/
def capture : List CounterOp := List.replicate 5 (.access 1000000)

/-- Anything but `update`. -/
def CounterOp.quiet : CounterOp → Bool
  | .update .. => false
  | _ => true

lemma spared_of_quiet (h : op.quiet = true) : Spared s op := by
  cases op with
  | update a z => cases h
  | _ => trivial

/-- Index-enable is raised and seen, and Z rises. -/
theorem counter_first_edge : ∃ s, run CounterSys.step (fun _ op => op.quiet) .init
    (.raise :: capture) = some s ∧ s.first (.update true true) = true ∧
      Lawful s (.update true true) := by
  have hrun : (run CounterSys.step (fun _ op => op.quiet) .init (.raise :: capture)).map
      (fun s => (s.first (.update true true), s.arming, s.hist.used))
        = some (true, false, false) := by decide
  obtain ⟨s, hs, hafter, hr⟩ := run_map hrun
  obtain ⟨hfirst, hrest⟩ := Prod.mk.inj hafter
  obtain ⟨harming, hused⟩ := Prod.mk.inj hrest
  have hreach : Reach CounterSys.step Spared .init s :=
    hr.mono fun hquiet => spared_of_quiet hquiet
  refine ⟨s, hs, hfirst, (counter_iff hreach _).2 fun _ => ⟨harming, fun hset => ?_⟩⟩
  cases hused.symm.trans hset

/-- Z rises twice before the next capture: the second edge latches too. -/
theorem counter_second_edge : ¬ ∀ (s : CounterSys) (op : CounterOp),
    Reach CounterSys.step (fun _ _ => True) .init s → Lawful s op := by
  intro hall
  have hrun : (run CounterSys.step (fun _ _ => true) .init
      (.raise :: capture ++ [.update true true, .update false false])).map
        (fun s => (s.first (.update true true), s.mem.lastIndexCount,
          (s.update true true).mem.lastIndexCount)) = some (false, 1, 2) := by decide
  obtain ⟨s, -, hafter, hr⟩ := run_map hrun
  obtain ⟨hfirst, hcounts⟩ := Prod.mk.inj hafter
  obtain ⟨hbefore, hbehind⟩ := Prod.mk.inj hcounts
  obtain ⟨s', hstep, hlaw⟩ := hall s (.update true true)
    (hr.mono fun _ => trivial)
  cases hstep
  have hsame := (hlaw.later hfirst).1
  rw [hbefore, hbehind] at hsame
  exact absurd hsame (by decide)

end MachinekitHal.EdgeCounter
