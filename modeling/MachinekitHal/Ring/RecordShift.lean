import MachinekitHal.Ring.RecordInvariant

/-!
`record_shift` and `record_flush_reader` without a preceding `record_read`.

The writer uses `record_write`; the reader may call `record_shift` and
`record_flush_reader` at any time.

* `RecordRing.front`: the offset where the oldest unread record is found, behind
  the wrap mark if one stands at `head`. `RingOk.front_eq`: it is the offset of
  that record, or the tail if there is none.
* `Inv.shift_access`: what an access inside `record_shift` does.
* `record_shift_consumes`: in every run in which the test of `_ring_shift_offset`
  agrees with a test of the offset it was called with (`testsOffset`), a
  `record_shift` consumes exactly the oldest unread record, and with no unread
  record changes nothing and returns `EAGAIN`.
* `record_shift_stale`: `_ring_shift_offset` tests `h->head` also in its call at
  offset `0`, behind a wrap mark. Between the two stores of `tail` in
  `record_write_end` this test passes, and a stale size word at `0` is taken for a
  record.
-/

namespace MachinekitHal

open Bytes Runs

/-! ### The front of the ring -/

/-- The offset at which the next record is found. -/
def RecordRing.front (r : RecordRing) : ℕ :=
  if r.head ≠ r.tail ∧ isNegative (load32 r.buf r.head) = true then 0 else r.head

/-- The offset of the oldest unread record, the tail if there is none. -/
def oldest (tail : ℕ) : List Rec → ℕ
  | [] => tail
  | r :: _ => r.off

/-- The ring finds its oldest unread record. -/
lemma RingOk.front_eq {r : RecordRing} {live : List Rec} (h : RingOk r live) :
    r.front = oldest r.tail live := by
  by_cases hne : r.head = r.tail
  · rw [h.layout.eq_nil hne, RecordRing.front, if_neg (fun hc => hc.1 hne), hne, oldest]
  · rcases h.layout.front hne with ⟨rec, rest, rfl, hoff, hc⟩ | ⟨hm, hrec⟩
    · have hsize := hc.at_off.size
      have hsmall := hc.at_off.small
      rw [hoff] at hsize
      have hneg : isNegative (load32 r.buf r.head) = false := by
        rw [hsize]
        exact decide_eq_false (by omega)
      rw [RecordRing.front, hneg, if_neg (fun hc => Bool.false_ne_true hc.2), oldest, hoff]
    · have hneg : isNegative (load32 r.buf r.head) = true := by rw [hm.2.2]; rfl
      rw [RecordRing.front, if_pos ⟨hne, hneg⟩]
      rcases hrec with ⟨hz, rfl⟩ | ⟨_, rec, rest, rfl, hoff, _⟩
      · rw [oldest, hz]
      · rw [oldest, hoff]

/-! ### The accesses of `record_shift` -/

/-- At most how many accesses are left until the call consumes a record or fails. -/
def RPc.rank : RPc → ℕ
  | .shiftCall => 9
  | .shiftLoad off => if off = 0 then 5 else 8
  | .shiftTest off _ => if off = 0 then 4 else 7
  | .shiftSize off => if off = 0 then 3 else 6
  | .shiftGen _ => 2
  | .shiftHead _ => 1
  | _ => 0

/-- `record_shift` goes on without a change to the ring, or returns `EAGAIN`. -/
structure Unchanged (s t : Sys) : Prop where
  ring : t.ring = s.ring
  shifted : t.shifted = s.shifted
  result : t.rpc.inShift = true ∨ t.rpc = .idle ∧ t.rret = some .EAGAIN

/-- Inside a call the next access is enabled. -/
lemma Sys.exists_readerStep {s : Sys} (h : s.rpc.inShift = true) : ∃ t, s.step .r = some t := by
  simp only [Sys.step, Sys.readerStep]
  split <;> try split_ifs
  all_goals first | exact ⟨_, rfl⟩ | simp_all [RPc.inShift]

namespace Inv

variable {s t : Sys}

/-- No wrap mark stands at the start of the buffer. -/
lemma not_mark_zero {r : RecordRing} {live : List Rec} (h : RingOk r live)
    (hready : Ready r 0) : isNegative (load32 r.buf 0) = false := by
  by_contra hneg
  have hneg : isNegative (load32 r.buf 0) = true := by simpa using hneg
  rcases hready with ⟨hz, hne⟩ | ⟨_, hm, htail⟩
  · -- `head` stands at the start, and then the records lie straight
    rcases h.layout.front hne with ⟨rec, rest, _, hoff, hc⟩ | ⟨hm, _⟩
    · exact absurd hneg (by rw [hz, ← hoff, hc.at_off.not_negative]; exact Bool.false_ne_true)
    · have := hm.1
      omega
  · rcases h.layout.front (by have := hm.1; omega) with ⟨rec, rest, _, hoff, hc⟩ | ⟨_, hrec⟩
    · have hmark := hc.at_off.not_negative
      rw [hoff, hm.2.2] at hmark
      exact absurd hmark (by decide)
    · rcases hrec with ⟨hz, _⟩ | ⟨_, rec, rest, _, hoff, hc⟩
      · exact htail hz
      · exact absurd hneg (by rw [← hoff, hc.at_off.not_negative]; exact Bool.false_ne_true)

/-- A record to consume is an unread one. -/
lemma ne_nil_of_consumes {r : RecordRing} {live : List Rec} {new : ℕ}
    (h : Consumes r live new) : live ≠ [] := by
  obtain ⟨rec, rest, rfl, _⟩ := h
  exact List.cons_ne_nil _ _

/-- An access inside `record_shift` leads nearer to its end; with no unread record it
changes nothing. -/
lemma shift_access (h : Inv s) (hst : s.stale = false) (hpc : s.rpc.inShift = true)
    (hs : s.step .r = some t) :
    (t.rpc.rank < s.rpc.rank ∨ t.shifted = s.shifted + 1) ∧
      (s.unread = [] → t.rpc.rank < s.rpc.rank ∧ Unchanged s t) := by
  have hreader := h.reader hst
  simp only [Sys.step, Sys.readerStep, Sys.failRead] at hs
  split at hs
  · cases hs
  · next hp => rw [hp] at hpc; cases hpc
  · next hp => rw [hp] at hpc; cases hpc
  · next hp =>
    cases hs
    have hrank : RPc.rank (.shiftLoad s.ring.head) < RPc.rank .shiftCall := by
      simp only [RPc.rank]
      split <;> omega
    rw [hp]
    exact ⟨Or.inl hrank, fun _ => ⟨hrank, rfl, rfl, Or.inl rfl⟩⟩
  · next off hp =>
    cases hs
    have hrank : RPc.rank (.shiftTest off s.ring.head) < RPc.rank (.shiftLoad off) := by
      simp only [RPc.rank]
      split <;> omega
    rw [hp]
    exact ⟨Or.inl hrank, fun _ => ⟨hrank, rfl, rfl, Or.inl rfl⟩⟩
  · next off hd hp =>
    rw [hp]
    split_ifs at hs <;> cases hs
    · have hrank : RPc.rank .idle < RPc.rank (.shiftTest off hd) := by
        simp only [RPc.rank]
        split <;> omega
      exact ⟨Or.inl hrank, fun _ => ⟨hrank, rfl, rfl, Or.inr ⟨rfl, rfl⟩⟩⟩
    · have hrank : RPc.rank (.shiftSize off) < RPc.rank (.shiftTest off hd) := by
        simp only [RPc.rank]
        split <;> omega
      exact ⟨Or.inl hrank, fun _ => ⟨hrank, rfl, rfl, Or.inl rfl⟩⟩
  · next off hp =>
    rw [hp] at hreader ⊢
    split_ifs at hs with hneg hlarge <;> cases hs
    · have hoff : off ≠ 0 := by
        rintro rfl
        rw [not_mark_zero h.ring hreader] at hneg
        cases hneg
      have hrank : RPc.rank (.shiftLoad 0) < RPc.rank (.shiftSize off) := by
        simp only [RPc.rank, if_neg hoff]
        decide
      exact ⟨Or.inl hrank, fun _ => ⟨hrank, rfl, rfl, Or.inl rfl⟩⟩
    all_goals
      have hcons := consumes_of_ready h.ring hreader (by simpa using hneg)
      refine ⟨Or.inl ?_, fun hnil => absurd hnil (ne_nil_of_consumes hcons)⟩
      simp only [RPc.rank]
      split <;> omega
  · next new hp =>
    rw [hp] at hreader ⊢
    cases hs
    exact ⟨Or.inl Nat.one_lt_two, fun hnil => absurd hnil (ne_nil_of_consumes hreader)⟩
  · next new hp =>
    rw [hp] at hreader
    cases hs
    exact ⟨Or.inr rfl, fun hnil => absurd hnil (ne_nil_of_consumes hreader)⟩

end Inv

/-! ### The property -/

/-- The writer does not call `record_flush`. -/
def noFlush : Act → Bool
  | .wflush => false
  | _ => true

/-- The test of `_ring_shift_offset` does not let pass an offset that is the tail. -/
def testsOffset (s : Sys) : Act → Bool
  | .r =>
    match s.rpc with
    | .shiftTest off h => off != s.ring.tail || h == s.ring.tail
    | _ => true
  | _ => true

/-- `record_shift` consumes one record, and nothing where there is none. -/
structure ShiftHolds (s : Sys) : Prop where
  /-- `head` does not move past the last committed record -/
  bound : s.shifted ≤ s.log.length
  /-- `head` denotes the oldest unread record, or the tail -/
  front : s.ring.front = oldest s.ring.tail s.unread
  /-- a call returns, unless it goes on with the next record -/
  returns : s.rpc.inShift = true → ∃ t, s.step .r = some t ∧
    (t.rpc.rank < s.rpc.rank ∨ t.shifted = s.shifted + 1)
  /-- a `record_shift` that returns `0` consumes exactly the oldest unread record -/
  consumes : ∀ new, s.rpc = .shiftHead new → ∀ t, s.step .r = some t →
    t.rret = none ∧ (∃ rec, s.unread = rec :: t.unread) ∧
      t.ring.front = oldest t.ring.tail t.unread
  /-- with no unread record it changes nothing, and returns only with `EAGAIN` -/
  empty : s.rpc.inShift = true → s.unread = [] → ∃ t, s.step .r = some t ∧
    t.rpc.rank < s.rpc.rank ∧ Unchanged s t

/-- The invariant of the runs without `record_flush`. -/
structure ShiftInv (s : Sys) : Prop where
  base : Inv s
  fresh : s.stale = false
  outside : s.wpc.inFlush = false

namespace ShiftInv

variable {s t : Sys}

/-- What one access preserves. -/
theorem step (h : ShiftInv s) {a : Act} (hfl : noFlush a = true) (hsize : sizeFits a = true)
    (htest : testsOffset s a = true) (hs : s.step a = some t) : ShiftInv t := by
  have hok : StepOk s a :=
    { size := by
        rintro sz rfl
        simpa [sizeFits] using hsize
      window := by
        rintro rfl off hd hpc _ hoff
        simpa [testsOffset, hpc, hoff] using htest
      fresh := fun _ _ _ => h.fresh }
  exact ⟨h.base.step hok hs, Sys.stale_of_step hs h.outside h.fresh,
    Sys.inFlush_of_step (by rintro rfl; cases hfl) hs h.outside⟩

/-- The store of `head` meets the conditions of a step. -/
lemma shiftHead (h : ShiftInv s) {new : ℕ} (hpc : s.rpc = .shiftHead new)
    (hs : s.step .r = some t) : ShiftInv t :=
  h.step rfl rfl (by simp [testsOffset, hpc]) hs

/-- The invariant says all of it. -/
theorem holds (h : ShiftInv s) : ShiftHolds s where
  bound := h.base.shifted_le
  front := h.base.ring.front_eq
  returns := by
    intro hpc
    obtain ⟨t, hs⟩ := Sys.exists_readerStep hpc
    exact ⟨t, hs, (h.base.shift_access h.fresh hpc hs).1⟩
  consumes := by
    intro new hpc t hs
    have hnext := (h.shiftHead hpc hs).base.ring.front_eq
    have hcons := h.base.reader h.fresh
    rw [hpc] at hcons
    obtain ⟨rec, rest, hlive, _⟩ := hcons
    simp only [Sys.step, Sys.readerStep, hpc] at hs
    cases hs
    have hrest : s.log.drop (s.shifted + 1) = rest := (Sys.unread_eq_cons hlive).2.2.1
    exact ⟨rfl, ⟨rec, by rw [hlive, ← hrest]; rfl⟩, hnext⟩
  empty := by
    intro hpc hnil
    obtain ⟨t, hs⟩ := Sys.exists_readerStep hpc
    exact ⟨t, hs, (h.base.shift_access h.fresh hpc hs).2 hnil⟩

end ShiftInv

/-- The runs of a writer that only writes and a reader that shifts at any time. -/
abbrev ShiftReach (ok : Sys → Act → Bool) (size : ℕ) (buf : Mem) : Sys → Prop :=
  Reach Sys.step (fun s a => (noFlush a && ok s a) = true) (.init (.fresh size buf))

/-- `record_shift` consumes one record, and nothing where there is none, in every run in
which no requested size wraps and the test of `_ring_shift_offset` never lets pass an
offset that is the tail. -/
theorem record_shift_consumes {size : ℕ} {buf : Mem} {s : Sys} (hmod : size % 64 = 0)
    (hpos : 0 < size) (hlt : size < 2147483648)
    (hrun : ShiftReach (fun s a => sizeFits a && testsOffset s a) size buf s) :
    ShiftHolds s := by
  have hinv : ShiftInv s := by
    refine hrun.invariant ⟨Inv.fresh hmod hpos hlt, rfl, rfl⟩ fun {s a t} h hok hs => ?_
    simp only [Bool.and_eq_true] at hok
    exact h.step hok.1 hok.2.1 hok.2.2 hs
  exact hinv.holds

/-- A record of `n` bytes is written, its bytes as they stand. -/
def writeRecord (n : ℕ) : List Act := [.wbegin n, .w, .wend n, .w, .w]

/-- A record of `n` bytes is written at the start of the buffer. -/
def writeFirst (n : ℕ) : List Act := [.wbegin n, .w, .wend n, .w, .w, .w, .w]

/-- A record is shifted without a wrap mark in front of it. -/
def shiftRecord : List Act := [.rshift, .r, .r, .r, .r, .r, .r]

/-- Two records are written and shifted. -/
def twoRecords : List Act := writeFirst 4 ++ writeRecord 28 ++ shiftRecord ++ shiftRecord

/-- `head` is behind the second record. -/
theorem record_shift_consumes_two :
    ∃ s, run Sys.step (fun s a => noFlush a && (sizeFits a && testsOffset s a))
        (.init (.fresh 64 fun _ => 0)) twoRecords = some s ∧ s.ring.head = 40 ∧ ShiftHolds s := by
  have hrun : (run Sys.step (fun s a => noFlush a && (sizeFits a && testsOffset s a))
      (.init (.fresh 64 fun _ => 0)) twoRecords).map (fun s => s.ring.head) = some 40 := by
    decide
  obtain ⟨s, hs, hhead, hreach⟩ := run_map hrun
  exact ⟨s, hs, hhead, record_shift_consumes (by decide) (by decide) (by decide) hreach⟩

/-- The next record, of 28 bytes, wraps, and after its store of `tail = 0` the reader
shifts: it finds the size word of the first record, long consumed, at the start of the
buffer. -/
def wrapThenShift : List Act :=
  [.wbegin 28, .w, .w, .wend 28, .w, .w, .rshift, .r, .r, .r, .r, .r, .r, .r, .r]

/-- `head` moves with nothing unread. -/
theorem record_shift_stale :
    ∃ s, ShiftReach (fun _ a => sizeFits a) 64 (fun _ => 0) s ∧ ¬ ShiftHolds s := by
  have hrun : (run Sys.step (fun _ a => noFlush a && sizeFits a)
      (.init (.fresh 64 fun _ => 0)) (twoRecords ++ wrapThenShift)).map
      (fun s => (s.rpc.inShift, s.unread, s.ring.head, (s.step .r).map fun t => t.ring.head))
      = some (true, [], 40, some 8) := by decide
  obtain ⟨s, -, hdata, hreach⟩ := run_map hrun
  refine ⟨s, hreach, fun h => ?_⟩
  simp only [Prod.mk.injEq] at hdata
  obtain ⟨hpc, hnil, hhead, hnext⟩ := hdata
  -- nothing is unread, and yet the next access moves `head` from 40 to 8
  obtain ⟨t, ht, _, hun⟩ := h.empty hpc hnil
  rw [ht, Option.map_some, hun.ring, hhead] at hnext
  cases hnext

end MachinekitHal
