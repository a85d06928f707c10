import MachinekitHal.Ring.RecordShift

/-!
`record_flush` called by the writer while the reader reads and shifts.

* `headFresh`: `head` was not moved by `record_flush` since the reader's call
  loaded it.
* `record_flush_interleaved`: in every run in which this holds where it matters
  (and `testsOffset`, `sizeFits`), `head` denotes the oldest unread record, is
  never moved back, and no record is delivered twice.
* `record_flush_unsafe`: without it, the store of `record_shift` moves `head` back
  to a record flushed before, and `record_read` finds a record that `head` reaches
  only later.
-/

namespace MachinekitHal

open Bytes Runs

/-- `record_flush` has not moved `head` since the reader's call loaded it, when the reader
is about to load the size word at that offset, or to store a `head` computed from it. -/
def headFresh (s : Sys) : Act → Bool
  | .r =>
    match s.rpc with
    | .readSize _ => !s.stale
    | .shiftHead _ => !s.stale
    | _ => true
  | _ => true

/-- The committed records that were delivered to the reader, by their place. -/
def Sys.deliveries (s : Sys) : List ℕ := s.obtained.filterMap Got.seq

/-- `head` is never moved back, and no record is delivered twice. -/
structure FlushHolds (s : Sys) : Prop where
  bound : s.shifted ≤ s.log.length
  /-- `head` denotes the record after those consumed or flushed, or the tail -/
  front : s.ring.front = oldest s.ring.tail s.unread
  /-- no step takes a record back that was consumed or flushed -/
  forward : ∀ a t, s.step a = some t → s.shifted ≤ t.shifted
  /-- what was delivered are committed records -/
  delivered : ∀ g ∈ s.obtained, ∃ i, g.seq = some i ∧ i < s.shifted
  /-- each at most once, and in order -/
  once : s.deliveries.Pairwise (· < ·)

/-- What is known of the record read: it was not delivered before. -/
def Fresh (s : Sys) (g : Got) : Prop :=
  ∃ i, g.seq = some i ∧ i ≤ s.shifted ∧ ∀ j ∈ s.deliveries, j < i

/-- The invariant of the runs with `record_flush`. -/
structure FlushInv (s : Sys) : Prop where
  base : Inv s
  got : ∀ g, s.got = some g → Fresh s g
  delivered : ∀ g ∈ s.obtained, ∃ i, g.seq = some i ∧ i < s.shifted
  once : s.deliveries.Pairwise (· < ·)

namespace FlushInv

variable {s t : Sys}

lemma lt_shifted (h : FlushInv s) {j : ℕ} (hj : j ∈ s.deliveries) : j < s.shifted := by
  obtain ⟨g, hg, hseq⟩ := List.mem_filterMap.mp hj
  obtain ⟨i, hi, hlt⟩ := h.delivered g hg
  rw [hi] at hseq
  cases hseq
  exact hlt

/-- A step that delivers nothing. -/
lemma keep (h : FlushInv s) (hbase : Inv t) (hobt : t.obtained = s.obtained)
    (hle : s.shifted ≤ t.shifted) (hgot : ∀ g, t.got = some g → Fresh s g) : FlushInv t := by
  refine ⟨hbase, fun g hg => ?_, fun g hg => ?_, ?_⟩
  · obtain ⟨i, hseq, hi, hlt⟩ := hgot g hg
    exact ⟨i, hseq, hi.trans hle, by rw [Sys.deliveries, hobt]; exact hlt⟩
  · rw [hobt] at hg
    obtain ⟨i, hseq, hi⟩ := h.delivered g hg
    exact ⟨i, hseq, hi.trans_le hle⟩
  · rw [Sys.deliveries, hobt]
    exact h.once

/-- The record `record_read` finds was not delivered before. -/
lemma fresh_of_ready (h : FlushInv s) {off v : ℕ} (hready : Ready s.ring off)
    (hneg : isNegative (load32 s.ring.buf off) = false) :
    Fresh s ⟨lastAt s.log off, v, off + 4, []⟩ := by
  rcases Inv.ready_cases h.base.ring hready with ⟨rec, rest, hlive, rfl, _⟩ | ⟨hmark, _⟩
  · have hlog := (Sys.unread_eq_cons hlive).2.2.2
    have hlast : lastAt s.log rec.off = some s.shifted := by
      rw [hlog, lastAt_append fun r' hr' => h.base.ring.layout.off_ne hlive hr',
        List.length_take, Nat.min_eq_left h.base.shifted_le]
    exact ⟨s.shifted, hlast, le_rfl, fun j hj => h.lt_shifted hj⟩
  · rw [hmark] at hneg
    exact absurd hneg (by decide)

/-- The store of `head` by `record_shift` delivers the record read. -/
lemma deliver (h : FlushInv s) (hbase : Inv t) (hgot : t.got = none)
    (hshift : t.shifted = s.shifted + 1) (hobt : t.obtained = s.obtained ++ s.got.toList) :
    FlushInv t := by
  refine ⟨hbase, fun g hg => ?_, fun g hg => ?_, ?_⟩
  · rw [hgot] at hg
    cases hg
  · rw [hobt] at hg
    rcases List.mem_append.mp hg with hg | hg
    · obtain ⟨i, hseq, hi⟩ := h.delivered g hg
      exact ⟨i, hseq, by omega⟩
    · obtain ⟨i, hseq, hi, _⟩ := h.got g (by simpa using hg)
      exact ⟨i, hseq, by omega⟩
  · rw [Sys.deliveries, hobt, List.filterMap_append, List.pairwise_append]
    refine ⟨h.once, ?_, fun j hj i hi => ?_⟩
    · cases s.got with
      | none => exact .nil
      | some g => cases hg : g.seq <;> simp [hg]
    · obtain ⟨g, hg, hseq⟩ := List.mem_filterMap.mp hi
      obtain ⟨i', hseq', _, hlt⟩ := h.got g (by simpa using hg)
      rw [hseq'] at hseq
      cases hseq
      exact hlt j hj

/-- The next access of the reader. -/
lemma readerStep (h : FlushInv s) (hbase : Inv t) (hfresh : headFresh s .r = true)
    (hs : s.readerStep = some t) : FlushInv t := by
  simp only [Sys.readerStep, Sys.failRead] at hs
  split at hs
  · cases hs
  · split_ifs at hs <;> cases hs <;>
      exact h.keep hbase rfl le_rfl h.got
  · next off hpc =>
    have hready := h.base.reader (by simpa [headFresh, hpc] using hfresh)
    rw [hpc] at hready
    split_ifs at hs with hneg <;> cases hs
    · exact h.keep hbase rfl le_rfl h.got
    · refine h.keep hbase rfl le_rfl fun g hg => ?_
      cases hg
      exact h.fresh_of_ready hready (by simpa using hneg)
  · cases hs
    exact h.keep hbase rfl le_rfl h.got
  · cases hs
    exact h.keep hbase rfl le_rfl h.got
  · split_ifs at hs <;> cases hs <;>
      exact h.keep hbase rfl le_rfl h.got
  · split_ifs at hs <;> cases hs <;>
      exact h.keep hbase rfl le_rfl h.got
  · cases hs
    exact h.keep hbase rfl le_rfl h.got
  · cases hs
    exact h.deliver hbase rfl rfl rfl

/-- What one access preserves. -/
theorem step (h : FlushInv s) {a : Act} (hsize : sizeFits a = true)
    (htest : testsOffset s a = true) (hfresh : headFresh s a = true)
    (hs : s.step a = some t) : FlushInv t := by
  have hok : StepOk s a :=
    { size := by
        rintro sz rfl
        simpa [sizeFits] using hsize
      window := by
        rintro rfl off hd hpc _ hoff
        simpa [testsOffset, hpc, hoff] using htest
      fresh := by
        rintro rfl new hpc
        simpa [headFresh, hpc] using hfresh }
  have hbase := h.base.step hok hs
  cases ha : a.isWriter with
  | true =>
    rcases h.base.writer_cases ha hok.size hs with hm | ⟨_, rfl⟩
    · refine h.keep hbase hm.reader.obtained hm.shifted.ge fun g hg => h.got g ?_
      rw [← hm.reader.got, hg]
    · exact h.keep hbase rfl h.base.shifted_le h.got
  | false =>
    cases a with
    | rread =>
      simp only [Sys.step] at hs
      split_ifs at hs
      cases hs
      exact h.keep hbase rfl le_rfl (by intro g hg; cases hg)
    | rcopy =>
      simp only [Sys.step] at hs
      split at hs
      · next g hg =>
        split_ifs at hs
        cases hs
        refine h.keep hbase rfl le_rfl fun g' hg' => ?_
        cases hg'
        exact h.got g hg
      · cases hs
    | rshift | rflush =>
      simp only [Sys.step] at hs
      split_ifs at hs
      cases hs
      exact h.keep hbase rfl le_rfl h.got
    | r => exact h.readerStep hbase hfresh hs
    | wbegin | wstore | wend | wflush | w => cases ha

/-- No step takes a record back. -/
lemma shifted_le (h : FlushInv s) {a : Act} (hs : s.step a = some t) :
    s.shifted ≤ t.shifted := by
  have hle := h.base.shifted_le
  cases a with
  | w =>
    simp only [Sys.step, Sys.writerStep] at hs
    split at hs <;> try split_ifs at hs
    all_goals cases hs
    all_goals first | exact le_rfl | exact hle
  | r =>
    simp only [Sys.step, Sys.readerStep, Sys.failRead] at hs
    split at hs <;> try split_ifs at hs
    all_goals cases hs
    all_goals first | exact le_rfl | exact Nat.le_succ _
  | _ =>
    simp only [Sys.step] at hs
    try split at hs
    all_goals try split_ifs at hs
    all_goals cases hs
    all_goals exact le_rfl

/-- The invariant says all of it. -/
theorem holds (h : FlushInv s) : FlushHolds s where
  bound := h.base.shifted_le
  front := h.base.ring.front_eq
  forward := fun _ _ hs => h.shifted_le hs
  delivered := h.delivered
  once := h.once

end FlushInv

/-- The runs of a writer that writes and flushes and a reader that reads and shifts. -/
abbrev FlushReach (ok : Sys → Act → Bool) (size : ℕ) (buf : Mem) : Sys → Prop :=
  Reach Sys.step (fun s a => ok s a = true) (.init (.fresh size buf))

/-- `head` is never moved back and no record is delivered twice, in every run in which no
requested size wraps, the test of `_ring_shift_offset` never lets pass an offset that is
the tail, and `record_flush` does not move `head` inside a call of the reader that goes on
with the `head` it loaded. -/
theorem record_flush_interleaved {size : ℕ} {buf : Mem} {s : Sys} (hmod : size % 64 = 0)
    (hpos : 0 < size) (hlt : size < 2147483648)
    (hrun : FlushReach (fun s a => sizeFits a && testsOffset s a && headFresh s a) size buf s) :
    FlushHolds s := by
  have hinv : FlushInv s := by
    refine hrun.invariant ⟨Inv.fresh hmod hpos hlt, (fun _ hg => by cases hg),
      (fun _ hg => by cases hg), .nil⟩ fun {s a t} h hok hs => ?_
    simp only [Bool.and_eq_true] at hok
    exact h.step hok.1.1 hok.1.2 hok.2 hs
  exact hinv.holds

/-- The writer flushes. -/
def flush : List Act := [.wflush, .w, .w, .w]

/-- A record is read and shifted. -/
def readRecord : List Act := [.rread, .r, .r, .rshift, .r, .r, .r, .r, .r, .r]

/-- A record is flushed, and the next one read and shifted. -/
def flushThenRead : List Act := writeFirst 1 ++ flush ++ writeRecord 4 ++ readRecord

/-- Only the second record is delivered. -/
theorem record_flush_interleaved_one :
    ∃ s, run Sys.step (fun s a => sizeFits a && testsOffset s a && headFresh s a)
        (.init (.fresh 64 fun _ => 0)) flushThenRead = some s ∧ s.deliveries = [1] ∧
      FlushHolds s := by
  have hrun : (run Sys.step (fun s a => sizeFits a && testsOffset s a && headFresh s a)
      (.init (.fresh 64 fun _ => 0)) flushThenRead).map Sys.deliveries = some [1] := by
    decide
  obtain ⟨s, hs, hdel, hreach⟩ := run_map hrun
  exact ⟨s, hs, hdel, record_flush_interleaved (by decide) (by decide) (by decide) hreach⟩

/-- The reader is about to store `head = 8` when the writer flushes all records. -/
def flushInShift : List Act := [.rshift, .r, .r, .r, .r, .r, .wflush, .w, .w, .w, .r]

/-- The reader has loaded `head = 0` when the writer flushes. -/
def flushInRead : List Act := [.rread, .wflush, .w, .w, .w]

/-- `record_read` goes on with the `head` it loaded, and the reader shifts. -/
def resumeRead : List Act := [.r, .r, .rshift, .r, .r, .r, .r, .r, .r]

/-- The writer flushes and writes until a record stands at `0` again, the third one behind
`head`. The reader reads it now, and a second time when `head` gets there. -/
def readTwice : List Act :=
  writeFirst 12 ++ flushInRead ++ writeRecord 36 ++ writeRecord 4 ++ writeFirst 4 ++
    resumeRead ++ readRecord ++ readRecord

/-- Without the conditions on the steps both fail. -/
theorem record_flush_unsafe :
    (∃ s, FlushReach (fun _ a => sizeFits a) 64 (fun _ => 0) s ∧
      s.ring.front ≠ oldest s.ring.tail s.unread) ∧
    ∃ s, FlushReach (fun _ a => sizeFits a) 64 (fun _ => 0) s ∧ ¬ s.deliveries.Nodup := by
  constructor
  · have hrun : (run Sys.step (fun _ a => sizeFits a) (.init (.fresh 64 fun _ => 0))
        (writeFirst 1 ++ writeRecord 1 ++ writeRecord 1 ++ flushInShift)).map
          (fun s => (s.ring.front, oldest s.ring.tail s.unread)) = some (8, 24) := by decide
    obtain ⟨s, -, hdata, hreach⟩ := run_map hrun
    obtain ⟨hfront, hold⟩ := Prod.mk.inj hdata
    exact ⟨s, hreach, by rw [hfront, hold]; decide⟩
  · have hrun : (run Sys.step (fun _ a => sizeFits a) (.init (.fresh 64 fun _ => 0))
        readTwice).map Sys.deliveries = some [3, 2, 3] := by decide
    obtain ⟨s, -, hdel, hreach⟩ := run_map hrun
    exact ⟨s, hreach, by rw [hdel]; decide⟩

end MachinekitHal
