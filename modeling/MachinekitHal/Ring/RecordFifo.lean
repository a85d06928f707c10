import MachinekitHal.Ring.RecordInvariant

/-!
Record rings as single-producer single-consumer queues.

The writer uses `record_write_begin`, `record_write_end` and `record_write`; the
reader calls `record_shift` only after a `record_read` that returned `0` (`spsc`).

* `FifoHolds`: what the reader obtained is a prefix of what was committed; nothing
  committed is left when `record_read` finds the ring empty; the writer does not
  store into a record that is committed and not yet shifted.
* `FifoInv`: the invariant of `RecordInvariant.lean` together with what the
  reader knows of the record it read. Under `spsc` the ring is known to be
  non-empty inside `record_shift`, so that the test at a wrap mark never passes
  too early.
* `record_fifo`: `FifoHolds` in every run in which no requested size wraps
  (`sizeFits`); `record_fifo_wrappedRequest`: with sizes from `2^32 - 11` on,
  `record_write_begin` takes the request for an empty one and records are lost.
-/

namespace MachinekitHal

open Bytes Word Runs

/-! ### The runs -/

/-- No `record_flush`, no `record_flush_reader`, and `record_shift` only after a
`record_read` that returned `0`. -/
def spsc (s : Sys) : Act → Bool
  | .wflush => false
  | .rflush => false
  | .rshift => s.got.isSome
  | _ => true

/-- The reader was given the record `r`, as far as it loaded its bytes. -/
def Delivers (g : Got) (r : Rec) : Prop := g.size = r.bytes.length ∧ g.bytes <+: r.bytes

/-- Records whose bytes were all loaded were delivered whole. -/
lemma map_eq_of_delivers {gs : List Got} {rs : List Rec} (h : List.Forall₂ Delivers gs rs)
    (hall : ∀ g ∈ gs, g.bytes.length = g.size) :
    gs.map (fun g => (g.size, g.bytes)) = rs.map fun r => (r.bytes.length, r.bytes) := by
  induction h with
  | nil => rfl
  | @cons g r gs rs hd _ ih =>
    have hlen : g.bytes.length = r.bytes.length := by
      rw [hall g (.head _), hd.1]
    have hbytes : g.bytes = r.bytes := hd.2.eq_of_length hlen
    rw [List.map_cons, List.map_cons, ih fun g' hg' => hall g' (.tail _ hg'),
      hd.1, hbytes]

/-- The ring behaves as a queue. -/
structure FifoHolds (s : Sys) : Prop where
  /-- nothing is lost, duplicated, reordered or torn -/
  delivered : List.Forall₂ Delivers s.obtained (s.log.take s.obtained.length)
  /-- in particular for a reader that loaded all bytes before each `record_shift` -/
  obtained : (∀ g ∈ s.obtained, g.bytes.length = g.size) →
    s.obtained.map (fun g => (g.size, g.bytes))
      <+: s.log.map fun r => (r.bytes.length, r.bytes)
  /-- `record_read` finds the ring empty only when everything was obtained -/
  empty : ∀ off, s.rpc = .readTail off → off = s.ring.tail →
    s.obtained.length = s.log.length
  /-- the writer stores into no record that is committed and not yet shifted -/
  intact : ∀ a t r x, s.step a = some t → r ∈ s.unread → r.off ≤ x →
    x < r.off + 4 + r.bytes.length → ¬ s.WriterStores a x

/-! ### The stores of the writer -/

/-- Under the invariant the writer stores outside the used region, and inside the
buffer. -/
lemma Inv.writerStores {s t : Sys} (h : Inv s) {a : Act} {x : ℕ} (hs : s.step a = some t)
    (hx : s.WriterStores a x) :
    ¬ Used s.ring.size s.ring.head s.ring.tail x ∧ x < s.ring.size := by
  have hw := h.writer
  have htail := h.ring.layout.tail_lt
  have htail8 := h.ring.tail_mod
  have hsize := h.ring.size_mod
  have hhead := h.ring.layout.head_lt
  cases a with
  | wstore i b =>
    simp only [Sys.step] at hs
    simp only [Sys.WriterStores] at hx
    split at hs
    · next data sz hpc =>
      split_ifs at hs with hi
      rw [hpc] at hw hx
      obtain ⟨hsz, hbegun⟩ := hw
      have husage := recordUsage_small hsz
      rcases hbegun with ⟨rfl, hr⟩ | ⟨rfl, hr⟩
      · exact ⟨hr.not_used (by omega) (by omega), by have := hr.1; omega⟩
      · exact ⟨hr.not_used (by omega), by have := hr.2; omega⟩
    · cases hs
  | w =>
    cases hpc : s.wpc with
    | mark c p =>
      rw [hpc] at hw
      simp only [Sys.WriterStores, hpc] at hx
      have husage := recordUsage_small hw.1
      refine ⟨?_, by omega⟩
      rcases hw.2.1 with ⟨_, hr⟩ | ⟨_, hr⟩
      · exact hr.not_used (by omega) (by omega)
      · exact hr.not_used (Or.inr (by omega))
    | sizeWord c p =>
      rw [hpc] at hw
      simp only [Sys.WriterStores, hpc] at hx
      have husage := recordUsage_small hw.1
      exact ⟨hw.2.1.not_used (by omega) (by omega), by omega⟩
    | _ => simp [Sys.WriterStores, hpc] at hx
  | _ => simp [Sys.WriterStores] at hx

/-! ### The invariant -/

/-- What was read is the oldest unread record, as far as its bytes were loaded. -/
def GotOk (live : List Rec) (g : Got) : Prop :=
  ∃ rec rest, live = rec :: rest ∧ g.size = rec.bytes.length ∧ g.data = rec.off + 4 ∧
    g.bytes = rec.bytes.take g.bytes.length

/-- The invariant of the runs under `spsc`. -/
structure FifoInv (s : Sys) : Prop where
  base : Inv s
  fresh : s.stale = false
  noFlush : s.wpc.inFlush = false
  got : ∀ g, s.got = some g → GotOk s.unread g
  shifting : s.rpc.inShift = true → ∃ g, s.got = some g
  single : s.flushing = none
  delivered : List.Forall₂ Delivers s.obtained (s.log.take s.shifted)

namespace FifoInv

variable {s t : Sys}

lemma init {size : ℕ} {buf : Mem} (hmod : size % 64 = 0) (hpos : 0 < size)
    (hlt : size < 2147483648) : FifoInv (.init (.fresh size buf)) where
  base := Inv.init (show size % 8 = 0 by omega) hpos hlt rfl rfl
  fresh := rfl
  noFlush := rfl
  got := by intro g hg; cases hg
  shifting := by intro h; cases h
  single := rfl
  delivered := .nil

/-- Inside `record_shift` the ring is not empty. -/
lemma unread_ne_nil (h : FifoInv s) (hpc : s.rpc.inShift = true) : s.unread ≠ [] := by
  obtain ⟨g, hg⟩ := h.shifting hpc
  obtain ⟨rec, rest, hlive, _⟩ := h.got g hg
  rw [hlive]
  simp

/-- Under `spsc` the test of `_ring_shift_offset` never passes at the tail. -/
lemma stepOk (h : FifoInv s) {a : Act} (hsize : sizeFits a = true) : StepOk s a where
  size := by
    rintro sz rfl
    simpa [sizeFits] using hsize
  window := by
    rintro rfl off hd hpc hst rfl
    have hne := h.unread_ne_nil (by rw [hpc]; rfl)
    have hshift := h.base.reader hst
    rw [hpc] at hshift
    obtain ⟨rfl, hstart⟩ := hshift
    rcases hstart with hoff | ⟨hz, hm⟩
    · exact hoff.symm
    · -- at a mark with `tail = 0` nothing is unread
      exact absurd (h.base.ring.layout.eq_nil_of_atMark hm hz) hne
  fresh := fun _ _ _ => h.fresh

/-- An access of the writer keeps the invariant. -/
lemma writer (h : FifoInv s) (hbase : Inv t) (hm : WriterMove s t)
    (hfl : t.wpc.inFlush = false) : FifoInv t := by
  obtain ⟨more, hunread⟩ := hm.unread h.base.shifted_le
  obtain ⟨more', hlog⟩ := hm.log
  refine ⟨hbase, by rw [hm.reader.stale, h.fresh], hfl, ?_, ?_, by
    rw [hm.reader.flushing, h.single], ?_⟩
  · intro g hg
    rw [hm.reader.got] at hg
    obtain ⟨rec, rest, hlive, hg'⟩ := h.got g hg
    exact ⟨rec, rest ++ more, by rw [hunread, hlive]; rfl, hg'⟩
  · rw [hm.reader.rpc, hm.reader.got]
    exact h.shifting
  · rw [hm.reader.obtained, hm.shifted, hlog, List.take_append_of_le_length h.base.shifted_le]
    exact h.delivered

/-- The load of the size word by `record_read`. -/
lemma gotOk_of_ready (h : FifoInv s) {off : ℕ} (hpc : s.rpc = .readSize off)
    (hneg : isNegative (load32 s.ring.buf off) = false) :
    GotOk s.unread ⟨lastAt s.log off, load32 s.ring.buf off, off + 4, []⟩ := by
  have hready := h.base.reader h.fresh
  rw [hpc] at hready
  rcases Inv.ready_cases h.base.ring hready with ⟨rec, rest, hlive, hoff, hc⟩ | ⟨hmark, _⟩
  · refine ⟨rec, rest, hlive, ?_, by rw [hoff], by simp⟩
    rw [← hoff, hc.at_off.size]
  · rw [hmark] at hneg
    exact absurd hneg (by decide)

/-- The load of a payload byte. -/
lemma gotOk_copy (h : FifoInv s) {g : Got} (hg : s.got = some g)
    (hlt : g.bytes.length < g.size) :
    GotOk s.unread { g with bytes := g.bytes ++ [s.ring.buf (g.data + g.bytes.length)] } := by
  obtain ⟨rec, rest, hlive, hsize, hdata, hbytes⟩ := h.got g hg
  refine ⟨rec, rest, hlive, hsize, hdata, ?_⟩
  have hmem : rec ∈ s.unread := by rw [hlive]; exact (.head _)
  have hat : rec.At s.ring.buf := h.base.ring.layout.at_of_mem hmem
  have hlt' : g.bytes.length < rec.bytes.length := by omega
  have hbyte : s.ring.buf (g.data + g.bytes.length) = rec.bytes[g.bytes.length] := by
    have := getElem?_loadBytes s.ring.buf (rec.off + 4) rec.bytes.length g.bytes.length
    rw [hat.data, if_pos hlt', List.getElem?_eq_getElem hlt'] at this
    rw [hdata]
    exact (Option.some.inj this).symm
  simp only [List.length_append, List.length_singleton]
  rw [hbyte, List.take_succ_eq_append_getElem hlt', ← hbytes]

/-- A successful `record_shift` hands over the record read. -/
lemma delivered_shift (h : FifoInv s) (hpc : s.rpc.inShift = true) :
    List.Forall₂ Delivers (s.obtained ++ s.got.toList) (s.log.take (s.shifted + 1)) := by
  obtain ⟨g, hg⟩ := h.shifting hpc
  obtain ⟨rec, rest, hlive, hsize, _, hbytes⟩ := h.got g hg
  have hlast : Delivers g rec := ⟨hsize, by rw [hbytes]; exact List.take_prefix _ _⟩
  rw [(Sys.unread_eq_cons hlive).2.1, hg]
  exact List.rel_append h.delivered (.cons hlast .nil)

/-- The next access of the reader keeps the invariant. -/
lemma readerStep (h : FifoInv s) (hbase : Inv t) (hfl : t.wpc.inFlush = false)
    (hs : s.readerStep = some t) : FifoInv t := by
  simp only [Sys.readerStep, Sys.failRead] at hs
  split at hs
  · cases hs
  · split_ifs at hs <;> cases hs
    · exact ⟨hbase, h.fresh, hfl, h.got, (by intro hc; cases hc), rfl, h.delivered⟩
    · exact ⟨hbase, h.fresh, hfl, h.got, (by intro hc; cases hc), h.single, h.delivered⟩
  · next off hpc =>
    split_ifs at hs with hneg <;> cases hs
    · exact ⟨hbase, h.fresh, hfl, h.got, (by intro hc; cases hc), h.single, h.delivered⟩
    · refine ⟨hbase, h.fresh, hfl, fun g hg => ?_, (by intro hc; cases hc), h.single,
        h.delivered⟩
      cases hg
      exact h.gotOk_of_ready hpc (by simpa using hneg)
  · next hpc =>
    cases hs
    exact ⟨hbase, rfl, hfl, h.got, fun _ => h.shifting (by rw [hpc]; rfl), h.single,
      h.delivered⟩
  · next off hpc =>
    cases hs
    exact ⟨hbase, h.fresh, hfl, h.got, fun _ => h.shifting (by rw [hpc]; rfl),
      h.single, h.delivered⟩
  · next off hd hpc =>
    split_ifs at hs <;> cases hs
    · exact ⟨hbase, h.fresh, hfl, h.got, (by intro hc; cases hc), rfl, h.delivered⟩
    · exact ⟨hbase, h.fresh, hfl, h.got, fun _ => h.shifting (by rw [hpc]; rfl),
        h.single, h.delivered⟩
  · next off hpc =>
    split_ifs at hs <;> cases hs
    · exact ⟨hbase, h.fresh, hfl, h.got, fun _ => h.shifting (by rw [hpc]; rfl),
        h.single, h.delivered⟩
    · exact ⟨hbase, h.fresh, hfl, h.got, (by intro hc; cases hc), rfl, h.delivered⟩
    · exact ⟨hbase, h.fresh, hfl, h.got, fun _ => h.shifting (by rw [hpc]; rfl),
        h.single, h.delivered⟩
  · next new hpc =>
    cases hs
    exact ⟨hbase, h.fresh, hfl, h.got, fun _ => h.shifting (by rw [hpc]; rfl),
      h.single, h.delivered⟩
  · next new hpc =>
    cases hs
    refine ⟨hbase, h.fresh, hfl, (by intro g hg; cases hg), fun hc => ?_, ?_,
      h.delivered_shift (by rw [hpc]; rfl)⟩
    · simp [h.single, RPc.inShift] at hc
    · simp [h.single]

/-- Every step under `spsc` keeps the invariant. -/
theorem step (h : FifoInv s) {a : Act} (hspsc : spsc s a = true) (hsize : sizeFits a = true)
    (hs : s.step a = some t) : FifoInv t := by
  have hbase := h.base.step (h.stepOk hsize) hs
  have hfl : t.wpc.inFlush = false :=
    Sys.inFlush_of_step (by rintro rfl; cases hspsc) hs h.noFlush
  cases ha : a.isWriter with
  | true =>
    rcases h.base.writer_cases ha (h.stepOk hsize).size hs with hm | ⟨hpc, _⟩
    · exact h.writer hbase hm hfl
    · have := h.noFlush
      rw [hpc] at this
      cases this
  | false =>
    cases a with
    | rread =>
      simp only [Sys.step] at hs
      split_ifs at hs
      cases hs
      exact ⟨hbase, rfl, hfl, (by intro g hg; cases hg),
        (by intro hc; cases hc), h.single, h.delivered⟩
    | rcopy =>
      simp only [Sys.step] at hs
      split at hs
      · next g hg =>
        split_ifs at hs with hlt
        cases hs
        refine ⟨hbase, h.fresh, hfl, fun g' hg' => ?_, fun hc => ?_, h.single,
          h.delivered⟩
        · cases hg'
          exact h.gotOk_copy hg hlt.2
        · -- payload bytes are loaded outside calls only
          have hidle := hlt.1
          cases hpc : s.rpc <;> simp_all [RPc.isIdle, RPc.inShift]
      · cases hs
    | rshift =>
      simp only [Sys.step] at hs
      split_ifs at hs
      cases hs
      refine ⟨hbase, h.fresh, hfl, h.got, fun _ => ?_, rfl, h.delivered⟩
      exact Option.isSome_iff_exists.mp hspsc
    | rflush => cases hspsc
    | r => exact h.readerStep hbase hfl hs
    | wbegin | wstore | wend | wflush | w => cases ha

/-- As many records were obtained as were consumed. -/
lemma length_obtained (h : FifoInv s) : s.obtained.length = s.shifted := by
  rw [h.delivered.length_eq, List.length_take, Nat.min_eq_left h.base.shifted_le]

/-- The invariant says that the ring behaves as a queue. -/
theorem holds (h : FifoInv s) : FifoHolds s where
  delivered := by
    rw [h.length_obtained]
    exact h.delivered
  obtained := by
    intro hall
    rw [map_eq_of_delivers h.delivered hall, List.map_take]
    exact List.take_prefix _ _
  empty := by
    rintro off hpc rfl
    have hstart := h.base.reader h.fresh
    rw [hpc] at hstart
    have hnil : s.unread = [] := by
      rcases hstart with hoff | ⟨hz, hm⟩
      · exact h.base.ring.layout.eq_nil hoff.symm
      · exact h.base.ring.layout.eq_nil_of_atMark hm hz
    have hle := h.base.shifted_le
    have hdrop : s.log.length - s.shifted = 0 := by
      rw [← List.length_drop, ← Sys.unread, hnil, List.length_nil]
    rw [h.length_obtained]
    omega
  intact := by
    intro a t r x hs hr h1 h2 hx
    have hspan := r.length_add_four_le
    exact (h.base.writerStores hs hx).1 (h.base.ring.layout.mem_used hr h1 (by omega))

end FifoInv

/-- The runs of a writer and a reader on a ring just set up, under `spsc`. -/
abbrev SpscReach (ok : Sys → Act → Bool) (size : ℕ) (buf : Mem) : Sys → Prop :=
  Reach Sys.step (fun s a => (spsc s a && ok s a) = true) (.init (.fresh size buf))

/-- The ring behaves as a queue in every run of one writer and one reader in which
no requested size wraps. -/
theorem record_fifo {size : ℕ} {buf : Mem} {s : Sys} (hmod : size % 64 = 0) (hpos : 0 < size)
    (hlt : size < 2147483648) (hrun : SpscReach (fun _ => sizeFits) size buf s) :
    FifoHolds s := by
  have hinv : FifoInv s := by
    refine hrun.invariant (FifoInv.init hmod hpos hlt) fun {s a t} h hok hs => ?_
    obtain ⟨hspsc, hsize⟩ := Bool.and_eq_true_iff.mp hok
    exact h.step hspsc hsize hs
  exact hinv.holds

/-- A record of one byte is written, read and shifted. -/
def oneRecord : List Act :=
  [.wbegin 1, .w, .wstore 0 7, .wend 1, .w, .w, .w, .w, .rread, .r, .r, .rcopy, .rshift,
    .r, .r, .r, .r, .r, .r]

/-- The record comes back. -/
theorem record_fifo_oneRecord :
    ∃ s, run Sys.step (fun s a => spsc s a && sizeFits a) (.init (.fresh 64 fun _ => 0))
        oneRecord = some s ∧ s.obtained = [⟨some 0, 1, 4, [7]⟩] ∧ FifoHolds s := by
  have hrun : (run Sys.step (fun s a => spsc s a && sizeFits a) (.init (.fresh 64 fun _ => 0))
      oneRecord).map Sys.obtained = some [⟨some 0, 1, 4, [7]⟩] := by decide
  obtain ⟨s, hs, hobtained, hr⟩ := run_map hrun
  exact ⟨s, hs, hobtained,
    record_fifo (by decide) (by decide) (by decide) hr⟩

/-- A request of `2^32 - 4` bytes is taken for an empty record. Committed with 60 bytes it
ends where it began and is lost: the reader gets the record of one byte behind it. -/
def wrappedRequest : List Act :=
  [.wbegin 4294967292, .w, .wend 60, .w, .w, .w, .w, .wbegin 1, .w, .wend 1, .w, .w, .w, .w,
    .rread, .r, .r, .rshift, .r, .r, .r, .r, .r, .r]

/-- A record is lost. -/
theorem record_fifo_wrappedRequest :
    ∃ s, SpscReach (fun _ _ => true) 64 (fun _ => 0) s ∧ ¬ FifoHolds s := by
  have hrun : (run Sys.step (fun s a => spsc s a && true) (.init (.fresh 64 fun _ => 0))
      wrappedRequest).map (fun s => (s.obtained.map Got.size,
        s.log.map fun r => r.bytes.length)) = some ([1], [60, 1]) := by decide
  obtain ⟨s, -, hsizes, hr⟩ := run_map hrun
  obtain ⟨hgot, hlog⟩ := Prod.mk.inj hsizes
  refine ⟨s, hr, fun h => ?_⟩
  have hlen : s.obtained.length = 1 := by simpa using congrArg List.length hgot
  obtain ⟨g, hg⟩ := List.length_eq_one_iff.mp hlen
  rw [hg] at hgot
  -- the first record committed has 60 bytes, what the reader obtained first has one
  have hdel := h.delivered
  cases hl : s.log with
  | nil => rw [hl] at hlog; cases hlog
  | cons r rs =>
      rw [hl, List.map_cons] at hlog
      rw [hg, hl] at hdel
      cases hdel with
      | cons hd _ =>
          have h1 : g.size = 1 := (List.cons.inj hgot).1
          have h2 : r.bytes.length = 60 := (List.cons.inj hlog).1
          rw [hd.1, h2] at h1
          cases h1

end MachinekitHal
