import MachinekitHal.Ring.Interleaving

/-!
The invariant of a record ring under interleaving.

* `RingOk`: the unread records form a `Layout` of the shared ring.
* `WriterOk`: what the writer knows at each of its program counters: the room its
  last load of `head` left it. Moving `head` on keeps it (`WriterOk.advance`).
* `ReaderOk`: what the reader knows inside a call, unless `record_flush`
  has moved `head` meanwhile. What the writer does keeps it (`Keeps`).
* `WriterMove`: what an access of the writer does to the whole system, the
  compare-and-swap of `record_flush` apart; `Inv.writer_cases` says there is
  nothing else.
* `Inv` is the three together, `Inv.step` says that every step keeps it that meets
  `StepOk`: no requested size wraps; the test of `_ring_shift_offset` never lets
  pass an offset that is the tail itself; `record_shift` does not store `head`
  after `record_flush` moved it.
-/

namespace MachinekitHal

open Bytes Word

/-! ### The ring -/

/-- The records `live` are laid out in the ring. -/
structure RingOk (r : RecordRing) (live : List Rec) : Prop where
  size_mod : r.size % 8 = 0
  size_lt : r.size < 2147483648
  head_mod : r.head % 8 = 0
  tail_mod : r.tail % 8 = 0
  layout : Layout r.buf r.size r.head r.tail live

/-- The writer may store `a` bytes at the data pointer it was given. -/
def Begun (r : RecordRing) (data a : ℕ) : Prop :=
  data = r.tail + 4 ∧ Room r.size r.head r.tail a ∨ data = 4 ∧ WrapRoom r.head r.tail a

/-- What the writer knows. -/
def WriterOk (r : RecordRing) : WPc → Prop
  | .loadHead sz => sz < 2147483648 ∧ recordUsage sz ≤ r.size
  | .wrapTest sz => sz < 2147483648 ∧ recordUsage sz ≤ r.size ∧ r.head ≤ r.tail
  | .filling data sz => sz < 2147483648 ∧ Begun r data (recordUsage sz)
  | .mark c p => c < 2147483648 ∧ Begun r 4 (recordUsage c) ∧ loadBytes r.buf 4 c = p
  | .resetTail c p =>
    c < 2147483648 ∧ Begun r 4 (recordUsage c) ∧ loadBytes r.buf 4 c = p ∧
      load32 r.buf r.tail = wrapMark
  | .sizeWord c p =>
    c < 2147483648 ∧ Room r.size r.head r.tail (recordUsage c) ∧
      loadBytes r.buf (r.tail + 4) c = p
  | .publish c p =>
    c < 2147483648 ∧ Room r.size r.head r.tail (recordUsage c) ∧
      loadBytes r.buf (r.tail + 4) c = p ∧ load32 r.buf r.tail = c
  | _ => True

/-- `off` is where the oldest unread record is looked for. -/
def Start (r : RecordRing) (off : ℕ) : Prop :=
  off = r.head ∨ off = 0 ∧ AtMark r.buf r.size r.head r.tail

/-- A committed record, or a wrap mark, stands at `off`. -/
def Ready (r : RecordRing) (off : ℕ) : Prop :=
  off = r.head ∧ r.head ≠ r.tail ∨ off = 0 ∧ AtMark r.buf r.size r.head r.tail ∧ r.tail ≠ 0

/-- `new` is the end of the oldest unread record. -/
def Consumes (r : RecordRing) (live : List Rec) (new : ℕ) : Prop :=
  ∃ rec rest, live = rec :: rest ∧ new = (rec.off + rec.span) % r.size

/-- What the reader knows inside a call. -/
def ReaderOk (r : RecordRing) (live : List Rec) : RPc → Prop
  | .readTail off => Start r off
  | .readSize off => Ready r off
  | .shiftLoad off => Start r off
  | .shiftTest off h => h = r.head ∧ Start r off
  | .shiftSize off => Ready r off
  | .shiftGen new => Consumes r live new
  | .shiftHead new => Consumes r live new
  | _ => True

lemma recordUsage_small {sz : ℕ} (h : sz < 2147483648) :
    recordUsage sz = (sz + 11) / 8 * 8 := recordUsage_eq (by omega)

lemma Rec.span_eq (r : Rec) (h : r.bytes.length < 2147483648) :
    r.span = recordUsage r.bytes.length := by rw [recordUsage_small h, span]

lemma Begun.mono {r : RecordRing} {data a b : ℕ} (h : Begun r data a) (hb : b ≤ a) :
    Begun r data b := by
  rcases h with ⟨hd, hr⟩ | ⟨hd, hr⟩
  · exact Or.inl ⟨hd, hr.mono hb⟩
  · exact Or.inr ⟨hd, hr.1, by have := hr.2; omega⟩

namespace RingOk

variable {r r' : RecordRing} {live : List Rec}

/-- The generation plays no part. -/
lemma withGeneration (h : RingOk r live) (g : ℕ) : RingOk { r with generation := g } live :=
  ⟨h.size_mod, h.size_lt, h.head_mod, h.tail_mod, h.layout⟩

/-- Stores outside the used region. -/
lemma withBuf (h : RingOk r live) {buf : Mem}
    (hb : ∀ x, Used r.size r.head r.tail x → buf x = r.buf x) :
    RingOk { r with buf := buf } live :=
  ⟨h.size_mod, h.size_lt, h.head_mod, h.tail_mod, h.layout.congr h.size_mod h.head_mod hb⟩

/-- What the test of the free space says. -/
lemma room_of_free (h : RingOk r live) {a : ℕ} (hle : a ≤ r.size)
    (hfree : a < freeSpace r.size r.head r.tail) :
    (r.size < wrap32 (r.tail + a) → r.head ≤ r.tail) ∧
    (wrap32 (r.tail + a) ≤ r.size → Room r.size r.head r.tail a) := by
  have hlt := h.size_lt
  have htail := h.layout.tail_lt
  have hhead := h.layout.head_lt
  rw [wrap32_of_lt (by omega)]
  by_cases hst : r.head ≤ r.tail
  · rw [freeSpace_straight hst htail hlt] at hfree
    exact ⟨fun _ => hst, fun hfit => ⟨hfit, fun _ => by omega, fun _ => by omega⟩⟩
  · rw [freeSpace_wrapped (by omega) hhead hlt] at hfree
    exact ⟨fun _ => by omega, fun hfit => ⟨hfit, fun _ => by omega, fun _ => by omega⟩⟩

end RingOk

/-! ### What the reader does to the writer's knowledge -/

/-- Consuming a record keeps the room handed out. -/
lemma Begun.advance {r r' : RecordRing} {data a : ℕ} (h : Begun r data a) (hsize : r'.size = r.size)
    (htail : r'.tail = r.tail) (hlt : r.head < r.size)
    (hadv : Advance r.head r.tail r'.head) : Begun r' data a := by
  rcases h with ⟨hd, hr⟩ | ⟨hd, hr⟩
  · exact Or.inl ⟨by rw [htail, hd], by rw [hsize, htail]; exact hr.advance hlt hadv⟩
  · exact Or.inr ⟨hd, by rw [htail]; exact hr.advance hadv⟩

/-- Moving `head` on keeps what the writer knows. -/
lemma WriterOk.advance {r r' : RecordRing} {w : WPc} (h : WriterOk r w)
    (hsize : r'.size = r.size) (htail : r'.tail = r.tail) (hbuf : r'.buf = r.buf)
    (hlt : r.head < r.size) (hadv : Advance r.head r.tail r'.head) : WriterOk r' w := by
  have hbegun : ∀ {data a}, Begun r data a → Begun r' data a :=
    fun hb => hb.advance hsize htail hlt hadv
  cases w with
  | loadHead sz => exact ⟨h.1, by rw [hsize]; exact h.2⟩
  | wrapTest sz =>
    have := hadv.1 h.2.2
    exact ⟨h.1, by rw [hsize]; exact h.2.1, by rw [htail]; omega⟩
  | filling data sz => exact ⟨h.1, hbegun h.2⟩
  | mark c p => exact ⟨h.1, hbegun h.2.1, by rw [hbuf]; exact h.2.2⟩
  | resetTail c p => exact ⟨h.1, hbegun h.2.1, by rw [hbuf, htail]; exact h.2.2⟩
  | sizeWord c p =>
    exact ⟨h.1, by rw [hsize, htail]; exact h.2.1.advance hlt hadv,
      by rw [hbuf, htail]; exact h.2.2⟩
  | publish c p =>
    exact ⟨h.1, by rw [hsize, htail]; exact h.2.1.advance hlt hadv,
      by rw [hbuf, htail]; exact h.2.2⟩
  | _ => trivial

/-! ### What the writer does to the reader's knowledge -/

/-- What every access of the writer outside `record_flush` leaves to the reader. -/
structure Keeps (r r' : RecordRing) : Prop where
  size : r'.size = r.size
  head : r'.head = r.head
  buf : ∀ x, Used r.size r.head r.tail x → r'.buf x = r.buf x
  ne : r.head ≠ r.tail → r.head ≠ r'.tail
  lt : r.tail < r.head → r'.tail < r.head
  zero : r.tail < r.head → r.tail ≠ 0 → r'.tail ≠ 0

namespace Keeps

variable {r r' : RecordRing} {live : List Rec}

lemma atMark (h : Keeps r r') (hr : RingOk r live) (hm : AtMark r.buf r.size r.head r.tail) :
    AtMark r'.buf r'.size r'.head r'.tail := by
  obtain ⟨h1, h2, h3⟩ := hm
  have h4 := hr.size_mod
  have h5 := hr.head_mod
  refine ⟨by rw [h.head]; exact h.lt h1, by rw [h.size, h.head]; exact h2, ?_⟩
  -- the mark lies in the used region, and so is not touched
  rw [h.head, load32_congr fun x h6 h7 => h.buf x ?_, h3]
  rw [Used, if_neg (by omega)]
  omega

lemma start (h : Keeps r r') (hr : RingOk r live) {off : ℕ} (hs : Start r off) :
    Start r' off := by
  rcases hs with rfl | ⟨hz, hm⟩
  · exact Or.inl h.head.symm
  · exact Or.inr ⟨hz, h.atMark hr hm⟩

lemma ready (h : Keeps r r') (hr : RingOk r live) {off : ℕ} (hs : Ready r off) :
    Ready r' off := by
  rcases hs with ⟨rfl, hne⟩ | ⟨hz, hm, ht⟩
  · exact Or.inl ⟨h.head.symm, by rw [h.head]; exact h.ne hne⟩
  · exact Or.inr ⟨hz, h.atMark hr hm, h.zero hm.1 ht⟩

/-- What the writer does, an append of records included, keeps what the reader
knows. -/
lemma readerOk (h : Keeps r r') (hr : RingOk r live) {p : RPc} (more : List Rec)
    (hs : ReaderOk r live p) : ReaderOk r' (live ++ more) p := by
  have hcons : ∀ {new}, Consumes r live new → Consumes r' (live ++ more) new := by
    rintro new ⟨rec, rest, rfl, rfl⟩
    exact ⟨rec, rest ++ more, rfl, by rw [h.size]⟩
  cases p with
  | readTail off => exact h.start hr hs
  | readSize off => exact h.ready hr hs
  | shiftLoad off => exact h.start hr hs
  | shiftTest off hd => exact ⟨by rw [h.head]; exact hs.1, h.start hr hs.2⟩
  | shiftSize off => exact h.ready hr hs
  | shiftGen new => exact hcons hs
  | shiftHead new => exact hcons hs
  | _ => trivial

end Keeps

/-! ### The invariant -/

/-- The invariant of the interleaved ring. -/
structure Inv (s : Sys) : Prop where
  shifted_le : s.shifted ≤ s.log.length
  ring : RingOk s.ring s.unread
  writer : WriterOk s.ring s.wpc
  reader : s.stale = false → ReaderOk s.ring s.unread s.rpc

/-- The condition under which a step keeps the invariant. -/
structure StepOk (s : Sys) (a : Act) : Prop where
  /-- no requested size wraps around when its record usage is computed -/
  size : ∀ sz, a = .wbegin sz → sz ≤ 4294967284
  /-- the test of `_ring_shift_offset` does not pass at an offset that is the tail -/
  window : a = .r → ∀ off h, s.rpc = .shiftTest off h → s.stale = false →
    off = s.ring.tail → h = s.ring.tail
  /-- `record_shift` does not store `head` after `record_flush` has moved it -/
  fresh : a = .r → ∀ new, s.rpc = .shiftHead new → s.stale = false

lemma Inv.init {ring : RecordRing} (hmod : ring.size % 8 = 0) (hpos : 0 < ring.size)
    (hlt : ring.size < 2147483648) (hhead : ring.head = 0) (htail : ring.tail = 0) :
    Inv (.init ring) := by
  refine ⟨le_rfl, ⟨hmod, hlt, by simp [Sys.init, hhead], by simp [Sys.init, htail], ?_⟩,
    trivial, fun _ => trivial⟩
  rw [Sys.init, hhead, htail]
  exact Layout.empty hpos

/-- The reader and its history are the same. -/
structure SameReader (s t : Sys) : Prop where
  rpc : t.rpc = s.rpc := by rfl
  rret : t.rret = s.rret := by rfl
  got : t.got = s.got := by rfl
  flushing : t.flushing = s.flushing := by rfl
  obtained : t.obtained = s.obtained := by rfl
  stale : t.stale = s.stale := by rfl

/-- What an access of the writer does. -/
structure WriterMove (s t : Sys) : Prop where
  keeps : Keeps s.ring t.ring
  ring : RingOk t.ring t.unread
  writer : WriterOk t.ring t.wpc
  log : ∃ more, t.log = s.log ++ more
  shifted : t.shifted = s.shifted
  reader : SameReader s t

/-- `record_flush` drops the unread records. -/
def FlushMove (s t : Sys) : Prop :=
  s.wpc = .flushCas s.ring.head ∧ t = { s with
    ring := { s.ring with head := s.ring.tail }
    wpc := .idle, wret := none
    shifted := s.log.length
    stale := s.stale || s.ring.head != s.ring.tail }

namespace WriterMove

variable {s t : Sys}

lemma unread (h : WriterMove s t) (hle : s.shifted ≤ s.log.length) :
    ∃ more, t.unread = s.unread ++ more := by
  obtain ⟨more, hlog⟩ := h.log
  exact ⟨more, by
    rw [Sys.unread, Sys.unread, hlog, h.shifted, List.drop_append_of_le_length hle]⟩

/-- An access of the writer keeps the invariant. -/
lemma inv (h : WriterMove s t) (hi : Inv s) : Inv t := by
  obtain ⟨more, hlog⟩ := h.log
  refine ⟨?_, h.ring, h.writer, fun hst => ?_⟩
  · have := hi.shifted_le
    rw [hlog, h.shifted, List.length_append]
    omega
  · obtain ⟨more, hunread⟩ := h.unread hi.shifted_le
    rw [hunread, h.reader.rpc]
    exact h.keeps.readerOk hi.ring more (hi.reader (h.reader.stale ▸ hst))

end WriterMove

namespace Inv

variable {s t : Sys}

/-- The first load of `head` in `record_write_begin`. -/
lemma loadHead (h : Inv s) {sz : ℕ} (hpc : s.wpc = .loadHead sz)
    (hfree : recordUsage sz < freeSpace s.ring.size s.ring.head s.ring.tail) :
    (s.ring.size < wrap32 (s.ring.tail + recordUsage sz) → s.ring.head ≤ s.ring.tail) ∧
    (wrap32 (s.ring.tail + recordUsage sz) ≤ s.ring.size →
      Room s.ring.size s.ring.head s.ring.tail (recordUsage sz)) := by
  have hw := h.writer
  rw [hpc] at hw
  exact h.ring.room_of_free hw.2 hfree

/-- A step of the writer that leaves the ring alone. -/
lemma setWpc (h : Inv s) {w : WPc} {e : Option Errno} (hw : WriterOk s.ring w) :
    WriterMove s { s with wpc := w, wret := e } :=
  ⟨⟨rfl, rfl, fun _ _ => rfl, id, id, fun _ h => h⟩, h.ring, hw, ⟨[], by simp⟩, rfl, {}⟩

/-- A store of the writer outside the used region. -/
lemma store (h : Inv s) {buf : Mem} {w : WPc}
    (hb : ∀ x, Used s.ring.size s.ring.head s.ring.tail x → buf x = s.ring.buf x)
    (hw : WriterOk { s.ring with buf := buf } w) :
    WriterMove s { s with ring := { s.ring with buf := buf }, wpc := w } :=
  ⟨⟨rfl, rfl, hb, id, id, fun _ h => h⟩, h.ring.withBuf hb, hw, ⟨[], by simp⟩, rfl, {}⟩

/-- The store of a payload byte. -/
lemma storePayload (h : Inv s) {data sz i : ℕ} {b : UInt8} (hpc : s.wpc = .filling data sz)
    (hi : i < sz) :
    WriterMove s
      { s with ring := { s.ring with buf := store8 s.ring.buf (data + i) b } } := by
  have hw := h.writer
  rw [hpc] at hw
  obtain ⟨hsz, hbegun⟩ := hw
  have husage := recordUsage_small hsz
  have hout : ¬ Used s.ring.size s.ring.head s.ring.tail (data + i) := by
    rcases hbegun with ⟨rfl, hr⟩ | ⟨rfl, hr⟩
    · exact hr.not_used (by omega) (by omega)
    · exact hr.not_used (by omega)
  have hb : ∀ x, Used s.ring.size s.ring.head s.ring.tail x →
      store8 s.ring.buf (data + i) b x = s.ring.buf x :=
    fun x hx => store8_apply_of_ne fun hxe => hout (hxe ▸ hx)
  exact h.store hb (w := s.wpc) (by rw [hpc]; exact ⟨hsz, hbegun⟩)

/-- The store of the wrap mark. -/
lemma mark (h : Inv s) {c : ℕ} {p : List UInt8} (hpc : s.wpc = .mark c p) :
    WriterMove s { s with
      ring := { s.ring with buf := store32 s.ring.buf s.ring.tail wrapMark }
      wpc := .resetTail c p } := by
  have hw := h.writer
  rw [hpc] at hw
  obtain ⟨hc, hbegun, hpay⟩ := hw
  have husage := recordUsage_small hc
  have hout : ∀ x, s.ring.tail ≤ x → x < s.ring.tail + 4 →
      ¬ Used s.ring.size s.ring.head s.ring.tail x := by
    intro x h1 h2
    rcases hbegun with ⟨_, hr⟩ | ⟨_, hr⟩
    · exact hr.not_used h1 (by omega)
    · exact hr.not_used (Or.inr h1)
  -- the payload lies behind the mark, or at the start of a wrapped ring
  have hkeep : ∀ x, 4 ≤ x → x < 4 + c →
      store32 s.ring.buf s.ring.tail wrapMark x = s.ring.buf x := by
    intro x h1 h2
    refine store32_apply_of_outside ?_
    rcases hbegun with ⟨hd, _⟩ | ⟨_, hr⟩
    · omega
    · have := hr.1
      have := hr.2
      omega
  refine h.store (fun x hx => store32_apply_of_outside ?_)
    ⟨hc, hbegun, by rw [loadBytes_congr hkeep, hpay], load32_store32 (by norm_num [wrapMark])⟩
  by_contra hcon
  exact hout x (by omega) (by omega) hx

/-- The store of `tail = 0` behind a wrap mark. -/
lemma resetTail (h : Inv s) {c : ℕ} {p : List UInt8} (hpc : s.wpc = .resetTail c p) :
    WriterMove s { s with ring := { s.ring with tail := 0 }, wpc := .sizeWord c p } := by
  have hw := h.writer
  rw [hpc] at hw
  obtain ⟨hc, hbegun, hpay, hmark⟩ := hw
  have husage := recordUsage_small hc
  have hhead := h.ring.layout.head_lt
  rcases hbegun with ⟨htail, hr⟩ | ⟨_, hr⟩
  · -- no wrap: the write begun at offset `0` is the write at `tail`
    have htail : s.ring.tail = 0 := by omega
    have heq : { s with ring := { s.ring with tail := 0 } } = s := by
      rw [← htail]
    have := h.setWpc (w := .sizeWord c p) (e := s.wret) ⟨hc, hr, by rw [htail]; exact hpay⟩
    rw [← heq] at this ⊢
    exact this
  · have hlay := h.ring.layout.wrap hr hmark
    obtain ⟨h1, h2⟩ := hr
    refine ⟨⟨rfl, rfl, fun _ _ => rfl, fun _ => ?_, fun hlt => by omega, fun hlt => by omega⟩,
      ⟨h.ring.size_mod, h.ring.size_lt, h.ring.head_mod, rfl, hlay⟩,
      ⟨hc, ⟨?_, fun _ => ?_, fun hle => ?_⟩, hpay⟩, ⟨[], by simp⟩, rfl, {}⟩
    · show s.ring.head ≠ 0
      omega
    · show 0 + recordUsage c ≤ s.ring.size
      omega
    · show 0 + recordUsage c < s.ring.head
      omega
    · have : s.ring.head ≤ 0 := hle
      omega

/-- The store of the size word. -/
lemma sizeWord (h : Inv s) {c : ℕ} {p : List UInt8} (hpc : s.wpc = .sizeWord c p) :
    WriterMove s { s with
      ring := { s.ring with buf := store32 s.ring.buf s.ring.tail c }
      wpc := .publish c p } := by
  have hw := h.writer
  rw [hpc] at hw
  obtain ⟨hc, hr, hpay⟩ := hw
  have husage := recordUsage_small hc
  have hkeep : ∀ x, s.ring.tail + 4 ≤ x → x < s.ring.tail + 4 + c →
      store32 s.ring.buf s.ring.tail c x = s.ring.buf x :=
    fun x h1 _ => store32_apply_of_outside (Or.inr h1)
  refine h.store (fun x hx => store32_apply_of_outside ?_)
    ⟨hc, hr, by rw [loadBytes_congr hkeep, hpay], load32_store32 (by omega)⟩
  by_contra hcon
  exact hr.not_used (by omega) (by omega) hx

/-- The final store of `tail` commits the record. -/
lemma publish (h : Inv s) {c : ℕ} {p : List UInt8} {e : Option Errno}
    (hpc : s.wpc = .publish c p) :
    WriterMove s { s with
      ring := { s.ring with tail := wrap32 (s.ring.tail + recordUsage c) % s.ring.size }
      wpc := .idle, wret := e
      log := s.log ++ [⟨s.ring.tail, p⟩] } := by
  have hw := h.writer
  rw [hpc] at hw
  obtain ⟨hc, hr, hpay, hword⟩ := hw
  have hlt := h.ring.size_lt
  have hsize := h.ring.size_mod
  have htail8 := h.ring.tail_mod
  have hhead := h.ring.layout.head_lt
  rw [wrap32_of_lt (by have := hr.1; omega)]
  set rec : Rec := ⟨s.ring.tail, p⟩ with hrec
  have hlen : rec.bytes.length = c := by rw [hrec, ← hpay, length_loadBytes]
  have hspan : rec.span = recordUsage c := by rw [rec.span_eq (by omega), hlen]
  have hat : rec.At s.ring.buf :=
    ⟨by rw [hlen]; exact hword, by rw [hlen]; exact hpay, by omega⟩
  have hspan8 := rec.span_mod
  have hpos := rec.span_pos
  have hmod : (s.ring.tail + recordUsage c) % s.ring.size % 8 = 0 := by
    have h8 : 8 ∣ s.ring.size := Nat.dvd_of_mod_eq_zero hsize
    have : 8 ∣ s.ring.tail + recordUsage c := Nat.dvd_of_mod_eq_zero (by omega)
    exact Nat.mod_eq_zero_of_dvd ((Nat.dvd_mod_iff h8).mpr this)
  have hlay := h.ring.layout.commit (by rw [hspan]; exact hr) rfl hat
  rw [hspan] at hlay
  have hval : s.ring.tail < s.ring.head →
      (s.ring.tail + recordUsage c) % s.ring.size = s.ring.tail + recordUsage c :=
    fun h1 => Nat.mod_eq_of_lt (by have := hr.2.1 h1; omega)
  refine ⟨⟨rfl, rfl, fun _ _ => rfl, fun hne => hr.head_ne hne hhead, fun h1 => ?_,
    fun h1 _ => ?_⟩, ?_, trivial, ⟨[rec], rfl⟩, rfl, {}⟩
  · show (s.ring.tail + recordUsage c) % s.ring.size < s.ring.head
    rw [hval h1]
    exact hr.2.1 h1
  · show (s.ring.tail + recordUsage c) % s.ring.size ≠ 0
    rw [hval h1]
    omega
  · show RingOk _ ((s.log ++ [rec]).drop s.shifted)
    rw [List.drop_append_of_le_length h.shifted_le]
    exact ⟨hsize, hlt, h.ring.head_mod, hmod, hlay⟩

/-- The compare-and-swap of `record_flush` keeps the invariant. -/
lemma flush (h : Inv s) (hf : FlushMove s t) : Inv t := by
  obtain ⟨_, rfl⟩ := hf
  refine ⟨le_rfl, ?_, trivial, fun hst => ?_⟩
  · show RingOk _ (s.log.drop s.log.length)
    rw [List.drop_length]
    exact ⟨h.ring.size_mod, h.ring.size_lt, h.ring.tail_mod, h.ring.tail_mod,
      Layout.empty h.ring.layout.tail_lt⟩
  · -- the reader is only relied upon if `head` did not move, and then nothing was unread
    obtain ⟨hs, hhead⟩ : s.stale = false ∧ s.ring.head = s.ring.tail := by simpa using hst
    have hnil := h.ring.layout.eq_nil hhead
    have hring : { s.ring with head := s.ring.tail } = s.ring := by rw [← hhead]
    show ReaderOk _ (s.log.drop s.log.length) s.rpc
    rw [hring, List.drop_length, ← hnil]
    exact h.reader hs

/-- A step of the reader that leaves the ring alone. -/
lemma setRpc (h : Inv s) {p : RPc} {e : Option Errno} {g : Option Got} {k : Option ℕ}
    {st : Bool} (hp : st = false → ReaderOk s.ring s.unread p) :
    Inv { s with rpc := p, rret := e, got := g, flushing := k, stale := st } :=
  ⟨h.shifted_le, h.ring, h.writer, hp⟩

/-- What stands at an offset where the reader is ready to read a size word. -/
lemma ready_cases {r : RecordRing} {live : List Rec} (h : RingOk r live) {off : ℕ}
    (hready : Ready r off) :
    (∃ rec rest, live = rec :: rest ∧ rec.off = off ∧
        Consumable r.buf r.size r.head r.tail rec rest) ∨
      (load32 r.buf off = wrapMark ∧ AtMark r.buf r.size r.head r.tail) := by
  rcases hready with ⟨rfl, hne⟩ | ⟨rfl, hm, htail⟩
  · rcases h.layout.front hne with hrec | ⟨hm, _⟩
    · exact Or.inl hrec
    · exact Or.inr ⟨hm.2.2, hm⟩
  · rcases h.layout.front (by have := hm.1; omega) with ⟨rec, rest, _, hoff, hc⟩ | ⟨_, hrec⟩
    · -- a record at `head` has a size word that is not the mark
      have hneg := hc.at_off.not_negative
      rw [hoff, hm.2.2] at hneg
      exact absurd hneg (by decide)
    · rcases hrec with ⟨hz, _⟩ | ⟨_, hrec⟩
      · exact absurd hz htail
      · exact Or.inl hrec

/-- The size word of the record to be consumed gives its end. -/
lemma consumes_of_ready {r : RecordRing} {live : List Rec} (h : RingOk r live) {off : ℕ}
    (hready : Ready r off) (hneg : isNegative (load32 r.buf off) = false) :
    Consumes r live (RecordRing.offsetAfter r.size off (load32 r.buf off)) := by
  rcases ready_cases h hready with ⟨rec, rest, hlive, hoff, hc⟩ | ⟨hmark, _⟩
  · refine ⟨rec, rest, hlive, ?_⟩
    have hsmall := hc.at_off.small
    have husage := rec.span_eq hsmall
    have hused := h.layout.mem_used (r := rec) (by rw [hlive]; exact (.head _))
      (x := rec.off + rec.span - 1) (by have := rec.span_pos; omega)
      (by have := rec.span_pos; omega)
    have htail := h.layout.tail_lt
    have hlt := h.size_lt
    have hend : rec.off + rec.span ≤ r.size := by
      rw [Used] at hused
      have := rec.span_pos
      split at hused <;> omega
    rw [RecordRing.offsetAfter, ← hoff, hc.at_off.size,
      show sizeAligned (wrap32 (rec.bytes.length + 4)) = rec.span from husage.symm,
      wrap32_of_lt (by omega)]
  · rw [hmark] at hneg
    exact absurd hneg (by decide)

/-- A wrap mark sends the reader to offset `0`. -/
lemma start_of_ready {r : RecordRing} {live : List Rec} (h : RingOk r live) {off : ℕ}
    (hready : Ready r off) (hneg : isNegative (load32 r.buf off) = true) : Start r 0 := by
  rcases ready_cases h hready with ⟨rec, rest, _, hoff, hc⟩ | ⟨_, hm⟩
  · rw [← hoff, hc.at_off.not_negative] at hneg
    cases hneg
  · exact Or.inr ⟨rfl, hm⟩

/-- The end of the oldest unread record is where consuming it leads. -/
lemma consumable {r : RecordRing} {live : List Rec} (h : RingOk r live) {new : ℕ}
    (hc : Consumes r live new) :
    ∃ rec rest, live = rec :: rest ∧ new = (rec.off + rec.span) % r.size ∧
      rec.off % 8 = 0 ∧ Consumable r.buf r.size r.head r.tail rec rest ∧
      (rec.off = r.head ∨ rec.off = 0 ∧ AtMark r.buf r.size r.head r.tail) := by
  obtain ⟨rec, rest, hlive, rfl⟩ := hc
  have hne : r.head ≠ r.tail := by
    intro he
    have := h.layout.eq_nil he
    rw [hlive] at this
    exact absurd this (by simp)
  have hhead := h.head_mod
  rcases h.layout.front hne with ⟨rec', rest', hl, hoff, hcon⟩ | ⟨hm, hrec⟩
  · rw [hlive] at hl
    obtain ⟨rfl, rfl⟩ := List.cons.inj hl
    exact ⟨rec, rest, hlive, rfl, by omega, hcon, Or.inl hoff⟩
  · rcases hrec with ⟨_, hnil⟩ | ⟨_, rec', rest', hl, hoff, hcon⟩
    · rw [hlive] at hnil
      exact absurd hnil (by simp)
    · rw [hlive] at hl
      obtain ⟨rfl, rfl⟩ := List.cons.inj hl
      exact ⟨rec, rest, hlive, rfl, by omega, hcon, Or.inr ⟨hoff, hm⟩⟩

/-- Consuming the oldest unread record. -/
lemma ring_consume {r : RecordRing} {live : List Rec} (h : RingOk r live) {new : ℕ}
    (hc : Consumes r live new) :
    RingOk { r with head := new } live.tail ∧ Advance r.head r.tail new := by
  obtain ⟨rec, rest, rfl, rfl, hoff, hcon, _⟩ := consumable h hc
  have h8 : 8 ∣ r.size := Nat.dvd_of_mod_eq_zero h.size_mod
  have hspan := rec.span_mod
  have hsum : 8 ∣ rec.off + rec.span := Nat.dvd_of_mod_eq_zero (by omega)
  exact ⟨⟨h.size_mod, h.size_lt, Nat.mod_eq_zero_of_dvd ((Nat.dvd_mod_iff h8).mpr hsum),
    h.tail_mod, hcon.layout⟩, hcon.advance⟩

/-- The store of `head` by `record_shift`. -/
lemma shiftHead (h : Inv s) {new : ℕ} {p : RPc} {e : Option Errno} {g : Option Got}
    {k : Option ℕ} {o : List Got} (hpc : s.rpc = .shiftHead new) (hst : s.stale = false)
    (hp : p = .idle ∨ p = .shiftCall) :
    Inv { s with
      ring := { s.ring with head := new }
      rpc := p, rret := e, got := g, flushing := k
      shifted := s.shifted + 1, obtained := o } := by
  have hshift := h.reader hst
  rw [hpc] at hshift
  obtain ⟨hring, hadv⟩ := ring_consume h.ring hshift
  obtain ⟨rec, rest, hlive, _⟩ := hshift
  refine ⟨(Sys.unread_eq_cons hlive).1, ?_,
    h.writer.advance rfl rfl rfl h.ring.layout.head_lt hadv, fun _ => ?_⟩
  · show RingOk _ (s.log.drop (s.shifted + 1))
    rw [← List.tail_drop]
    exact hring
  · rcases hp with rfl | rfl <;> trivial

/-- The next access of the writer. -/
lemma writerStep (h : Inv s) (hs : s.writerStep = some t) : WriterMove s t ∨ FlushMove s t := by
  simp only [Sys.writerStep] at hs
  split at hs
  · cases hs
  · cases hs
  · next sz hpc =>
    have hw := h.writer
    rw [hpc] at hw
    split_ifs at hs with hfree hwrap <;> cases hs
    · exact Or.inl (h.setWpc trivial)
    · have hload := h.loadHead hpc (by omega)
      exact Or.inl (h.setWpc ⟨hw.1, hw.2, hload.1 hwrap⟩)
    · have hload := h.loadHead hpc (by omega)
      exact Or.inl (h.setWpc ⟨hw.1, Or.inl ⟨rfl, hload.2 (by omega)⟩⟩)
  · next sz hpc =>
    have hw := h.writer
    rw [hpc] at hw
    split_ifs at hs with hroom <;> cases hs
    · exact Or.inl (h.setWpc trivial)
    · exact Or.inl (h.setWpc ⟨hw.1, Or.inr ⟨rfl, hw.2.2, Nat.lt_of_not_le hroom⟩⟩)
  · next c p hpc => obtain rfl := Option.some.inj hs; exact Or.inl (h.mark hpc)
  · next c p hpc => obtain rfl := Option.some.inj hs; exact Or.inl (h.resetTail hpc)
  · next c p hpc => obtain rfl := Option.some.inj hs; exact Or.inl (h.sizeWord hpc)
  · next c p hpc => obtain rfl := Option.some.inj hs; exact Or.inl (h.publish hpc)
  · cases hs
    exact Or.inl ⟨⟨rfl, rfl, fun _ _ => rfl, id, id, fun _ h => h⟩, h.ring.withGeneration _,
      trivial, ⟨[], by simp⟩, rfl, {}⟩
  · cases hs
    exact Or.inl (h.setWpc trivial)
  · next hd hpc =>
    split_ifs at hs with hcas <;> cases hs
    · exact Or.inr ⟨by rw [hpc, hcas], rfl⟩
    · exact Or.inl (h.setWpc trivial)

/-- The actions of the writer: either an ordinary access, or the compare-and-swap of
`record_flush`. -/
lemma writer_cases (h : Inv s) {a : Act} (ha : a.isWriter = true)
    (hsize : ∀ sz, a = .wbegin sz → sz ≤ 4294967284) (hs : s.step a = some t) :
    WriterMove s t ∨ FlushMove s t := by
  cases a with
  | wbegin sz =>
    have hsz := hsize sz rfl
    simp only [Sys.step] at hs
    split_ifs at hs with h1 h2 <;> cases hs
    · exact Or.inl (h.setWpc trivial)
    · refine Or.inl (h.setWpc ⟨?_, Nat.le_of_not_lt h2⟩)
      have := recordUsage_eq hsz
      have := h.ring.size_lt
      omega
  | wstore i b =>
    simp only [Sys.step] at hs
    split at hs
    · next data sz hpc =>
      split_ifs at hs with hi
      cases hs
      exact Or.inl (h.storePayload hpc hi)
    · cases hs
  | wend c =>
    simp only [Sys.step] at hs
    split at hs
    · next data sz hpc =>
      have hw := h.writer
      rw [hpc] at hw
      obtain ⟨hsz, hbegun⟩ := hw
      split_ifs at hs with hc hd <;> cases hs
      all_goals
        have hle : recordUsage c ≤ recordUsage sz := by
          rw [recordUsage_small hsz, recordUsage_small (by omega)]
          omega
      · subst hd
        exact Or.inl (h.setWpc ⟨by omega, hbegun.mono hle, rfl⟩)
      · refine Or.inl (h.setWpc ?_)
        rcases hbegun.mono hle with ⟨hd', hr⟩ | ⟨hd', _⟩
        · exact ⟨by omega, hr, by rw [hd']⟩
        · exact absurd hd' hd
    · cases hs
  | wflush =>
    simp only [Sys.step] at hs
    split_ifs at hs
    cases hs
    exact Or.inl (h.setWpc trivial)
  | w => exact h.writerStep hs
  | rread | rcopy | rshift | rflush | r => cases ha

/-- The next access of the reader keeps the invariant. -/
lemma readerStep (h : Inv s) (hok : StepOk s .r) (hs : s.readerStep = some t) : Inv t := by
  simp only [Sys.readerStep, Sys.failRead] at hs
  split at hs
  · cases hs
  · next off hpc =>
    split_ifs at hs with htail <;> cases hs
    · exact h.setRpc fun _ => trivial
    · refine h.setRpc fun hst => ?_
      have hstart := h.reader hst
      rw [hpc] at hstart
      rcases hstart with rfl | ⟨rfl, hm⟩
      · exact Or.inl ⟨rfl, htail⟩
      · exact Or.inr ⟨rfl, hm, fun hz => htail hz.symm⟩
  · next off hpc =>
    split_ifs at hs with hneg <;> cases hs
    · refine h.setRpc fun hst => ?_
      have hready := h.reader hst
      rw [hpc] at hready
      exact start_of_ready h.ring hready hneg
    · exact h.setRpc fun _ => trivial
  · cases hs
    exact h.setRpc fun _ => Or.inl rfl
  · next off hpc =>
    cases hs
    refine h.setRpc fun hst => ⟨rfl, ?_⟩
    have := h.reader hst
    rwa [hpc] at this
  · next off hd hpc =>
    split_ifs at hs with htest <;> cases hs
    · exact h.setRpc fun _ => trivial
    · refine h.setRpc fun hst => ?_
      have hsh := h.reader hst
      rw [hpc] at hsh
      obtain ⟨rfl, hstart⟩ := hsh
      rcases hstart with rfl | ⟨rfl, hm⟩
      · exact Or.inl ⟨rfl, htest⟩
      · exact Or.inr ⟨rfl, hm, fun hz => htest (hok.window rfl _ _ hpc hst hz.symm)⟩
  · next off hpc =>
    have hready : s.stale = false → Ready s.ring off := fun hst => by
      have := h.reader hst
      rwa [hpc] at this
    split_ifs at hs with hneg hoff <;> cases hs
    · exact h.setRpc fun hst => start_of_ready h.ring (hready hst) hneg
    · exact h.setRpc fun _ => trivial
    · exact h.setRpc fun hst => consumes_of_ready h.ring (hready hst) (by simpa using hneg)
  · next new hpc =>
    cases hs
    refine ⟨h.shifted_le, h.ring.withGeneration _,
      h.writer.advance rfl rfl rfl h.ring.layout.head_lt
        ⟨fun h1 => ⟨le_rfl, h1⟩, fun _ => Or.inl le_rfl⟩, fun hst => ?_⟩
    have := h.reader hst
    rwa [hpc] at this
  · next new hpc =>
    cases hs
    refine h.shiftHead hpc (hok.fresh rfl _ hpc) ?_
    split_ifs
    · exact Or.inr rfl
    · exact Or.inl rfl

/-- Every step that meets `StepOk` keeps the invariant. -/
theorem step (h : Inv s) {a : Act} (hok : StepOk s a) (hs : s.step a = some t) : Inv t := by
  cases ha : a.isWriter with
  | true =>
    rcases h.writer_cases ha hok.size hs with hm | hf
    · exact hm.inv h
    · exact h.flush hf
  | false =>
    cases a with
    | rread =>
      simp only [Sys.step] at hs
      split_ifs at hs
      cases hs
      exact h.setRpc fun _ => Or.inl rfl
    | rcopy =>
      simp only [Sys.step] at hs
      split at hs
      · split_ifs at hs
        cases hs
        exact h.setRpc fun hst => h.reader hst
      · cases hs
    | rshift | rflush =>
      simp only [Sys.step] at hs
      split_ifs at hs
      cases hs
      exact h.setRpc fun _ => trivial
    | r => exact h.readerStep hok hs
    | wbegin | wstore | wend | wflush | w => cases ha

end Inv

/-! ### Runs -/

/-- A ring just set up: `head` and `tail` at the start, the storage not cleared. -/
def RecordRing.fresh (size : ℕ) (buf : Mem) : RecordRing :=
  { size := size, head := 0, tail := 0, generation := 0, buf := buf }

/-- The requested size does not wrap in `size_aligned(sz + sizeof(rrecsize_t))`. -/
def sizeFits : Act → Bool
  | .wbegin sz => sz ≤ 4294967284
  | _ => true

lemma Inv.fresh {size : ℕ} {buf : Mem} (hmod : size % 64 = 0) (hpos : 0 < size)
    (hlt : size < 2147483648) : Inv (.init (.fresh size buf)) :=
  Inv.init (show size % 8 = 0 by omega) hpos hlt rfl rfl

end MachinekitHal
