import MachinekitHal.Ring.RecordInvariant

/-!
The operations of a record ring, one at a time.

Between complete operations no wrap mark stands at the end of the unread records
(`Settled`). One lemma says what each operation does then: `Settled.recordRead`,
`Settled.recordShift`, `RingOk.recordWriteBegin`, `Settled.recordWriteEnd`.
`record_write_end` alone is a run of the writer's accesses, so its lemma is put
together from theirs.
-/

namespace MachinekitHal

open Bytes Word

/-- The records `live` are laid out in the ring, and no operation is under way. -/
structure Settled (r : RecordRing) (live : List Rec) : Prop extends RingOk r live where
  ended : r.tail = 0 → r.head ≠ 0 → Chain r.buf r.head live r.size

/-- The record that `record_write_end` commits. -/
def committed (buf : Mem) (data c : ℕ) : Rec := ⟨data - 4, loadBytes buf data c⟩

@[simp] lemma length_committed (buf : Mem) (data c : ℕ) :
    (committed buf data c).bytes.length = c := length_loadBytes _ _ _

/-! ### The writer -/

namespace Begun

variable {r : RecordRing} {data a x : ℕ}

/-- The room handed out is unused, and inside the buffer. -/
lemma not_used (h : Begun r data a) (h1 : data ≤ x + 4) (h2 : x + 4 < data + a) :
    ¬ Used r.size r.head r.tail x := by
  rcases h with ⟨rfl, hr⟩ | ⟨rfl, hr⟩
  · exact hr.not_used (by omega) (by omega)
  · exact hr.not_used (by omega)

lemma lt_size (h : Begun r data a) {live : List Rec} (hr : RingOk r live)
    (h2 : x + 4 < data + a) : x < r.size := by
  have hhead := hr.layout.head_lt
  rcases h with ⟨rfl, hr⟩ | ⟨rfl, hr⟩
  · have := hr.1
    omega
  · have := hr.2
    omega

end Begun

/-- What `record_write_begin` hands out may be written to. -/
lemma RingOk.recordWriteBegin {r : RecordRing} {live : List Rec} (h : RingOk r live)
    {sz data : ℕ} (hsz : sz ≤ 4294967284) (hb : r.recordWriteBegin sz = .ok data) :
    sz < 2147483648 ∧ Begun r data (recordUsage sz) := by
  rw [RecordRing.recordWriteBegin] at hb
  split_ifs at hb with hrange hfree hwrap hroom
  all_goals
    have hlt := h.size_lt
    have husage := recordUsage_eq hsz
    cases hb
    have hspace := h.room_of_free (Nat.le_of_not_lt hrange) (Nat.lt_of_not_le hfree)
  · exact ⟨by omega, Or.inr ⟨rfl, hspace.1 hwrap, Nat.lt_of_not_le hroom⟩⟩
  · exact ⟨by omega, Or.inl ⟨rfl, hspace.2 (Nat.le_of_not_lt hwrap)⟩⟩

/-- A writer alone on the ring, inside `record_write_end`. -/
def Sys.committing (r : RecordRing) (live : List Rec) (w : WPc) : Sys :=
  { Sys.init r with wpc := w, log := live, stale := true }

lemma Inv.committing {r : RecordRing} {live : List Rec} {w : WPc} (h : RingOk r live)
    (hw : WriterOk r w) : Inv (.committing r live w) :=
  ⟨Nat.zero_le _, h, hw, fun hst => by cases hst⟩

/-- `record_write_end` appends a record. -/
lemma RingOk.recordWriteEnd {r : RecordRing} {live : List Rec} (h : RingOk r live)
    {data c : ℕ} (hc : c < 2147483648) (hb : Begun r data (recordUsage c)) :
    RingOk (r.recordWriteEnd data c) (live ++ [committed r.buf data c]) := by
  by_cases hd : data = 4
  · subst hd
    have h1 := Inv.committing h (w := .mark c (loadBytes r.buf 4 c)) ⟨hc, hb, rfl⟩
    have h2 := (h1.mark rfl).inv h1
    have h3 := (h2.resetTail rfl).inv h2
    have h4 := (h3.sizeWord rfl).inv h3
    exact (h4.publish (e := none) rfl).ring
  · rcases hb with ⟨rfl, hr⟩ | ⟨hd', _⟩
    · have h1 := Inv.committing h (w := .sizeWord c (loadBytes r.buf (r.tail + 4) c))
        ⟨hc, hr, rfl⟩
      have h2 := (h1.sizeWord rfl).inv h1
      have h3 := (h2.publish (e := none) rfl).ring
      rw [RecordRing.recordWriteEnd, if_neg hd]
      exact h3
    · exact absurd hd' hd

@[simp] lemma recordWriteEnd_size (r : RecordRing) (data c : ℕ) :
    (r.recordWriteEnd data c).size = r.size := by
  rw [RecordRing.recordWriteEnd]
  split <;> rfl

@[simp] lemma recordWriteEnd_head (r : RecordRing) (data c : ℕ) :
    (r.recordWriteEnd data c).head = r.head := by
  rw [RecordRing.recordWriteEnd]
  split <;> rfl

/-- `record_write_end` stores to the wrap mark and to the size word of the record. -/
lemma recordWriteEnd_buf {r : RecordRing} {data c x : ℕ} (h1 : x < r.tail ∨ r.tail + 4 ≤ x)
    (h2 : x < data - 4 ∨ data ≤ x) : (r.recordWriteEnd data c).buf x = r.buf x := by
  rw [RecordRing.recordWriteEnd]
  by_cases hd : data = 4
  · rw [if_pos hd]
    show store32 (store32 r.buf r.tail wrapMark) 0 c x = r.buf x
    rw [store32_apply_of_outside (by omega), store32_apply_of_outside h1]
  · rw [if_neg hd]
    exact store32_apply_of_outside h1

/-- `record_write_end` leaves `tail` behind the record. -/
lemma recordWriteEnd_tail {r : RecordRing} {data c : ℕ} (hd : data = 4 ∨ data = r.tail + 4) :
    (r.recordWriteEnd data c).tail = wrap32 (data - 4 + recordUsage c) % r.size := by
  rw [RecordRing.recordWriteEnd]
  by_cases hd4 : data = 4
  · rw [if_pos hd4, hd4]
  · rw [if_neg hd4, show data - 4 = r.tail by omega]

/-! ### The reader -/

/-- `_ring_read_at` at a record. -/
lemma ringReadAt_record {r : RecordRing} {rec : Rec} (hat : rec.At r.buf)
    (hne : rec.off ≠ r.tail) (fuel : ℕ) :
    r.ringReadAt (fuel + 1) rec.off = some (.ok (rec.bytes.length, rec.off + 4)) := by
  rw [RecordRing.ringReadAt, if_neg hne, hat.not_negative, if_neg Bool.false_ne_true, hat.size]

/-- `_ring_shift_offset` at a record. -/
lemma ringShiftOffset_record {r : RecordRing} {rec : Rec} (hat : rec.At r.buf)
    (hne : r.head ≠ r.tail)
    (hpos : isNegative (RecordRing.offsetAfter r.size rec.off (load32 r.buf rec.off)) = false)
    (fuel : ℕ) : r.ringShiftOffset (fuel + 1) rec.off
      = some (.ok (RecordRing.offsetAfter r.size rec.off (load32 r.buf rec.off))) := by
  rw [RecordRing.ringShiftOffset, if_neg hne, hat.not_negative, if_neg Bool.false_ne_true]
  simp only [hpos, Bool.false_eq_true, if_false]

/-! ### Settled rings -/

namespace Settled

variable {r : RecordRing} {live : List Rec}

/-- An empty ring has `head = tail`. -/
lemma head_eq (h : Settled r []) : r.head = r.tail := by
  by_contra hne
  rcases h.layout.front hne with ⟨rec, rest, hl, _⟩ | ⟨hm, ⟨hz, _⟩ | ⟨_, rec, rest, hl, _⟩⟩
  · cases hl
  · have hend : r.head = r.size := h.ended hz (by have := hm.1; omega)
    have := h.layout.head_lt
    omega
  · cases hl

/-- The oldest unread record stands at `head`, or behind a wrap mark. -/
lemma front {rec : Rec} {rest : List Rec} (h : Settled r (rec :: rest)) :
    r.head ≠ r.tail ∧ rec.At r.buf ∧
      (rec.off = r.head ∨ rec.off = 0 ∧ r.tail ≠ 0 ∧ AtMark r.buf r.size r.head r.tail) := by
  have hne : r.head ≠ r.tail := fun he => by cases h.layout.eq_nil he
  refine ⟨hne, h.layout.at_of_mem (.head _), ?_⟩
  rcases h.layout.front hne with ⟨rec', rest', hl, hoff, _⟩ | ⟨hm, hrec⟩
  · obtain ⟨rfl, -⟩ := List.cons.inj hl
    exact Or.inl hoff
  · rcases hrec with ⟨_, hl⟩ | ⟨hz, rec', rest', hl, hoff, _⟩
    · cases hl
    · obtain ⟨rfl, -⟩ := List.cons.inj hl
      exact Or.inr ⟨hoff, hz, hm⟩

/-- Stores outside the used region keep a settled ring. -/
lemma withBuf (h : Settled r live) {buf : Mem}
    (hb : ∀ x, Used r.size r.head r.tail x → buf x = r.buf x) :
    Settled { r with buf := buf } live := by
  refine ⟨h.toRingOk.withBuf hb, fun htail hhead => (h.ended htail hhead).congr fun x h1 h2 => ?_⟩
  have htail : r.tail = 0 := htail
  have hhead : r.head ≠ 0 := hhead
  exact hb x (by rw [Used, if_neg (by omega)]; omega)

/-- `record_read` finds the oldest unread record. -/
lemma recordRead (h : Settled r live) :
    r.recordRead = some (match live with
      | [] => .error .EAGAIN
      | rec :: _ => .ok (rec.bytes.length, rec.off + 4)) := by
  cases live with
  | nil => rw [RecordRing.recordRead, RecordRing.ringReadAt, if_pos h.head_eq]
  | cons rec rest =>
    obtain ⟨hne, hat, hoff | ⟨hoff, hz, hm⟩⟩ := h.front
    · rw [RecordRing.recordRead, ← hoff, ringReadAt_record hat (by rw [hoff]; exact hne)]
    · have hmark : isNegative (load32 r.buf r.head) = true := by rw [hm.2.2]; rfl
      rw [RecordRing.recordRead, RecordRing.ringReadAt, if_neg hne, if_pos hmark, ← hoff,
        ringReadAt_record hat (by rw [hoff]; exact Ne.symm hz)]

/-- With no unread record `record_shift` fails. -/
lemma recordShift_nil (h : Settled r []) : r.recordShift = some (.error .EAGAIN) := by
  rw [RecordRing.recordShift, RecordRing.ringShiftOffset, if_pos h.head_eq]
  rfl

/-- `record_shift` consumes the oldest unread record. -/
lemma recordShift {rec : Rec} {rest : List Rec} (h : Settled r (rec :: rest)) :
    ∃ r', r.recordShift = some (.ok r') ∧ Settled r' rest ∧ r'.size = r.size ∧
      r'.tail = r.tail ∧ r'.buf = r.buf ∧ Advance r.head r.tail r'.head ∧
      r'.head = (rec.off + rec.span) % r.size ∧ r'.generation = incGeneration r.generation := by
  obtain ⟨hne, hat, hfront⟩ := h.front
  have hzero : AtMark r.buf r.size r.head r.tail → rec.off = 0 := fun hm => by
    rcases hfront with hoff | ⟨hoff, _⟩
    · have hneg := hat.not_negative
      rw [hoff, hm.2.2] at hneg
      exact absurd hneg (by decide)
    · exact hoff
  have hready : Ready r rec.off := by
    rcases hfront with hoff | ⟨hoff, hz, hm⟩
    · exact Or.inl ⟨hoff, hne⟩
    · exact Or.inr ⟨hoff, hm, hz⟩
  have hcons := Inv.consumes_of_ready h.toRingOk hready hat.not_negative
  set off := RecordRing.offsetAfter r.size rec.off (load32 r.buf rec.off)
  obtain ⟨hring, hadv⟩ := Inv.ring_consume h.toRingOk hcons
  have hlt := h.size_lt
  have hofflt : off < r.size := hring.layout.head_lt
  have hpos : isNegative off = false := decide_eq_false (by omega)
  refine ⟨{ r with generation := incGeneration r.generation, head := off }, ?_,
    ⟨hring.withGeneration _, fun htail hhead => ?_⟩, rfl, rfl, rfl, hadv, ?_, rfl⟩
  · rw [RecordRing.recordShift]
    rcases hfront with hoff | ⟨_, _, hm⟩
    · rw [← hoff, ringShiftOffset_record hat hne hpos]
      rfl
    · have hmark : isNegative (load32 r.buf r.head) = true := by rw [hm.2.2]; rfl
      rw [RecordRing.ringShiftOffset, if_neg hne, if_pos hmark, ← hzero hm,
        ringShiftOffset_record hat hne hpos]
      rfl
  · -- with `tail = 0` the records lie straight up to the end of the buffer
    have htail : r.tail = 0 := htail
    have hhead : off ≠ 0 := hhead
    obtain ⟨hoff, _, hchain⟩ := h.ended htail (by omega)
    obtain ⟨rec', rest', hl, hend⟩ := hcons
    obtain ⟨rfl, rfl⟩ := List.cons.inj hl
    have hle := hchain.le
    have hend' : off = r.head + rec.span := by
      rw [hend, hoff]
      refine Nat.mod_eq_of_lt ?_
      rcases Nat.lt_or_ge (r.head + rec.span) r.size with h1 | h1
      · exact h1
      · rw [hoff, show r.head + rec.span = r.size by omega, Nat.mod_self] at hend
        exact absurd hend hhead
    show Chain r.buf off rest r.size
    rw [hend']
    exact hchain
  · obtain ⟨rec', rest', hl, hend⟩ := hcons
    obtain ⟨rfl, rfl⟩ := List.cons.inj hl
    exact hend

/-- `record_write_end` appends a record to a settled ring. -/
lemma recordWriteEnd (h : Settled r live) {data c : ℕ} (hc : c < 2147483648)
    (hb : Begun r data (recordUsage c)) :
    Settled (r.recordWriteEnd data c) (live ++ [committed r.buf data c]) := by
  have hring := h.toRingOk.recordWriteEnd hc hb
  refine ⟨hring, fun htail hhead => ?_⟩
  have hlt := h.size_lt
  have hhead_lt := h.layout.head_lt
  have hpos := (committed r.buf data c).span_pos
  have hspan : (committed r.buf data c).span = recordUsage c := by
    rw [Rec.span_eq _ (by simpa using hc), length_committed]
  have hend : data - 4 + recordUsage c ≤ r.size ∧ (data = 4 ∨ data = r.tail + 4) := by
    rcases hb with ⟨rfl, hr⟩ | ⟨rfl, hr⟩
    · exact ⟨by have := hr.1; omega, Or.inr rfl⟩
    · exact ⟨by have := hr.2; omega, Or.inl rfl⟩
  -- `tail` is back at the start, so the record ends at the end of the buffer
  have hfull : data - 4 + recordUsage c = r.size := by
    rw [recordWriteEnd_tail hend.2, wrap32_of_lt (by omega)] at htail
    rcases Nat.lt_or_ge (data - 4 + recordUsage c) r.size with h1 | h1
    · rw [Nat.mod_eq_of_lt h1] at htail
      omega
    · omega
  have hlayout := hring.layout
  rw [htail, recordWriteEnd_size, recordWriteEnd_head] at hlayout
  rw [recordWriteEnd_head] at hhead
  rw [recordWriteEnd_size, recordWriteEnd_head]
  exact hlayout.chain_to_end hhead (by rw [hspan]; exact hfull)

end Settled

end MachinekitHal
