import MachinekitHal.Ring.RecordSpace

/-!
A record ring all of whose records have one size.

The storage is then a row of slots, each as long as a record takes, and a rest at its end
that is never written to.

* `Slots`: the slots of the unread records. `Slots.push`, `Slots.pushFirst`, `Slots.pop`,
  `Slots.popFirst`: a record is written behind the others, or at the start; one is consumed at
  `head`, or behind the wrap mark.
* `Uniform`: such a ring. `Uniform.recordWriteBegin`: there is room while two slots are left.
* `Uniform.commit`, `Uniform.recordShift`, `Uniform.recordFlushReader`: what the operations do.
-/

namespace MachinekitHal

open Bytes Word

/-! ### The slots -/

/-- The slots of `u` unread records of `a` bytes each: from slot `i` on, and behind the last slot
again from the first one on. -/
def Slots (a size head tail u : ℕ) : Prop :=
  ∃ i k, head = i * a ∧ tail = k * a ∧ (k = i + u ∨ k < i ∧ u + i = size / a + k)

namespace Slots

variable {a size head tail u : ℕ}

lemma mul_le_size (ha : 0 < a) {i : ℕ} : i * a ≤ size ↔ i ≤ size / a :=
  (Nat.le_div_iff_mul_le ha).symm

/-- A record is written behind the others. -/
lemma push (h : Slots a size head tail u) (ha : 0 < a) (hhead : head < size)
    (hroom : Room size head tail a) : Slots a size head ((tail + a) % size) (u + 1) := by
  obtain ⟨i, k, rfl, rfl, hcount⟩ := h
  obtain ⟨hfit, hwrapped, hstraight⟩ := hroom
  have hnext : k * a + a = (k + 1) * a := (Nat.succ_mul k a).symm
  rw [hnext] at hfit hwrapped hstraight ⊢
  rcases Nat.lt_or_ge ((k + 1) * a) size with hlt | hge
  · rw [Nat.mod_eq_of_lt hlt]
    refine ⟨i, k + 1, rfl, rfl, ?_⟩
    rcases hcount with rfl | ⟨hki, hcount⟩
    · exact .inl (by omega)
    · have hlt := Nat.lt_of_mul_lt_mul_right (hwrapped (Nat.mul_lt_mul_of_pos_right hki ha))
      exact .inr ⟨hlt, by omega⟩
  · -- the record ends where the storage does
    obtain hfull : (k + 1) * a = size := le_antisymm hfit hge
    have hdiv : size / a = k + 1 := by rw [← hfull, Nat.mul_div_cancel _ ha]
    rw [hfull, Nat.mod_self]
    refine ⟨i, 0, rfl, (Nat.zero_mul a).symm, .inr ?_⟩
    rcases hcount with rfl | ⟨hki, hcount⟩
    · have hpos := hstraight (Nat.mul_le_mul_right a (Nat.le_add_right i u))
      refine ⟨Nat.pos_of_ne_zero fun hzero => ?_, by omega⟩
      rw [hfull, hzero, Nat.zero_mul] at hpos
      omega
    · have hlt := hwrapped (Nat.mul_lt_mul_of_pos_right hki ha)
      omega

/-- A record is written at the start, since no slot is left behind the others. -/
lemma pushFirst (h : Slots a size head tail u) (ha : 0 < a) (htail : tail < size)
    (hno : size < tail + a) (hroom : WrapRoom head tail a) : Slots a size head a (u + 1) := by
  obtain ⟨i, k, rfl, rfl, hcount⟩ := h
  obtain ⟨hle, hlt⟩ := hroom
  have hdiv : size / a = k := by
    refine le_antisymm (Nat.lt_succ_iff.1 ((Nat.div_lt_iff_lt_mul ha).2 ?_))
      ((mul_le_size ha).1 htail.le)
    rw [Nat.succ_mul]
    exact hno
  have hik : i ≤ k := Nat.le_of_mul_le_mul_right hle ha
  have hone : 1 < i := Nat.lt_of_mul_lt_mul_right (by rw [Nat.one_mul]; exact hlt)
  refine ⟨i, 1, rfl, (Nat.one_mul a).symm, .inr ⟨hone, ?_⟩⟩
  rcases hcount with rfl | ⟨hki, -⟩ <;> omega

/-- The record at `head` is consumed. -/
lemma pop (h : Slots a size head tail (u + 1)) (ha : 0 < a) (htail : tail < size)
    (hfit : head + a ≤ size) : Slots a size ((head + a) % size) tail u := by
  obtain ⟨i, k, rfl, rfl, hcount⟩ := h
  have hnext : i * a + a = (i + 1) * a := (Nat.succ_mul i a).symm
  rw [hnext] at hfit ⊢
  rcases Nat.lt_or_ge ((i + 1) * a) size with hlt | hge
  · rw [Nat.mod_eq_of_lt hlt]
    exact ⟨i + 1, k, rfl, rfl, by omega⟩
  · -- it was the last record in front of the end of the storage
    obtain hfull : (i + 1) * a = size := le_antisymm hfit hge
    have hdiv : size / a = i + 1 := by rw [← hfull, Nat.mul_div_cancel _ ha]
    have hk : k < i + 1 := Nat.lt_of_mul_lt_mul_right (hfull ▸ htail)
    rw [hfull, Nat.mod_self]
    exact ⟨0, k, (Nat.zero_mul a).symm, rfl, by omega⟩

/-- The record behind the wrap mark is consumed. -/
lemma popFirst (htail : tail = (u + 1) * a) : Slots a size a tail u :=
  ⟨1, u + 1, (Nat.one_mul a).symm, htail, .inl (Nat.add_comm u 1)⟩

end Slots

/-! ### The ring -/

/-- The unread records of the ring have `c` bytes each. -/
structure Uniform (c : ℕ) (r : RecordRing) (live : List Rec) : Prop extends Settled r live where
  length_eq : ∀ rec ∈ live, rec.bytes.length = c
  slots : Slots (recordUsage c) r.size r.head r.tail live.length

lemma recordUsage_pos {c : ℕ} (hc : c < 2147483648) : 0 < recordUsage c := by
  rw [recordUsage_small hc]
  omega

/-- Which place `record_write_begin` hands out. -/
lemma recordWriteBegin_place {r : RecordRing} {c data : ℕ} (h : r.Bounded)
    (hc : recordUsage c ≤ r.size) (hok : r.recordWriteBegin c = .ok data) :
    r.tail + recordUsage c ≤ r.size ∧ data = r.tail + 4 ∨
      r.size < r.tail + recordUsage c ∧ data = 4 := by
  have hlt := h.size_lt
  have htail := h.tail_lt
  rw [RecordRing.recordWriteBegin, wrap32_of_lt (by omega)] at hok
  split_ifs at hok with hrange hfree hwrap hroom
  · exact .inr ⟨hwrap, (Except.ok.inj hok).symm⟩
  · exact .inl ⟨Nat.le_of_not_lt hwrap, (Except.ok.inj hok).symm⟩

namespace Uniform

variable {c : ℕ} {r : RecordRing} {live : List Rec}

/-- A ring that was just set up. -/
lemma fresh {size : ℕ} {buf : Mem} (hmod : size % 64 = 0) (hpos : 0 < size)
    (hlt : size < 2147483648) : Uniform c (.fresh size buf) [] where
  size_mod := show size % 8 = 0 by omega
  size_lt := hlt
  head_mod := rfl
  tail_mod := rfl
  layout := .empty hpos
  ended := fun _ hhead => absurd rfl hhead
  length_eq := fun _ hrec => absurd hrec List.not_mem_nil
  slots := ⟨0, 0, (Nat.zero_mul _).symm, (Nat.zero_mul _).symm, .inl rfl⟩

/-- While two slots are left there is room for a record. -/
lemma recordWriteBegin (h : Uniform c r live) (hc : c < 2147483648)
    (hroom : live.length + 2 ≤ r.size / recordUsage c) :
    ∃ data, r.recordWriteBegin c = .ok data := by
  have ha := recordUsage_pos hc
  have htail := h.layout.tail_lt
  have hhead := h.layout.head_lt
  have hlt := h.size_lt
  have hb := RecordRing.Bounded.of_ringOk h.toRingOk
  have hsize : (live.length + 2) * recordUsage c ≤ r.size := (Slots.mul_le_size ha).2 hroom
  rw [Nat.add_mul, Nat.two_mul] at hsize
  rw [recordWriteBegin_ok hb]
  refine ⟨by omega, ?_⟩
  obtain ⟨i, k, hi, hk, rfl | ⟨hki, hcount⟩⟩ := h.slots
  · rw [Nat.add_mul, ← hi] at hk
    rw [freeSpace_straight (by omega) htail hlt]
    refine ⟨by omega, ?_⟩
    rcases Nat.lt_or_ge r.size (r.tail + recordUsage c) with hno | hfit
    · -- the last slot is taken, so two slots are free in front of `head`
      have hslot : ¬ i + live.length + 1 ≤ r.size / recordUsage c := fun hle => by
        have hfit := (Slots.mul_le_size ha).2 hle
        rw [Nat.add_mul, Nat.add_mul, Nat.one_mul] at hfit
        omega
      have htwo := Nat.mul_le_mul_right (recordUsage c) (show 2 ≤ i by omega)
      exact .inr (by omega)
    · exact .inl hfit
  · have htwo := Nat.mul_le_mul_right (recordUsage c) (show k + 2 ≤ i by omega)
    rw [Nat.add_mul, Nat.two_mul, ← hk, ← hi] at htwo
    rw [freeSpace_wrapped (by omega) hhead hlt]
    exact ⟨by omega, .inl (by omega)⟩

/-- The record that was begun is filled in and committed. -/
lemma commit (h : Uniform c r live) (hc : c < 2147483648) {data : ℕ}
    (hok : r.recordWriteBegin c = .ok data) {buf : Mem}
    (hbuf : ∀ x, Used r.size r.head r.tail x → buf x = r.buf x) :
    Uniform c ({ r with buf := buf }.recordWriteEnd data c)
      (live ++ [committed buf data c]) := by
  have ha := recordUsage_pos hc
  have htail := h.layout.tail_lt
  have hhead := h.layout.head_lt
  have hlt := h.size_lt
  obtain ⟨-, hbegun⟩ := h.toRingOk.recordWriteBegin (by omega) hok
  have hle : recordUsage c ≤ r.size :=
    ((recordWriteBegin_ok (.of_ringOk h.toRingOk)).1 ⟨data, hok⟩).1
  have hplace := recordWriteBegin_place (.of_ringOk h.toRingOk) hle hok
  have hdata : data = 4 ∨ data = r.tail + 4 := by omega
  have hsettled : Settled { r with buf := buf } live := h.toSettled.withBuf hbuf
  refine ⟨hsettled.recordWriteEnd hc hbegun, fun rec hrec => ?_, ?_⟩
  · rcases List.mem_append.1 hrec with hold | hnew
    · exact h.length_eq rec hold
    · rw [List.mem_singleton.1 hnew, length_committed]
  · rw [recordWriteEnd_size, recordWriteEnd_head,
      recordWriteEnd_tail (r := { r with buf := buf }) hdata, List.length_append,
      List.length_singleton]
    show Slots (recordUsage c) r.size r.head (wrap32 (data - 4 + recordUsage c) % r.size) _
    rcases hplace with ⟨hfit, hd⟩ | ⟨hno, hd⟩
    · rw [hd, Nat.add_sub_cancel, wrap32_of_lt (by omega)]
      refine h.slots.push ha hhead ?_
      rcases hbegun with ⟨-, hroom⟩ | ⟨hfour, hroom⟩
      · exact hroom
      · have hwrap := hroom.1
        exact ⟨hfit, fun hlt => absurd hlt (by omega), fun _ => by have := hroom.2; omega⟩
    · have hwrap : WrapRoom r.head r.tail (recordUsage c) := by
        rcases hbegun with ⟨-, hroom⟩ | ⟨-, hroom⟩
        · exact absurd hroom.1 (Nat.not_le.2 hno)
        · exact hroom
      have hsmall := hwrap.2
      rw [hd, Nat.sub_self, Nat.zero_add, wrap32_of_lt (by omega), Nat.mod_eq_of_lt (by omega)]
      exact h.slots.pushFirst ha htail hno hwrap

/-- `record_shift` consumes the oldest record. -/
lemma recordShift (hc : c < 2147483648) {rec : Rec} {rest : List Rec}
    (h : Uniform c r (rec :: rest)) :
    ∃ r', r.recordShift = some (.ok r') ∧ Uniform c r' rest ∧ r'.size = r.size ∧
      r'.buf = r.buf := by
  obtain ⟨r', hshift, hsettled, hsize, htail, hbuf, -, hhead, -⟩ := h.toSettled.recordShift
  have ha := recordUsage_pos hc
  have hspan : ∀ rec' ∈ rec :: rest, rec'.span = recordUsage c := fun rec' hrec => by
    rw [Rec.span_eq rec' (by rw [h.length_eq rec' hrec]; exact hc), h.length_eq rec' hrec]
  refine ⟨r', hshift, ⟨hsettled, fun rec' hrec => h.length_eq rec' (.tail _ hrec),
    ?_⟩, hsize, hbuf⟩
  have hslots := h.slots
  rw [List.length_cons] at hslots
  rw [hsize, htail, hhead, hspan rec List.mem_cons_self]
  obtain ⟨-, -, hoff | ⟨hoff, -, hmark⟩⟩ := h.toSettled.front
  · have hend := h.layout.span_le (List.mem_cons_self (a := rec))
    rw [hspan rec (.head _)] at hend
    rw [hoff] at hend ⊢
    exact hslots.pop ha h.layout.tail_lt hend
  · have hchain := (h.layout.chain_of_atMark hmark).end_of_span hspan
    rw [Nat.zero_add, List.length_cons] at hchain
    have hsmall : recordUsage c ≤ r.tail := by
      rw [hchain]
      exact Nat.le_mul_of_pos_left _ (Nat.succ_pos _)
    have hlt := h.layout.tail_lt
    rw [hoff, Nat.zero_add, Nat.mod_eq_of_lt (by omega)]
    exact Slots.popFirst hchain

/-- `record_flush_reader` consumes them all. -/
lemma recordFlushReader (hc : c < 2147483648) {fuel : ℕ} (h : Uniform c r live)
    (hfuel : live.length < fuel) :
    ∃ r', RecordRing.recordFlushReader fuel r = some r' ∧ Uniform c r' [] ∧
      r'.size = r.size := by
  induction live generalizing r fuel with
  | nil =>
    obtain ⟨k, rfl⟩ : ∃ k, fuel = k + 1 := ⟨fuel - 1, by omega⟩
    refine ⟨r, ?_, h, rfl⟩
    rw [RecordRing.recordFlushReader, h.toSettled.recordShift_nil]
  | cons rec rest ih =>
    rw [List.length_cons] at hfuel
    obtain ⟨k, rfl⟩ : ∃ k, fuel = k + 1 := ⟨fuel - 1, by omega⟩
    obtain ⟨r', hshift, hrest, hsize, -⟩ := h.recordShift hc
    obtain ⟨r'', hflush, hempty, hsize'⟩ := ih hrest (show rest.length < k by omega)
    refine ⟨r'', ?_, hempty, hsize'.trans hsize⟩
    rw [RecordRing.recordFlushReader, hshift]
    exact hflush

end Uniform

end MachinekitHal
