import MachinekitHal.Ring.Record

/-!
The layout of the unread records of a record ring.

A record occupies its size word, its bytes and the padding to `RB_ALIGN`. The
unread records lie one behind the other from `head` to `tail`, in one of two ways.

* *straight*, `head ≤ tail`: one chain of records from `head` to `tail`.
* *wrapped*, `tail < head`: a chain from `head` to a point `E`, then one from `0`
  to `tail`. Either `E` is the end of the buffer, or the wrap mark `-1` stands
  at `E`.

`Chain` is one chain, `Layout` the two cases.

* `Layout.congr`: stores outside the used region keep it.
* `Layout.commit`: a complete record behind `tail` is appended (`Room`).
* `Layout.wrap`: a wrap mark at `tail` moves `tail` to `0` (`WrapRoom`).
* `Layout.front`: what stands at `head` when `head ≠ tail`, and what is left
  when it is consumed.
-/

namespace MachinekitHal

open Bytes

/-- A committed record: the offset of its size word, and its bytes. -/
structure Rec where
  off : ℕ
  bytes : List UInt8
  deriving DecidableEq

namespace Rec

/-- The bytes of storage a record takes: the value of `recordUsage`. -/
def span (r : Rec) : ℕ := (r.bytes.length + 11) / 8 * 8

lemma span_pos (r : Rec) : 8 ≤ r.span := by rw [span]; omega

lemma span_mod (r : Rec) : r.span % 8 = 0 := by rw [span]; omega

lemma length_add_four_le (r : Rec) : r.bytes.length + 4 ≤ r.span := by rw [span]; omega

/-- The record stands in memory: its size word, then its bytes. -/
structure At (m : Mem) (r : Rec) : Prop where
  size : load32 m r.off = r.bytes.length
  data : loadBytes m (r.off + 4) r.bytes.length = r.bytes
  small : r.bytes.length < 2147483648

/-- The size word of a record is no wrap mark. -/
lemma At.not_negative {m : Mem} {r : Rec} (h : r.At m) :
    isNegative (load32 m r.off) = false := by
  have := h.small
  rw [h.size]
  exact decide_eq_false (by omega)

/-- A record depends on its own bytes only. -/
lemma At.congr {m m' : Mem} {r : Rec} (h : r.At m)
    (hm : ∀ x, r.off ≤ x → x < r.off + r.span → m' x = m x) : r.At m' := by
  have hspan := r.length_add_four_le
  refine ⟨?_, ?_, h.small⟩
  · rw [load32_congr fun x h1 h2 => hm x h1 (by omega), h.size]
  · rw [loadBytes_congr fun x h1 h2 => hm x (by omega) (by omega), h.data]

end Rec

/-! ### Chains -/

/-- The records `rs` lie one behind the other from `lo` to `hi`. -/
def Chain (m : Mem) : ℕ → List Rec → ℕ → Prop
  | lo, [], hi => lo = hi
  | lo, r :: rs, hi => r.off = lo ∧ r.At m ∧ Chain m (lo + r.span) rs hi

variable {m m' : Mem} {lo hi : ℕ} {rs : List Rec} {r : Rec}

namespace Chain

lemma le (h : Chain m lo rs hi) : lo ≤ hi := by
  induction rs generalizing lo with
  | nil => exact le_of_eq h
  | cons r rs ih =>
    have := ih h.2.2
    omega

lemma mod_eight (h : Chain m lo rs hi) (hlo : lo % 8 = 0) : hi % 8 = 0 := by
  induction rs generalizing lo with
  | nil => rwa [← h]
  | cons r rs ih =>
    have := r.span_mod
    exact ih h.2.2 (by omega)

/-- A chain depends on the bytes it spans only. -/
lemma congr (h : Chain m lo rs hi) (hm : ∀ x, lo ≤ x → x < hi → m' x = m x) :
    Chain m' lo rs hi := by
  induction rs generalizing lo with
  | nil => exact h
  | cons r rs ih =>
    obtain ⟨rfl, hat, hrest⟩ := h
    have hle := hrest.le
    exact ⟨rfl, hat.congr fun x h1 h2 => hm x h1 (by omega),
      ih hrest fun x h1 h2 => hm x (by omega) h2⟩

/-- A record behind a chain extends it. -/
lemma snoc (h : Chain m lo rs hi) (hoff : r.off = hi) (hat : r.At m) :
    Chain m lo (rs ++ [r]) (hi + r.span) := by
  induction rs generalizing lo with
  | nil =>
    obtain rfl : lo = hi := h
    exact ⟨hoff, hat, rfl⟩
  | cons r' rs ih => exact ⟨h.1, h.2.1, ih h.2.2⟩

/-- A chain ends where its last record does. -/
lemma end_eq (h : Chain m lo (rs ++ [r]) hi) : r.off + r.span = hi := by
  induction rs generalizing lo with
  | nil =>
    obtain ⟨hoff, _, hend⟩ := h
    rw [hoff]
    exact hend
  | cons r' rs ih => exact ih h.2.2

/-- The records of a chain lie inside it. -/
lemma mem (h : Chain m lo rs hi) (hr : r ∈ rs) : lo ≤ r.off ∧ r.off + r.span ≤ hi := by
  induction rs generalizing lo with
  | nil => simp at hr
  | cons r' rs ih =>
    have hle := h.2.2.le
    rcases List.mem_cons.mp hr with rfl | hr'
    · have := h.1
      omega
    · have := ih h.2.2 hr'
      omega

/-- No two records of a chain stand at the same offset. -/
lemma off_ne (h : Chain m lo (r :: rs) hi) {r' : Rec} (hr : r' ∈ rs) : r'.off ≠ r.off := by
  have hoff := h.1
  have hspan := r.span_pos
  have hmem := Chain.mem h.2.2 hr
  omega

lemma at_of_mem (h : Chain m lo rs hi) (hr : r ∈ rs) : r.At m := by
  induction rs generalizing lo with
  | nil => simp at hr
  | cons r' rs ih =>
    rcases List.mem_cons.mp hr with rfl | hr'
    · exact h.2.1
    · exact ih h.2.2 hr'

/-- The records of a chain take eight bytes each. -/
lemma length_le (h : Chain m lo rs hi) :
    lo + 8 * rs.length ≤ hi := by
  induction rs generalizing lo with
  | nil => exact le_of_eq h
  | cons r rs ih =>
    have hrest := ih h.2.2
    have hspan := r.span_pos
    rw [List.length_cons]
    omega

/-- Records of one span lie at equal distances. -/
lemma end_of_span {a : ℕ} (h : Chain m lo rs hi) (ha : ∀ rec ∈ rs, rec.span = a) :
    hi = lo + rs.length * a := by
  induction rs generalizing lo with
  | nil => rw [List.length_nil, Nat.zero_mul, ← h]; rfl
  | cons r rs ih =>
    have hrest := ih h.2.2 fun rec hrec => ha rec (.tail _ hrec)
    rw [hrest, ha r (.head _), List.length_cons, Nat.succ_mul]
    omega

lemma eq_nil (h : Chain m lo rs lo) : rs = [] := by
  cases rs with
  | nil => rfl
  | cons r rs =>
    have hle := h.2.2.le
    have := r.span_pos
    omega

end Chain

/-! ### Layouts -/

/-- The unread records `live` of a ring with the given `size`, `head` and `tail`. -/
inductive Layout (m : Mem) (size head tail : ℕ) : List Rec → Prop where
  | straight {live : List Rec} : head ≤ tail → tail < size → Chain m head live tail →
      Layout m size head tail live
  | wrapped {front back : List Rec} {E : ℕ} : tail < head → head < size → E ≤ size →
      (E < size → load32 m E = wrapMark) → Chain m head front E → Chain m 0 back tail →
      Layout m size head tail (front ++ back)

/-- The addresses the unread records, their padding and the wrap mark may occupy. -/
def Used (size head tail x : ℕ) : Prop :=
  if head ≤ tail then head ≤ x ∧ x < tail else (head ≤ x ∧ x < size) ∨ x < tail

/-- There is room for `a` bytes behind `tail`, and the ring does not become full. -/
def Room (size head tail a : ℕ) : Prop :=
  tail + a ≤ size ∧ (tail < head → tail + a < head) ∧ (head ≤ tail → tail + a < size + head)

/-- There is room for `a` bytes at the start of a ring whose records lie straight. -/
def WrapRoom (head tail a : ℕ) : Prop := head ≤ tail ∧ a < head

/-- A wrap mark stands at `head`: what follows is at offset `0`. -/
def AtMark (m : Mem) (size head tail : ℕ) : Prop :=
  tail < head ∧ head < size ∧ load32 m head = wrapMark

/-- `head'` is where `head` may get to by consuming records: on towards `tail`. -/
def Advance (head tail head' : ℕ) : Prop :=
  (head ≤ tail → head ≤ head' ∧ head' ≤ tail) ∧ (tail < head → head ≤ head' ∨ head' ≤ tail)

variable {size head tail a : ℕ} {live : List Rec}

/-- Less room suffices for less. -/
lemma Room.mono {b : ℕ} (h : Room size head tail a) (hb : b ≤ a) : Room size head tail b := by
  obtain ⟨h1, h2, h3⟩ := h
  exact ⟨by omega, fun h => by have := h2 h; omega, fun h => by have := h3 h; omega⟩

/-- The room behind `tail` is unused. -/
lemma Room.not_used (h : Room size head tail a) {x : ℕ} (h1 : tail ≤ x) (h2 : x < tail + a) :
    ¬ Used size head tail x := by
  obtain ⟨ha, hb, hc⟩ := h
  rw [Used]
  split <;> omega

/-- Consuming records keeps the room behind `tail`. -/
lemma Room.advance {head' : ℕ} (h : Room size head tail a) (hh : head < size)
    (hadv : Advance head tail head') : Room size head' tail a := by
  obtain ⟨h1, h2, h3⟩ := h
  obtain ⟨h4, h5⟩ := hadv
  refine ⟨h1, fun h => ?_, fun h => ?_⟩ <;> omega

/-- Consuming records keeps the room at the start. -/
lemma WrapRoom.advance {head' : ℕ} (h : WrapRoom head tail a)
    (hadv : Advance head tail head') : WrapRoom head' tail a := by
  obtain ⟨h1, h2⟩ := h
  have := hadv.1 h1
  exact ⟨by omega, by omega⟩

/-- A commit never makes a ring with unread records look empty. -/
lemma Room.head_ne (h : Room size head tail a) (hne : head ≠ tail) (hh : head < size) :
    head ≠ (tail + a) % size := by
  obtain ⟨h1, h2, h3⟩ := h
  by_cases he : tail + a = size
  · rw [he, Nat.mod_self]
    omega
  · rw [Nat.mod_eq_of_lt (by omega)]
    omega

/-- The room at the start is unused, and so is what lies behind `tail`. -/
lemma WrapRoom.not_used (h : WrapRoom head tail a) {x : ℕ} (hx : x < a ∨ tail ≤ x) :
    ¬ Used size head tail x := by
  obtain ⟨ha, hb⟩ := h
  rw [Used, if_pos ha]
  omega

/-- The record `r` may be consumed: it stands in memory, and moving `head` to its
end leaves the layout of the records `rest`. -/
structure Consumable (m : Mem) (size head tail : ℕ) (r : Rec) (rest : List Rec) : Prop where
  at_off : r.At m
  layout : Layout m size ((r.off + r.span) % size) tail rest
  advance : Advance head tail ((r.off + r.span) % size)

namespace Layout

lemma tail_lt (h : Layout m size head tail live) : tail < size := by
  cases h with
  | straight h1 h2 _ => exact h2
  | wrapped h1 h2 _ _ _ _ => omega

lemma head_lt (h : Layout m size head tail live) : head < size := by
  cases h with
  | straight h1 h2 _ => omega
  | wrapped _ h2 _ _ _ _ => exact h2

lemma empty (h : tail < size) : Layout m size tail tail [] := .straight le_rfl h rfl

/-- Stores outside the used region keep the layout. -/
lemma congr (h : Layout m size head tail live) (halign : size % 8 = 0) (hhead : head % 8 = 0)
    (hm : ∀ x, Used size head tail x → m' x = m x) : Layout m' size head tail live := by
  cases h with
  | straight h1 h2 hc =>
    exact .straight h1 h2 (hc.congr fun x h3 h4 => hm x (by rw [Used, if_pos h1]; omega))
  | @wrapped front back E h1 h2 hE hmark hf hb =>
    have hused : ∀ x, (head ≤ x ∧ x < size) ∨ x < tail → m' x = m x := fun x hx =>
      hm x (by rw [Used, if_neg (by omega)]; exact hx)
    have hE8 := hf.mod_eight hhead
    have hle := hf.le
    refine .wrapped h1 h2 hE (fun h => ?_) (hf.congr fun x h3 h4 => hused x (by omega))
      (hb.congr fun x h3 h4 => hused x (by omega))
    -- the mark ends before the end of the buffer, both being aligned
    rw [load32_congr fun x h3 h4 => hused x (by omega), hmark h]

/-- The unread records lie in the used region. -/
lemma mem_used (h : Layout m size head tail live) (hr : r ∈ live) {x : ℕ}
    (h1 : r.off ≤ x) (h2 : x < r.off + r.span) : Used size head tail x := by
  cases h with
  | straight h3 h4 hc =>
    have := hc.mem hr
    rw [Used, if_pos h3]
    omega
  | wrapped h3 h4 hE _ hf hb =>
    rw [Used, if_neg (by omega)]
    rcases List.mem_append.mp hr with hr | hr
    · have := hf.mem hr
      omega
    · have := hb.mem hr
      omega

/-- The unread records stand in memory. -/
lemma at_of_mem (h : Layout m size head tail live) (hr : r ∈ live) : r.At m := by
  cases h with
  | straight _ _ hc => exact hc.at_of_mem hr
  | wrapped _ _ _ _ hf hb =>
    rcases List.mem_append.mp hr with hr | hr
    · exact hf.at_of_mem hr
    · exact hb.at_of_mem hr

lemma length_le (h : Layout m size head tail live) : live.length ≤ size := by
  cases h with
  | straight _ htail hchain =>
    have := hchain.length_le
    omega
  | wrapped htail hhead hend _ hfront hback =>
    have h1 := hfront.length_le
    have h2 := hback.length_le
    rw [List.length_append]
    omega

/-- The unread records end inside the storage. -/
lemma span_le (h : Layout m size head tail live) (hr : r ∈ live) : r.off + r.span ≤ size := by
  cases h with
  | straight _ htail hchain =>
    have hmem := hchain.mem hr
    omega
  | wrapped htail hhead hend _ hfront hback =>
    rcases List.mem_append.mp hr with hr | hr
    · have hmem := hfront.mem hr
      omega
    · have hmem := hback.mem hr
      omega

/-- No two unread records stand at the same offset. -/
lemma off_ne {rest : List Rec} (h : Layout m size head tail live) (hl : live = r :: rest)
    {r' : Rec} (hr : r' ∈ rest) : r'.off ≠ r.off := by
  cases h with
  | straight _ _ hc =>
    subst hl
    exact hc.off_ne hr
  | @wrapped front back E h1 _ _ _ hf hb =>
    cases front with
    | nil =>
      rw [List.nil_append] at hl
      subst hl
      exact hb.off_ne hr
    | cons r₀ front =>
      obtain ⟨rfl, rfl⟩ := List.cons.inj hl
      rcases List.mem_append.mp hr with hr | hr
      · exact hf.off_ne hr
      · -- the records from `0` end before `head`
        have hmem := hb.mem hr
        have hspan := r'.span_pos
        have hoff := hf.1
        omega

/-- With `tail` at the start, a last record that ends at the end of the buffer has no
wrap mark behind it. -/
lemma chain_to_end (h : Layout m size head 0 (live ++ [r])) (hhead : head ≠ 0)
    (hend : r.off + r.span = size) : Chain m head (live ++ [r]) size := by
  obtain ⟨all, hall⟩ : ∃ all, all = live ++ [r] := ⟨_, rfl⟩
  rw [← hall] at h ⊢
  cases h with
  | straight h1 _ _ => exact absurd (Nat.le_zero.mp h1) hhead
  | @wrapped front back E _ _ _ _ hf hb =>
    obtain rfl := hb.eq_nil
    rw [List.append_nil] at hall ⊢
    subst hall
    rw [← hend, hf.end_eq]
    exact hf

/-- A ring with `head = tail` holds no record. -/
lemma eq_nil (h : Layout m size head tail live) (he : head = tail) : live = [] := by
  cases h with
  | straight h1 h2 hc =>
    subst he
    exact hc.eq_nil
  | wrapped h1 _ _ _ _ _ => omega

/-- A complete record in the room behind `tail` is appended by moving `tail`. -/
lemma commit (h : Layout m size head tail live) (hroom : Room size head tail r.span)
    (hoff : r.off = tail) (hat : r.At m) :
    Layout m size head ((tail + r.span) % size) (live ++ [r]) := by
  obtain ⟨h1, h2, h3⟩ := hroom
  have hspan := r.span_pos
  by_cases hend : tail + r.span = size
  · -- the record ends at the end of the buffer: `tail` becomes `0`, the layout wraps
    rw [hend, Nat.mod_self]
    cases h with
    | straight h4 h5 hc =>
      have hpos : 0 < head := by have := h3 h4; omega
      have hc' := hc.snoc hoff hat
      rw [hend] at hc'
      have hnil : Chain m 0 [] 0 := rfl
      have := Layout.wrapped hpos (by omega) le_rfl (by omega) hc' hnil
      simpa using this
    | wrapped h4 h5 _ _ _ _ => have := h2 h4; omega
  · rw [Nat.mod_eq_of_lt (by omega)]
    cases h with
    | straight h4 h5 hc => exact .straight (by omega) (by omega) (hc.snoc hoff hat)
    | wrapped h4 h5 hE hmark hf hb =>
      rw [List.append_assoc]
      exact .wrapped (h2 h4) h5 hE hmark hf (hb.snoc hoff hat)

/-- A wrap mark at `tail` lets `tail` move to the start of the buffer. -/
lemma wrap (h : Layout m size head tail live) (hroom : WrapRoom head tail a)
    (hmark : load32 m tail = wrapMark) : Layout m size head 0 live := by
  obtain ⟨h1, h2⟩ := hroom
  cases h with
  | straight h3 h4 hc =>
    have hnil : Chain m 0 [] 0 := rfl
    have := Layout.wrapped (show 0 < head by omega) (show head < size by omega)
      h4.le (fun _ => hmark) hc hnil
    simpa using this
  | wrapped h3 _ _ _ _ _ => omega

/-- What stands at `head` of a ring with `head ≠ tail`: a record, or a wrap mark
followed by a record at `0`, or a wrap mark with nothing behind it yet. Consuming
the record moves `head` to its end. -/
lemma front (h : Layout m size head tail live) (hne : head ≠ tail) :
    (∃ r rest, live = r :: rest ∧ r.off = head ∧ Consumable m size head tail r rest) ∨
      AtMark m size head tail ∧
        (tail = 0 ∧ live = [] ∨
          tail ≠ 0 ∧ ∃ r rest, live = r :: rest ∧ r.off = 0 ∧
            Consumable m size head tail r rest) := by
  cases h with
  | straight h1 h2 hc =>
    cases live with
    | nil => exact absurd hc hne
    | cons r rest =>
      obtain ⟨hoff, hat, hrest⟩ := hc
      have hle := hrest.le
      have hmod : (r.off + r.span) % size = head + r.span := by
        rw [hoff, Nat.mod_eq_of_lt (by omega)]
      refine Or.inl ⟨r, rest, rfl, hoff, hat, ?_, ?_⟩ <;> rw [hmod]
      · exact .straight hle h2 hrest
      · exact ⟨fun _ => by omega, fun _ => by omega⟩
  | @wrapped front back E h1 h2 hE hmark hf hb =>
    cases front with
    | cons r front =>
      obtain ⟨hoff, hat, hrest⟩ := hf
      have hle := hrest.le
      have hspan := r.span_pos
      by_cases hend : head + r.span = size
      · -- the last record before the end of the buffer
        have hmod : (r.off + r.span) % size = 0 := by rw [hoff, hend, Nat.mod_self]
        obtain rfl : E = size := by omega
        rw [hend] at hrest
        refine Or.inl ⟨r, front ++ back, rfl, hoff, hat, ?_, ?_⟩ <;> rw [hmod]
        · rw [hrest.eq_nil, List.nil_append]
          exact .straight (Nat.zero_le _) (by omega) hb
        · exact ⟨fun _ => by omega, fun _ => by omega⟩
      · have hmod : (r.off + r.span) % size = head + r.span := by
          rw [hoff, Nat.mod_eq_of_lt (by omega)]
        refine Or.inl ⟨r, front ++ back, rfl, hoff, hat, ?_, ?_⟩ <;> rw [hmod]
        · exact .wrapped (by omega) (by omega) hE hmark hrest hb
        · exact ⟨fun _ => by omega, fun _ => by omega⟩
    | nil =>
      obtain rfl : head = E := hf
      refine Or.inr ⟨⟨h1, h2, hmark h2⟩, ?_⟩
      cases back with
      | nil => exact Or.inl ⟨hb.symm, rfl⟩
      | cons r back =>
        obtain ⟨hoff, hat, hrest⟩ := hb
        have hle := hrest.le
        have hspan := r.span_pos
        have hmod : (r.off + r.span) % size = 0 + r.span := by
          rw [hoff, Nat.mod_eq_of_lt (by omega)]
        refine Or.inr ⟨by omega, r, back, rfl, hoff, hat, ?_, ?_⟩ <;> rw [hmod]
        · exact .straight hle (by omega) hrest
        · exact ⟨fun _ => by omega, fun _ => by omega⟩

/-- Behind a wrap mark at `head` the records lie from the start of the buffer on. -/
lemma chain_of_atMark (h : Layout m size head tail live) (hm : AtMark m size head tail) :
    Chain m 0 live tail := by
  cases h with
  | straight hle _ _ => exact absurd hm.1 (Nat.not_lt.2 hle)
  | @wrapped front back E _ _ _ _ hfront hback =>
    cases front with
    | nil => exact hback
    | cons r front =>
      have hneg := hfront.2.1.not_negative
      rw [hfront.1, hm.2.2] at hneg
      exact absurd hneg (by decide)

/-- A wrap mark at `head` with `tail` at the start: the writer has not yet published
the record behind the mark. -/
lemma eq_nil_of_atMark (h : Layout m size head tail live) (hm : AtMark m size head tail)
    (ht : tail = 0) : live = [] := by
  rcases h.front (by have := hm.1; omega) with ⟨r, rest, _, hoff, hc⟩ | ⟨_, hrec⟩
  · -- a record at `head` has a size word that is not the mark
    have hneg := hc.at_off.not_negative
    rw [hoff, hm.2.2] at hneg
    exact absurd hneg (by decide)
  · rcases hrec with ⟨_, hnil⟩ | ⟨hnz, _⟩
    · exact hnil
    · exact absurd ht hnz

end Layout

end MachinekitHal
