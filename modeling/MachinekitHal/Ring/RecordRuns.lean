import MachinekitHal.Lib.Runs
import MachinekitHal.Ring.RecordOps

/-!
Record rings between calls.

* `RingOp`, `RingSys.step`: the calls on a record ring, whole ones as steps, and the bytes a
  writer stores between `record_write_begin` and `record_write_end`. Beside the ring stands
  the history: the committed records and how many of them were consumed or flushed.
* `RecordRing.Bounded`: head and tail are aligned and inside the storage. It holds in every
  run, also when a requested size wraps.
* `RingSys.Sound`: the unread records are laid out in the ring. It holds in every run in
  which no requested size wraps (`sizeTaken`).
-/

namespace MachinekitHal

open Bytes Word Runs

/-- A record ring, the write that is begun (data pointer and size), the committed records
and the number of those that were consumed or flushed. -/
structure RingSys where
  ring : RecordRing
  begun : Option (ℕ × ℕ)
  log : List Rec
  shifted : ℕ

/-- The calls on a record ring, and the stores of the writer to what it was given. -/
inductive RingOp where
  | writeBegin (sz : ℕ)
  | fill (i : ℕ) (bs : List UInt8)
  | writeEnd (sz : ℕ)
  | shift
  | flush
  deriving DecidableEq

namespace RingSys

/-- The ring before the first call. -/
def init (ring : RecordRing) : RingSys := { ring := ring, begun := none, log := [], shifted := 0 }

/-- The records committed and neither consumed nor flushed. -/
def unread (s : RingSys) : List Rec := s.log.drop s.shifted

/-- One call; `none` if it may not be made or does not return. -/
def step (s : RingSys) : RingOp → Option RingSys
  | .writeBegin sz =>
    if sz < 4294967296 then
      match s.ring.recordWriteBegin sz with
      | .ok data => some { s with begun := some (data, sz) }
      | .error _ => some { s with begun := none }
    else none
  | .fill i bs =>
    match s.begun with
    | some (data, sz) =>
      if i + bs.length ≤ sz then
        some { s with ring := { s.ring with buf := storeBytes s.ring.buf (data + i) bs } }
      else none
    | none => none
  | .writeEnd sz =>
    match s.begun with
    | some (data, max) =>
      if sz ≤ max then
        some { s with ring := s.ring.recordWriteEnd data sz
                      begun := none
                      log := s.log ++ [committed s.ring.buf data sz] }
      else none
    | none => none
  | .shift =>
    match s.ring.recordShift with
    | some (.ok ring) => some { s with ring := ring, shifted := s.shifted + 1 }
    | some (.error _) => some s
    | none => none
  | .flush => some { s with ring := s.ring.recordFlush, shifted := s.log.length }

end RingSys

/-- The calls of `record_write`. -/
def recordWriteCalls (bs : List UInt8) : List RingOp :=
  [.writeBegin bs.length, .fill 0 bs, .writeEnd bs.length]

/-- The ring before the first call, with any storage. -/
abbrev RingReach (ok : RingOp → Bool) (size : ℕ) (buf : Mem) : RingSys → Prop :=
  Reach RingSys.step (fun _ a => ok a = true) (.init (.fresh size buf))

/-! ### Bounds -/

/-- Head and tail are aligned and inside the storage. -/
structure RecordRing.Bounded (r : RecordRing) : Prop where
  size_mod : r.size % 8 = 0
  size_lt : r.size < 2147483648
  head_mod : r.head % 8 = 0
  tail_mod : r.tail % 8 = 0
  head_lt : r.head < r.size
  tail_lt : r.tail < r.size

/-- Rounding gives a multiple of `RB_ALIGN`, also where it wraps. -/
lemma sizeAligned_mod {x : ℕ} (hx : x < 4294967296) : sizeAligned x % 8 = 0 := by
  rw [sizeAligned, rbAlign, alignUp_eight hx]
  split_ifs <;> omega

/-- An aligned offset moved on by an aligned distance. -/
lemma offset_mod {size x y : ℕ} (hsize : size % 8 = 0) (hx : x % 8 = 0) (hy : y % 8 = 0) :
    wrap32 (x + y) % size % 8 = 0 := by
  have hdvd : 8 ∣ size := Nat.dvd_of_mod_eq_zero hsize
  have hsum : wrap32 (x + y) % 8 = 0 := by
    rw [wrap32]
    omega
  exact Nat.mod_eq_zero_of_dvd ((Nat.dvd_mod_iff hdvd).2 (Nat.dvd_of_mod_eq_zero hsum))

namespace RecordRing.Bounded

variable {r r' : RecordRing}

lemma fresh {size : ℕ} {buf : Mem} (hmod : size % 64 = 0) (hpos : 0 < size)
    (hlt : size < 2147483648) : (RecordRing.fresh size buf).Bounded :=
  ⟨show size % 8 = 0 by omega, hlt, rfl, rfl, hpos, hpos⟩

/-- A ring whose records are laid out. -/
lemma of_ringOk {live : List Rec} (h : RingOk r live) : r.Bounded :=
  ⟨h.size_mod, h.size_lt, h.head_mod, h.tail_mod, h.layout.head_lt, h.layout.tail_lt⟩

/-- `record_write_end` leaves `tail` inside the storage. -/
lemma recordWriteEnd (h : r.Bounded) (data sz : ℕ) : (r.recordWriteEnd data sz).Bounded := by
  have husage : recordUsage sz % 8 = 0 := sizeAligned_mod (wrap32_lt _)
  have hpos : 0 < r.size := by
    have hlt := h.head_lt
    omega
  by_cases hd : data = 4
  · rw [RecordRing.recordWriteEnd, if_pos hd]
    exact ⟨h.size_mod, h.size_lt, h.head_mod, offset_mod h.size_mod rfl husage, h.head_lt,
      Nat.mod_lt _ hpos⟩
  · rw [RecordRing.recordWriteEnd, if_neg hd]
    exact ⟨h.size_mod, h.size_lt, h.head_mod, offset_mod h.size_mod h.tail_mod husage, h.head_lt,
      Nat.mod_lt _ hpos⟩

/-- What `_ring_shift_offset` returns is inside the storage. -/
lemma ringShiftOffset (h : r.Bounded) : ∀ {fuel off new : ℕ}, off % 8 = 0 →
    r.ringShiftOffset fuel off = some (.ok new) → new % 8 = 0 ∧ new < r.size
  | 0, _, _, _, hs => by simp [RecordRing.ringShiftOffset] at hs
  | fuel + 1, off, new, hoff, hs => by
      rw [RecordRing.ringShiftOffset] at hs
      split_ifs at hs with hempty hneg
      · simp at hs
      · exact ringShiftOffset h rfl hs
      · simp only at hs
        split_ifs at hs
        · simp at hs
        · simp only [Option.some.injEq, Except.ok.injEq] at hs
          obtain rfl := hs
          have hlt := h.head_lt
          exact ⟨offset_mod h.size_mod hoff (sizeAligned_mod (wrap32_lt _)),
            Nat.mod_lt _ (by omega)⟩

/-- `record_shift` leaves `head` inside the storage. -/
lemma recordShift (h : r.Bounded) (hs : r.recordShift = some (.ok r')) : r'.Bounded := by
  rw [RecordRing.recordShift, Option.map_eq_some_iff] at hs
  obtain ⟨x, hx, hr⟩ := hs
  cases x with
  | error e => cases hr
  | ok off =>
    cases hr
    obtain ⟨hmod, hlt⟩ := h.ringShiftOffset h.head_mod hx
    exact ⟨h.size_mod, h.size_lt, hmod, h.tail_mod, hlt, h.tail_lt⟩

/-- Every call keeps head and tail inside the storage. -/
lemma step {s t : RingSys} {a : RingOp} (h : s.ring.Bounded) (hs : s.step a = some t) :
    t.ring.Bounded ∧ t.ring.size = s.ring.size := by
  cases a with
  | writeBegin sz =>
    simp only [RingSys.step] at hs
    split_ifs at hs
    split at hs
    · cases hs
      exact ⟨h, rfl⟩
    · cases hs
      exact ⟨h, rfl⟩
  | fill i bs =>
    simp only [RingSys.step] at hs
    split at hs
    · split_ifs at hs
      cases hs
      exact ⟨⟨h.size_mod, h.size_lt, h.head_mod, h.tail_mod, h.head_lt, h.tail_lt⟩, rfl⟩
    · cases hs
  | writeEnd sz =>
    simp only [RingSys.step] at hs
    split at hs
    · split_ifs at hs
      cases hs
      exact ⟨h.recordWriteEnd _ _, recordWriteEnd_size _ _ _⟩
    · cases hs
  | shift =>
    simp only [RingSys.step] at hs
    split at hs
    · next ring hshift =>
      cases hs
      refine ⟨h.recordShift hshift, ?_⟩
      rw [RecordRing.recordShift, Option.map_eq_some_iff] at hshift
      obtain ⟨x, -, hr⟩ := hshift
      cases x with
      | error e => cases hr
      | ok off =>
        cases hr
        rfl
    · cases hs
      exact ⟨h, rfl⟩
    · cases hs
  | flush =>
    cases hs
    exact ⟨⟨h.size_mod, h.size_lt, h.tail_mod, h.tail_mod, h.tail_lt, h.tail_lt⟩, rfl⟩

/-- Head and tail are inside the storage in every run. -/
theorem of_reach {size : ℕ} {buf : Mem} {ok : RingOp → Bool} {s : RingSys} (hmod : size % 64 = 0)
    (hpos : 0 < size) (hlt : size < 2147483648) (hr : RingReach ok size buf s) :
    s.ring.Bounded ∧ s.ring.size = size := by
  refine hr.invariant (P := fun s => s.ring.Bounded ∧ s.ring.size = size)
    ⟨.fresh hmod hpos hlt, rfl⟩ fun h _ hs => ?_
  obtain ⟨hb, hsize⟩ := h.1.step hs
  exact ⟨hb, hsize.trans h.2⟩

end RecordRing.Bounded

/-! ### Records -/

/-- No requested size wraps. -/
def sizeTaken : RingOp → Bool
  | .writeBegin sz => sz ≤ 4294967284
  | _ => true

/-- The unread records are laid out in the ring, and a write that is begun has its room. -/
structure RingSys.Sound (s : RingSys) : Prop where
  shifted_le : s.shifted ≤ s.log.length
  ring : Settled s.ring s.unread
  begun : ∀ data sz, s.begun = some (data, sz) →
    sz < 2147483648 ∧ Begun s.ring data (recordUsage sz)

/-- The record consumed last is not unread any more. -/
lemma RingSys.unread_tail (s : RingSys) :
    s.log.drop (s.shifted + 1) = s.unread.tail := by
  rw [RingSys.unread, List.tail_drop]

lemma RingSys.lt_of_unread {s : RingSys} (h : s.unread ≠ []) : s.shifted < s.log.length := by
  by_contra hge
  exact h (List.drop_eq_nil_of_le (by omega))

/-- A write that is begun is kept when `head` moves on. -/
lemma RingSys.Sound.begun_advance {s : RingSys} (h : s.Sound) {r : RecordRing}
    (hsize : r.size = s.ring.size) (htail : r.tail = s.ring.tail)
    (hadv : Advance s.ring.head s.ring.tail r.head) :
    ∀ data sz, s.begun = some (data, sz) → sz < 2147483648 ∧ Begun r data (recordUsage sz) := by
  intro data sz hb
  obtain ⟨hsz, hbegun⟩ := h.begun data sz hb
  exact ⟨hsz, hbegun.advance hsize htail h.ring.layout.head_lt hadv⟩

/-- Every call keeps the records laid out, if no requested size wraps. -/
lemma RingSys.Sound.step {s t : RingSys} {a : RingOp} (h : s.Sound) (hok : sizeTaken a = true)
    (hs : s.step a = some t) : t.Sound := by
  cases a with
  | writeBegin sz =>
    simp only [RingSys.step] at hs
    split_ifs at hs
    split at hs
    · next data hb =>
      cases hs
      refine ⟨h.shifted_le, h.ring, ?_⟩
      rintro data' sz' he
      cases he
      exact h.ring.toRingOk.recordWriteBegin (of_decide_eq_true hok) hb
    · cases hs
      exact ⟨h.shifted_le, h.ring, fun data sz he => by cases he⟩
  | fill i bs =>
    simp only [RingSys.step] at hs
    split at hs
    · next data sz hb =>
      split_ifs at hs with hle
      cases hs
      obtain ⟨hsz, hbegun⟩ := h.begun data sz hb
      have husage := recordUsage_small hsz
      refine ⟨h.shifted_le, h.ring.withBuf fun x hx => ?_, h.begun⟩
      refine storeBytes_apply_of_outside ?_
      by_contra hin
      exact Begun.not_used hbegun (x := x) (by omega) (by omega) hx
    · cases hs
  | writeEnd sz =>
    simp only [RingSys.step] at hs
    split at hs
    · next data max hb =>
      split_ifs at hs with hle
      cases hs
      obtain ⟨hmax, hbegun⟩ := h.begun data max hb
      have hsz : sz < 2147483648 := by omega
      have husage : recordUsage sz ≤ recordUsage max := by
        rw [recordUsage_small hsz, recordUsage_small hmax]
        omega
      refine ⟨?_, ?_, fun data sz he => by cases he⟩
      · have hshift := h.shifted_le
        exact hshift.trans (by simp)
      · have hring := h.ring.recordWriteEnd hsz (hbegun.mono husage)
        rwa [RingSys.unread, List.drop_append_of_le_length h.shifted_le]
    · cases hs
  | shift =>
    simp only [RingSys.step] at hs
    cases hlive : s.unread with
    | nil =>
      have hring := h.ring
      rw [hlive] at hring
      rw [hring.recordShift_nil] at hs
      cases hs
      exact h
    | cons rec rest =>
      have hring := h.ring
      rw [hlive] at hring
      obtain ⟨r', hshift, hset, hsize, htail, -, hadv, -⟩ := hring.recordShift
      rw [hshift] at hs
      cases hs
      refine ⟨RingSys.lt_of_unread (by rw [hlive]; exact List.cons_ne_nil _ _), ?_,
        h.begun_advance hsize htail hadv⟩
      rw [RingSys.unread, RingSys.unread_tail, hlive]
      exact hset
  | flush =>
    cases hs
    have hadv : Advance s.ring.head s.ring.tail s.ring.tail := ⟨fun hle => ⟨hle, le_rfl⟩,
      fun _ => .inr le_rfl⟩
    refine ⟨le_rfl, ?_, h.begun_advance rfl rfl hadv⟩
    rw [RingSys.unread, List.drop_length]
    refine ⟨⟨h.ring.size_mod, h.ring.size_lt, h.ring.tail_mod, h.ring.tail_mod,
      Layout.empty h.ring.layout.tail_lt⟩, fun htail hhead => ?_⟩
    exact absurd htail hhead

/-- The records are laid out in every run in which no requested size wraps. -/
theorem RingSys.Sound.of_reach {size : ℕ} {buf : Mem} {s : RingSys} (hmod : size % 64 = 0)
    (hpos : 0 < size) (hlt : size < 2147483648) (hr : RingReach sizeTaken size buf s) :
    s.Sound := by
  refine hr.invariant (P := RingSys.Sound) ?_ fun h hok hs => h.step hok hs
  refine ⟨le_rfl, ⟨(Inv.fresh hmod hpos hlt).ring, fun _ hh => absurd rfl hh⟩, ?_⟩
  exact fun data sz he => by cases he

end MachinekitHal
