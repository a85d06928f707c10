import MachinekitHal.Ring.RecordRuns

/-!
The answers of `record_write_begin`.

* `recordWriteBegin_ok`: when it returns `0`.
* `recordWriteBegin_empty`: in a ring without unread records it refuses a size with `EAGAIN`
  exactly if the record takes the whole ring, or neither what is behind `tail` nor what is
  in front of it; `recordWriteBegin_stuck` is such a ring.
* `recordWriteSpace`, `recordWriteSpace_exact`: the size that `record_write_space` reports.
* `recordWriteBegin_safe`: what is handed out is inside the storage and touches no unread
  record, exactly for the sizes that do not wrap; `recordWriteBegin_wraps` is one that does.
-/

namespace MachinekitHal

open Bytes Word Runs

/-- `record_write_space`. -/
def RecordRing.recordWriteSpace (r : RecordRing) : ℕ :=
  let avail : ℤ :=
    if r.tail < r.head then wrapInt (sub32 r.head r.tail)
    else wrapInt (max r.head (sub32 r.size r.tail))
  (max 0 (avail - (2 * rbAlign : ℕ))).toNat

variable {r : RecordRing} {sz : ℕ}

/-! ### When there is room -/

/-- `record_write_begin` returns `0` when the record fits behind `tail`, or else in front of
`head`, and does not fill the ring. -/
lemma recordWriteBegin_ok (h : r.Bounded) :
    (∃ data, r.recordWriteBegin sz = .ok data) ↔
      recordUsage sz ≤ r.size ∧ recordUsage sz < freeSpace r.size r.head r.tail ∧
        (r.tail + recordUsage sz ≤ r.size ∨ recordUsage sz < r.head) := by
  have htail := h.tail_lt
  have hlt := h.size_lt
  rw [RecordRing.recordWriteBegin]
  by_cases hrange : r.size < recordUsage sz
  · simp only [if_pos hrange, reduceCtorEq, exists_false, false_iff]
    omega
  · rw [wrap32_of_lt (by omega)]
    by_cases hfree : freeSpace r.size r.head r.tail ≤ recordUsage sz
    · simp only [if_neg hrange, if_pos hfree, reduceCtorEq, exists_false, false_iff]
      omega
    · by_cases hwrap : r.size < r.tail + recordUsage sz
      · by_cases hroom : r.head ≤ recordUsage sz
        · simp only [if_neg hrange, if_neg hfree, if_pos hwrap, if_pos hroom, reduceCtorEq,
            exists_false, false_iff]
          omega
        · simp only [if_neg hrange, if_neg hfree, if_pos hwrap, if_neg hroom, Except.ok.injEq,
            exists_eq', true_iff]
          omega
      · simp only [if_neg hrange, if_neg hfree, if_neg hwrap, Except.ok.injEq, exists_eq',
          true_iff]
        omega

/-- It returns `ERANGE` exactly if the record is larger than the ring. -/
lemma recordWriteBegin_range :
    r.recordWriteBegin sz = .error .ERANGE ↔ r.size < recordUsage sz := by
  rw [RecordRing.recordWriteBegin]
  split_ifs <;> simp_all

/-- `record_write` succeeds when `record_write_begin` does. -/
lemma recordWrite_ok {bs : List UInt8} :
    (∃ r', r.recordWrite bs = .ok r') ↔ ∃ data, r.recordWriteBegin bs.length = .ok data := by
  rw [RecordRing.recordWrite]
  cases r.recordWriteBegin bs.length <;> simp

/-! ### The empty ring -/

/-- **Progress.** In a ring with `head == tail` a size that is not rejected with `ERANGE` gets
room exactly if the record does not take the whole ring and fits behind `tail` or in front of
it. -/
theorem recordWriteBegin_empty {size : ℕ} {buf : Mem} {s : RingSys} (hmod : size % 64 = 0)
    (hpos : 0 < size) (hlt : size < 2147483648) (hr : RingReach (fun _ => true) size buf s)
    (hempty : s.ring.head = s.ring.tail) (sz : ℕ) :
    (s.ring.recordWriteBegin sz ≠ .error .ERANGE → ∃ data, s.ring.recordWriteBegin sz = .ok data)
      ↔ size < recordUsage sz ∨ recordUsage sz < size ∧
        (s.ring.tail + recordUsage sz ≤ size ∨ recordUsage sz < s.ring.tail) := by
  obtain ⟨hb, rfl⟩ := RecordRing.Bounded.of_reach hmod hpos hlt hr
  have htail := hb.tail_lt
  have hfree : freeSpace s.ring.size s.ring.head s.ring.tail = s.ring.size := by
    rw [freeSpace_straight hempty.le htail hb.size_lt, hempty]
    omega
  rw [recordWriteBegin_ok hb, hfree, hempty, Ne, recordWriteBegin_range]
  omega

/-- A record is written and consumed, and now there is room for `40` bytes neither behind nor
in front of it. -/
def stuckRing : List RingOp :=
  recordWriteCalls (List.replicate 20 0) ++ [.shift]

/-- The empty ring takes 36 bytes. -/
theorem recordWriteBegin_empty_stuckRing : ∃ s : RingSys,
    run RingSys.step (fun _ _ => true) (.init (.fresh 64 fun _ => 0)) stuckRing = some s ∧
    ∃ data, s.ring.recordWriteBegin 36 = .ok data := by
  have hrun : (run RingSys.step (fun _ _ => true) (.init (.fresh 64 fun _ => 0)) stuckRing).map
      (fun s => (s.ring.head, s.ring.tail)) = some (24, 24) := by decide
  obtain ⟨s, hs, hv, hr⟩ := run_map hrun
  simp only [Prod.mk.injEq] at hv
  have hreach : RingReach (fun _ => true) 64 (fun _ => 0) s := hr
  have hroom := (recordWriteBegin_empty (by decide) (by decide) (by decide) hreach
    (hv.1.trans hv.2.symm) 36).2 (.inr ⟨by decide, .inl (by rw [hv.2]; decide)⟩)
  refine ⟨s, hs, hroom fun hrange => ?_⟩
  have hsize := (RecordRing.Bounded.of_reach (by decide) (by decide) (by decide) hreach).2
  rw [recordWriteBegin_range, hsize] at hrange
  exact absurd hrange (by decide)

/-- It stays refused: nothing is left to be consumed. -/
theorem recordWriteBegin_stuck :
    ¬ ∀ (size : ℕ) (buf : Mem) (s : RingSys) (sz : ℕ), size % 64 = 0 → 0 < size →
      size < 2147483648 → RingReach (fun _ => true) size buf s → s.ring.head = s.ring.tail →
      s.ring.recordWriteBegin sz ≠ .error .ERANGE →
      ∃ data, s.ring.recordWriteBegin sz = .ok data := by
  intro h
  have hrun : (run RingSys.step (fun _ _ => true) (.init (.fresh 64 fun _ => 0)) stuckRing).map
      (fun s => (s.ring.head, s.ring.tail, decide (s.ring.recordWriteBegin 40
        = .error .EAGAIN))) = some (24, 24, true) := by decide
  obtain ⟨s, -, hv, hr⟩ := run_map hrun
  simp only [Prod.mk.injEq, decide_eq_true_eq] at hv
  obtain ⟨hhead, htail, hagain⟩ := hv
  obtain ⟨data, hok⟩ := h 64 _ s 40 (by decide) (by decide) (by decide) hr
    (hhead.trans htail.symm) (by rw [hagain]; decide)
  rw [hagain] at hok
  cases hok

/-! ### The reported space -/

/-- The reported space without the machine arithmetic. -/
lemma recordWriteSpace_eq (h : r.Bounded) :
    r.recordWriteSpace
      = (if r.tail < r.head then r.head - r.tail else max r.head (r.size - r.tail)) - 16 := by
  have hhead := h.head_lt
  have htail := h.tail_lt
  have hlt := h.size_lt
  have hsub : sub32 r.size r.tail = r.size - r.tail := by
    rw [sub32]
    omega
  by_cases hw : r.tail < r.head
  · have hsub' : sub32 r.head r.tail = r.head - r.tail := by
      rw [sub32]
      omega
    rw [RecordRing.recordWriteSpace, if_pos hw, if_pos hw, hsub',
      wrapInt_eq (by omega) (by omega), rbAlign]
    omega
  · rw [RecordRing.recordWriteSpace, if_neg hw, if_neg hw, hsub,
      wrapInt_eq (by omega) (by omega), rbAlign]
    omega

/-- For a size that does not wrap the reported space decides up to two alignment units. -/
lemma recordWriteSpace_decides (h : r.Bounded) (hsz : sz ≤ 4294967284) :
    (0 < r.recordWriteSpace → sz ≤ r.recordWriteSpace →
      ∃ data, r.recordWriteBegin sz = .ok data) ∧
    (r.recordWriteSpace + 2 * rbAlign < sz → ¬ ∃ data, r.recordWriteBegin sz = .ok data) := by
  have hhead := h.head_lt
  have htail := h.tail_lt
  have hmod := h.head_mod
  have hmod' := h.tail_mod
  have hmod'' := h.size_mod
  rw [recordWriteBegin_ok h, recordWriteSpace_eq h, recordUsage_eq hsz, rbAlign]
  by_cases hw : r.tail < r.head
  · rw [freeSpace_wrapped hw hhead h.size_lt, if_pos hw]
    constructor
    · intro hpos hle
      omega
    · intro hlt
      omega
  · rw [freeSpace_straight (by omega) htail h.size_lt, if_neg hw]
    constructor
    · intro hpos hle
      omega
    · intro hlt
      omega

/-- A size that wraps gets the room of an empty record: always if its usage wraps to `0`, and
if it wraps to `8` whenever more than that is free. -/
lemma recordWriteBegin_of_wrap (h : r.Bounded) (hsz : 4294967284 < sz) (hlt : sz < 4294967296) :
    (∃ data, r.recordWriteBegin sz = .ok data) ↔
      ¬ (4294967293 ≤ sz ∧ freeSpace r.size r.head r.tail = 8) := by
  have hhead := h.head_lt
  have htail := h.tail_lt
  have hmod := h.head_mod
  have hmod' := h.tail_mod
  have hmod'' := h.size_mod
  have hfree : 8 ≤ freeSpace r.size r.head r.tail := by
    by_cases hw : r.tail < r.head
    · rw [freeSpace_wrapped hw hhead h.size_lt]
      omega
    · rw [freeSpace_straight (by omega) htail h.size_lt]
      omega
  rw [recordWriteBegin_ok h, recordUsage_of_wrap hsz hlt]
  split_ifs with hzero
  · omega
  · omega

/-- **`record_write_space`.** In every reachable state, for every size: the reported space can
be written and two alignment units more cannot, exactly if the size does not wrap, or wraps
to a usage of `8` when no more than that is free. -/
theorem recordWriteSpace_exact {size : ℕ} {buf : Mem} {s : RingSys} (hmod : size % 64 = 0)
    (hpos : 0 < size) (hlt : size < 2147483648) (hr : RingReach (fun _ => true) size buf s)
    (bs : List UInt8) (hbs : bs.length < 4294967296) :
    ((0 < s.ring.recordWriteSpace → bs.length ≤ s.ring.recordWriteSpace →
        ∃ r', s.ring.recordWrite bs = .ok r') ∧
      (s.ring.recordWriteSpace + 2 * rbAlign < bs.length →
        ¬ ∃ r', s.ring.recordWrite bs = .ok r'))
      ↔ bs.length ≤ 4294967284 ∨ 4294967293 ≤ bs.length ∧
        freeSpace s.ring.size s.ring.head s.ring.tail = 8 := by
  obtain ⟨hb, rfl⟩ := RecordRing.Bounded.of_reach hmod hpos hlt hr
  rw [recordWrite_ok]
  by_cases hsz : bs.length ≤ 4294967284
  · exact iff_of_true (recordWriteSpace_decides hb hsz) (.inl hsz)
  · have hbig : s.ring.recordWriteSpace + 2 * rbAlign < bs.length := by
      have hspace := recordWriteSpace_eq hb
      have hhead := hb.head_lt
      rw [rbAlign]
      split_ifs at hspace <;> omega
    rw [recordWriteBegin_of_wrap hb (by omega) hbs]
    constructor
    · rintro ⟨-, hno⟩
      exact .inr (not_not.1 (hno hbig))
    · rintro (hle | hfull)
      · exact absurd hle hsz
      · exact ⟨fun _ hle => by omega, fun _ => not_not.2 hfull⟩

/-- The 24 bytes reported are there. -/
theorem recordWriteSpace_exact_stuckRing : ∃ s : RingSys,
    run RingSys.step (fun _ _ => true) (.init (.fresh 64 fun _ => 0)) stuckRing = some s ∧
    s.ring.recordWriteSpace = 24 ∧ ∃ r', s.ring.recordWrite (List.replicate 24 7) = .ok r' := by
  have hrun : (run RingSys.step (fun _ _ => true) (.init (.fresh 64 fun _ => 0)) stuckRing).map
      (fun s => s.ring.recordWriteSpace) = some 24 := by decide
  obtain ⟨s, hs, hspace, hr⟩ := run_map hrun
  have hreach : RingReach (fun _ => true) 64 (fun _ => 0) s := hr
  have hfits := (recordWriteSpace_exact (by decide) (by decide) (by decide) hreach
    (List.replicate 24 7) (by decide)).2 (.inl (by decide))
  exact ⟨s, hs, hspace, hfits.1 (by rw [hspace]; decide) (by rw [hspace]; decide)⟩

/-- `record_write` of almost `2^32` bytes succeeds in an empty ring of `64` bytes. -/
theorem recordWriteSpace_wraps :
    ¬ ∀ (size : ℕ) (buf : Mem) (s : RingSys) (bs : List UInt8), size % 64 = 0 → 0 < size →
      size < 2147483648 → RingReach (fun _ => true) size buf s → bs.length < 4294967296 →
      s.ring.recordWriteSpace + 2 * rbAlign < bs.length →
        ¬ ∃ r', s.ring.recordWrite bs = .ok r' := by
  intro h
  have hlen : (List.replicate 4294967285 (0 : UInt8)).length = 4294967285 :=
    List.length_replicate
  refine h 64 (fun _ => 0) (.init (.fresh 64 fun _ => 0)) (List.replicate 4294967285 0)
    (by decide) (by decide) (by decide) .refl (by rw [hlen]; decide) (by rw [hlen]; decide) ?_
  rw [recordWrite_ok, hlen]
  have hb : (RecordRing.fresh 64 fun _ => 0).Bounded := .fresh (by decide) (by decide) (by decide)
  exact (recordWriteBegin_of_wrap hb (by decide) (by decide)).2 fun hfull =>
    absurd hfull.1 (by decide)

/-! ### What is handed out -/

/-- What `record_write_begin` should say about a size. -/
structure BeginSafe (s : RingSys) (sz : ℕ) : Prop where
  /-- the size word and the bytes handed out are inside the storage and in no unread record -/
  granted : ∀ data, s.ring.recordWriteBegin sz = .ok data → 4 ≤ data ∧
    ∀ x, data ≤ x + 4 → x < data + sz → x < s.ring.size ∧
      ∀ rec ∈ s.unread, ¬ (rec.off ≤ x ∧ x < rec.off + 4 + rec.bytes.length)
  /-- it is too large exactly if the record is larger than the ring -/
  range : s.ring.recordWriteBegin sz = .error .ERANGE ↔ s.ring.size < (sz + 4 + 7) / 8 * 8

/-- **Safety of `record_write_begin`.** In every state of a run in which no requested size
wraps, the next request is answered well exactly if its size does not wrap. -/
theorem recordWriteBegin_safe {size : ℕ} {buf : Mem} {s : RingSys} (hmod : size % 64 = 0)
    (hpos : 0 < size) (hlt : size < 2147483648) (hr : RingReach sizeTaken size buf s)
    (hsz : sz < 4294967296) : BeginSafe s sz ↔ sz ≤ 4294967284 := by
  have hS := RingSys.Sound.of_reach hmod hpos hlt hr
  have hb : s.ring.Bounded := .of_ringOk hS.ring.toRingOk
  have hsize := hb.size_lt
  constructor
  · intro h
    by_contra hwrap
    -- the record is larger than the ring, but its usage wraps
    have hrange := h.range.2 (by omega)
    rw [recordWriteBegin_range, recordUsage_of_wrap (by omega) hsz] at hrange
    have hhead := hb.head_lt
    have hmod' := hb.size_mod
    split_ifs at hrange <;> omega
  · intro hle
    have husage := recordUsage_eq hle
    refine ⟨fun data hok => ?_, ?_⟩
    · obtain ⟨hsmall, hbegun⟩ := hS.ring.toRingOk.recordWriteBegin hle hok
      refine ⟨?_, fun x h1 h2 => ⟨?_, ?_⟩⟩
      · rcases hbegun with ⟨hd, -⟩ | ⟨hd, -⟩ <;> omega
      · exact hbegun.lt_size hS.ring.toRingOk (by omega)
      · rintro rec hrec ⟨h3, h4⟩
        have hspan := rec.length_add_four_le
        exact hbegun.not_used h1 (by omega)
          (hS.ring.layout.mem_used hrec h3 (by omega))
    · rw [recordWriteBegin_range, husage]

/-- A request of 36 bytes. -/
theorem recordWriteBegin_safe_stuckRing : ∃ s : RingSys,
    run RingSys.step (fun _ a => sizeTaken a) (.init (.fresh 64 fun _ => 0)) stuckRing = some s ∧
    BeginSafe s 36 := by
  obtain ⟨s, hs⟩ : ∃ s, run RingSys.step (fun _ a => sizeTaken a) (.init (.fresh 64 fun _ => 0))
      stuckRing = some s := Option.isSome_iff_exists.1 (by decide)
  exact ⟨s, hs, (recordWriteBegin_safe (by decide) (by decide) (by decide) (reach_of_run _ _ hs)
    (by decide)).2 (by decide)⟩

/-- A request for almost `2^32` bytes is granted in a ring of `64` bytes. -/
theorem recordWriteBegin_wraps :
    ¬ ∀ (size : ℕ) (buf : Mem) (s : RingSys) (sz : ℕ), size % 64 = 0 → 0 < size →
      size < 2147483648 → RingReach sizeTaken size buf s → sz < 4294967296 →
      BeginSafe s sz := by
  intro h
  have hsafe := h 64 (fun _ => 0) (.init (.fresh 64 fun _ => 0)) 4294967295 (by decide) (by decide)
    (by decide) .refl (by decide)
  have hrange := hsafe.range.2 (by decide)
  have hok : (RingSys.init (.fresh 64 fun _ => 0)).ring.recordWriteBegin 4294967295 = .ok 4 := by
    decide
  rw [hok] at hrange
  cases hrange

end MachinekitHal
