import MachinekitHal.Hostmot2.Sserial

/-!
Independence of the smart-serial ports.

* `bit_setbits`: `setbits` puts the low bits of its value at their place.
* `Conf.fresh`, `staleConfs`: how many low bits of `buff` a field has set, and whether the
  fields of a card put out a bit that none of them has set.
* `Agree`, `Differ`: two runs of the packing, with equal and with opposite such bits.
* `prepareTramWrite_independent`: every port is stepped as if it were the only one, exactly if
  no idle port stands before one that is not, and no port puts out a stale bit.
-/

namespace MachinekitHal.Sserial

/-! ### Bits of the registers -/

/-- Bit `p` of the data registers. -/
def Regs.bit (regs : Regs) (p : ℕ) : Bool :=
  if p < 32 then regs.reg0.getLsbD p
  else if p < 64 then regs.reg1.getLsbD (p - 32)
  else regs.reg2.getLsbD (p - 64)

lemma getLsbD_ones (k i : ℕ) : (ones >>> k).getLsbD i = decide (i + k < 64) := by
  rw [ones, BitVec.getLsbD_ushiftRight, BitVec.getLsbD_allOnes, Nat.add_comm]

lemma getLsbD_ones_shiftLeft (k s i : ℕ) :
    ((ones >>> k) <<< s).getLsbD i = decide (i < 64 ∧ s ≤ i ∧ i - s + k < 64) := by
  rw [BitVec.getLsbD_shiftLeft, getLsbD_ones, Bool.eq_iff_iff]
  simp
  omega

/-- Bits of a field that starts in or behind the register of the bits from `b` on. -/
lemma getLsbD_moveUp (w : BitVec 64) {b start p : ℕ} (hb : b ≤ start) (hp : b ≤ p)
    (hp' : p < b + 32) :
    ((w <<< (start - b)).setWidth 32).getLsbD (p - b)
      = (decide (start ≤ p) && w.getLsbD (p - start)) := by
  rw [BitVec.getLsbD_setWidth, BitVec.getLsbD_shiftLeft]
  by_cases h : start ≤ p
  · have hidx : p - b - (start - b) = p - start := by omega
    simp [hidx, h, show p - b < 32 by omega, show p - b < 64 by omega,
      show ¬ p - b < start - b by omega]
  · simp [h, show p - b < start - b by omega]

/-- Bits of a field that starts in front of that register. -/
lemma getLsbD_moveDown (w : BitVec 64) {b start p : ℕ} (hb : start ≤ b) (hp : b ≤ p)
    (hp' : p < b + 32) :
    ((w >>> (b - start)).setWidth 32).getLsbD (p - b) = w.getLsbD (p - start) := by
  rw [BitVec.getLsbD_setWidth, BitVec.getLsbD_ushiftRight]
  have hidx : b - start + (p - b) = p - start := by omega
  simp [hidx, show p - b < 32 by omega]

lemma getLsbD_word (i : ℕ) : (0xFFFFFFFF : BitVec 64).getLsbD i = decide (i < 32) := by
  have h : (0xFFFFFFFF : BitVec 64) = ones >>> 32 := by decide
  rw [h, getLsbD_ones]
  congr 1
  exact propext (by omega)

/-- A register that the field does not reach. -/
lemma or_outside {x y : Bool} {start len p : ℕ} (h : ¬ (start ≤ p ∧ p < start + len)) :
    x = (x || (decide (start ≤ p ∧ p < start + len) && y)) := by
  simp [h]

/-- A register that the field reaches. -/
lemma or_inside {x y m : Bool} {start len p : ℕ} (h : start ≤ p → (m = true ↔ p < start + len)) :
    (x || (decide (start ≤ p) && (y && m)))
      = (x || (decide (start ≤ p ∧ p < start + len) && y)) := by
  by_cases hs : start ≤ p
  · have hm : m = decide (p < start + len) := by
      rw [Bool.eq_iff_iff, h hs, decide_eq_true_iff]
    simp [hs, hm, Bool.and_comm]
  · simp [hs]

/-- A register behind the one the field starts in. -/
lemma or_behind {x y m : Bool} {start len p : ℕ} (hs : start ≤ p)
    (h : m = true ↔ p < start + len) :
    (x || (y && m)) = (x || (decide (start ≤ p ∧ p < start + len) && y)) := by
  rw [← or_inside fun _ => h, decide_eq_true hs, Bool.true_and]

section Registers

variable {regs : Regs} {val : BitVec 64} {start len p : ℕ}

lemma setbits_reg0 (hlen : len ≤ 64) (hp : p < 32) :
    (setbits regs val start len).reg0.getLsbD p = (regs.reg0.getLsbD p ||
      (decide (start ≤ p ∧ p < start + len) && val.getLsbD (p - start))) := by
  have hup := fun w => getLsbD_moveUp w (Nat.zero_le start) (Nat.zero_le p) (by omega : p < 0 + 32)
  simp only [Nat.sub_zero] at hup
  rw [setbits]
  simp only
  split_ifs with h1 h2 h3 h4 h5
  · rw [BitVec.getLsbD_or, hup, BitVec.getLsbD_and, getLsbD_ones]
    exact or_inside fun hs => by rw [decide_eq_true_iff]; omega
  · exact or_outside (by omega)
  · rw [BitVec.getLsbD_or, hup, BitVec.getLsbD_and, getLsbD_ones]
    exact or_inside fun hs => by rw [decide_eq_true_iff]; omega
  · exact or_outside (by omega)
  · exact or_outside (by omega)
  · rw [BitVec.getLsbD_or, hup, BitVec.getLsbD_and, getLsbD_ones]
    exact or_inside fun hs => by rw [decide_eq_true_iff]; omega

lemma setbits_reg1 (hlen : len ≤ 64) (hp : 32 ≤ p) (hp' : p < 64) :
    (setbits regs val start len).reg1.getLsbD (p - 32) =
      (!decide (start < 32 ∧ 64 < start + len) && regs.reg1.getLsbD (p - 32) ||
      (decide (start ≤ p ∧ p < start + len) && val.getLsbD (p - start))) := by
  have hup := fun w (h : 32 ≤ start) => getLsbD_moveUp w h hp (by omega : p < 32 + 32)
  have hdown := fun w (h : start ≤ 32) => getLsbD_moveDown w h hp (by omega : p < 32 + 32)
  rw [setbits]
  simp only
  split_ifs with h1 h2 h3 h4 h5
  · rw [decide_eq_false (by omega : ¬ (start < 32 ∧ 64 < start + len))]
    exact or_outside (by omega)
  · rw [decide_eq_false (by omega : ¬ (start < 32 ∧ 64 < start + len)), BitVec.getLsbD_or,
      hup _ h3, BitVec.getLsbD_and, getLsbD_ones]
    exact or_inside fun hs => by rw [decide_eq_true_iff]; omega
  · rw [decide_eq_false (by omega : ¬ (start < 32 ∧ 64 < start + len)), BitVec.getLsbD_or,
      hdown _ (by omega), BitVec.getLsbD_and, getLsbD_ones_shiftLeft]
    exact or_behind (by omega) (by rw [decide_eq_true_iff]; omega)
  · rw [decide_eq_false (by omega : ¬ (start < 32 ∧ 64 < start + len))]
    exact or_outside (by omega)
  · rw [decide_eq_false (by omega : ¬ (start < 32 ∧ 64 < start + len)), BitVec.getLsbD_or,
      hup _ h5, BitVec.getLsbD_and, getLsbD_ones]
    exact or_inside fun hs => by rw [decide_eq_true_iff]; omega
  · rw [hdown _ (by omega), BitVec.getLsbD_and, BitVec.getLsbD_shiftLeft, getLsbD_word]
    simp [show p - start - (32 - start) < 32 by omega, show ¬ p - start < 32 - start by omega,
      show p - start < 64 by omega, show start ≤ p ∧ p < start + len by omega,
      show start < 32 ∧ 64 < start + len by omega]

lemma setbits_reg2 (hlen : len ≤ 64) (hp : 64 ≤ p) (hp' : p < 96) :
    (setbits regs val start len).reg2.getLsbD (p - 64) = (regs.reg2.getLsbD (p - 64) ||
      (decide (start ≤ p ∧ p < start + len) && val.getLsbD (p - start))) := by
  have hup := fun w (h : 64 ≤ start) => getLsbD_moveUp w h hp (by omega : p < 64 + 32)
  have hdown := fun w (h : start ≤ 64) => getLsbD_moveDown w h hp (by omega : p < 64 + 32)
  rw [setbits]
  simp only
  split_ifs with h1 h2 h3 h4 h5
  · exact or_outside (by omega)
  · exact or_outside (by omega)
  · exact or_outside (by omega)
  · rw [BitVec.getLsbD_or, hup _ h4, BitVec.getLsbD_and, getLsbD_ones]
    exact or_inside fun hs => by rw [decide_eq_true_iff]; omega
  · rw [BitVec.getLsbD_or, hdown _ (by omega), BitVec.getLsbD_and, getLsbD_ones_shiftLeft]
    exact or_behind (by omega) (by rw [decide_eq_true_iff]; omega)
  · rw [BitVec.getLsbD_or, hdown _ (by omega), BitVec.getLsbD_and, getLsbD_ones_shiftLeft]
    exact or_behind (by omega) (by rw [decide_eq_true_iff]; omega)

/-- `setbits` puts the `len` low bits of `val` at `start`; what is behind the third register
is dropped. -/
lemma bit_setbits (hlen : len ≤ 64) (hp : p < 96) :
    (setbits regs val start len).bit p =
      (!decide (start < 32 ∧ 64 < start + len ∧ 32 ≤ p ∧ p < 64) && regs.bit p ||
      (decide (start ≤ p ∧ p < start + len) && val.getLsbD (p - start))) := by
  rw [Regs.bit, Regs.bit]
  split_ifs with h1 h2
  · rw [setbits_reg0 hlen h1,
      decide_eq_false (by omega : ¬ (start < 32 ∧ 64 < start + len ∧ 32 ≤ p ∧ p < 64)),
      Bool.not_false, Bool.true_and]
  · rw [setbits_reg1 hlen (by omega) h2]
    congr 4
    exact propext ⟨fun h => ⟨h.1, h.2, by omega, h2⟩, fun h => ⟨h.1, h.2.1⟩⟩
  · rw [setbits_reg2 hlen (by omega) hp,
      decide_eq_false (by omega : ¬ (start < 32 ∧ 64 < start + len ∧ 32 ≤ p ∧ p < 64)),
      Bool.not_false, Bool.true_and]

/-- The bits of other fields stay. -/
lemma bit_setbits_outside (hlen : len ≤ 64) (hp : p < 96) (hout : p < start ∨ start + len ≤ p) :
    (setbits regs val start len).bit p = regs.bit p := by
  rw [bit_setbits hlen hp, ← or_outside (by omega),
    decide_eq_false (by omega : ¬ (start < 32 ∧ 64 < start + len ∧ 32 ≤ p ∧ p < 64)),
    Bool.not_false, Bool.true_and]

/-- A bit of the field that was clear. -/
lemma bit_setbits_inside (hlen : len ≤ 64) (hp : p < 96) (hs : start ≤ p)
    (hp' : p < start + len) (hclear : regs.bit p = false) :
    (setbits regs val start len).bit p = val.getLsbD (p - start) := by
  rw [bit_setbits hlen hp, hclear, Bool.and_false, Bool.false_or, decide_eq_true ⟨hs, hp'⟩,
    Bool.true_and]

/-- Registers with equal bits are equal. -/
lemma Regs.ext_bit {regs regs' : Regs} (h : ∀ p < 96, regs.bit p = regs'.bit p) :
    regs = regs' := by
  refine Regs.ext ?_ ?_ ?_
  · refine BitVec.eq_of_getLsbD_eq fun i hi => ?_
    have hbit := h i (by omega)
    rwa [Regs.bit, Regs.bit, if_pos hi, if_pos hi] at hbit
  · refine BitVec.eq_of_getLsbD_eq fun i hi => ?_
    have hbit := h (32 + i) (by omega)
    rwa [Regs.bit, Regs.bit, if_neg (by omega), if_pos (by omega), if_neg (by omega),
      if_pos (by omega), Nat.add_sub_cancel_left] at hbit
  · refine BitVec.eq_of_getLsbD_eq fun i hi => ?_
    have hbit := h (64 + i) (by omega)
    rwa [Regs.bit, Regs.bit, if_neg (by omega), if_neg (by omega), if_neg (by omega),
      if_neg (by omega), Nat.add_sub_cancel_left] at hbit

/-- Only the bits of the field count. -/
lemma setbits_congr {val' : BitVec 64} (hlen : len ≤ 64)
    (h : ∀ i < len, start + i < 96 → val.getLsbD i = val'.getLsbD i) :
    setbits regs val start len = setbits regs val' start len := by
  refine Regs.ext_bit fun p hp => ?_
  rw [bit_setbits hlen hp, bit_setbits hlen hp]
  by_cases hin : start ≤ p ∧ p < start + len
  · rw [h (p - start) (by omega) (by omega)]
  · rw [decide_eq_false hin, Bool.false_and, Bool.false_and]

end Registers

/-! ### Stale bits -/

/-- How many low bits of `buff` are set after a field, if `fresh` were set before it. -/
def Conf.fresh (conf : Conf) (fresh : ℕ) : ℕ :=
  match conf.dataType with
  | .pad | .encoder | .other _ => fresh
  | .float =>
    if conf.dataLength = 32 then max fresh 32
    else if conf.dataLength = 64 then 64
    else fresh
  | _ => 64

/-- The same after the fields of a card. -/
def freshAfter : List Conf → ℕ → ℕ
  | [], fresh => fresh
  | conf :: rest, fresh => freshAfter rest (if conf.output then conf.fresh fresh else fresh)

/-- A field puts a bit of `buff` into the registers that is not set. -/
def staleConfs : List Conf → ℕ → ℕ → Bool
  | [], _, _ => false
  | conf :: rest, bitcount, fresh =>
    if conf.output then
      conf.fresh fresh < conf.dataLength && bitcount + conf.fresh fresh < 96 ||
        staleConfs rest (bitcount + conf.dataLength) (conf.fresh fresh)
    else staleConfs rest bitcount fresh

/-- The same for the cards of a port. -/
def staleRemotes : List (List Conf) → ℕ → Bool
  | [], _ => false
  | fields :: rest, fresh =>
    staleConfs fields 0 fresh || staleRemotes rest (freshAfter fields fresh)

/-- Two values of `buff` with the same bits below `fresh`. -/
def Agree (fresh : ℕ) (v w : BitVec 64) : Prop := ∀ i < fresh, v.getLsbD i = w.getLsbD i

/-- Two values of `buff` with opposite bits from `fresh` on. -/
def Differ (fresh : ℕ) (v w : BitVec 64) : Prop :=
  ∀ i, fresh ≤ i → i < 64 → v.getLsbD i ≠ w.getLsbD i

section Packing

variable {A : FloatArith} {conf : Conf} {pin : Pins A} {v w : BitVec 64} {fresh bitcount : ℕ}

lemma Agree.refl (fresh : ℕ) (v : BitVec 64) : Agree fresh v v := fun _ _ => rfl

lemma Differ.full (v w : BitVec 64) : Differ 64 v w := fun i h1 h2 => by omega

/-- The four bytes of a float. -/
lemma getLsbD_memcpy (x : BitVec 32) (i : ℕ) :
    (v &&& ones <<< 32 ||| x.setWidth 64).getLsbD i
      = if i < 32 then x.getLsbD i else v.getLsbD i := by
  rw [BitVec.getLsbD_or, BitVec.getLsbD_and, BitVec.getLsbD_shiftLeft, ones,
    BitVec.getLsbD_allOnes, BitVec.getLsbD_setWidth]
  by_cases hi : i < 32
  · simp [hi, show i < 64 by omega]
  · by_cases hi' : i < 64
    · simp [hi, hi', show i - 32 < 64 by omega, BitVec.getLsbD_of_ge x i (by omega)]
    · simp [hi, hi', BitVec.getLsbD_of_ge v i (by omega)]

/-- A field sets its bits the same way in both runs. -/
lemma packConf_agree (h : Agree fresh v w) :
    Agree (conf.fresh fresh) (packConf conf pin v) (packConf conf pin w) := by
  rw [Conf.fresh, packConf, packConf]
  cases conf.dataType with
  | pad => exact h
  | encoder => exact h
  | other code => exact h
  | bits => exact Agree.refl _ _
  | unsigned => exact Agree.refl _ _
  | signed => exact Agree.refl _ _
  | stream => exact Agree.refl _ _
  | boolean => exact Agree.refl _ _
  | float =>
    simp only
    split_ifs
    · intro i hi
      rw [getLsbD_memcpy, getLsbD_memcpy]
      split_ifs with h32
      · rfl
      · exact h i (by omega)
    · exact Agree.refl _ _
    · exact h

/-- Bits that it does not set stay opposite. -/
lemma packConf_differ (h : Differ fresh v w) :
    Differ (conf.fresh fresh) (packConf conf pin v) (packConf conf pin w) := by
  rw [Conf.fresh, packConf, packConf]
  cases conf.dataType with
  | pad => exact h
  | encoder => exact h
  | other code => exact h
  | bits => exact Differ.full _ _
  | unsigned => exact Differ.full _ _
  | signed => exact Differ.full _ _
  | stream => exact Differ.full _ _
  | boolean => exact Differ.full _ _
  | float =>
    simp only
    split_ifs
    · intro i hi hi'
      rw [getLsbD_memcpy, getLsbD_memcpy, if_neg (by omega), if_neg (by omega)]
      exact h i (by omega) hi'
    · exact Differ.full _ _
    · exact h

variable {regs regs' : Regs} {confs : List (Conf × Pins A)} {bits : ℕ}

/-- The fields of a list with its pins. -/
abbrev fieldsOf (confs : List (Conf × Pins A)) : List Conf := confs.map Prod.fst

/-- Without stale bits the registers and the fields do not depend on `buff`. -/
lemma packConfs_agree (regs : Regs) (h : Agree fresh v w)
    (hstale : staleConfs (fieldsOf confs) bitcount fresh = false) :
    (packConfs confs bitcount v regs).1 = (packConfs confs bitcount w regs).1 ∧
    (packConfs confs bitcount v regs).2.2 = (packConfs confs bitcount w regs).2.2 ∧
    Agree (freshAfter (fieldsOf confs) fresh) (packConfs confs bitcount v regs).2.1
      (packConfs confs bitcount w regs).2.1 := by
  induction confs generalizing bitcount v w fresh regs with
  | nil => exact ⟨rfl, rfl, h⟩
  | cons head rest ih =>
    obtain ⟨conf, pin⟩ := head
    simp only [fieldsOf, List.map_cons, staleConfs, freshAfter] at hstale ⊢
    simp only [packConfs]
    by_cases hout : conf.output
    · simp only [hout, if_true, Bool.or_eq_false_iff, Bool.and_eq_false_iff,
        decide_eq_false_iff_not] at hstale ⊢
      obtain ⟨hfield, hrest⟩ := hstale
      have hpack : Agree (conf.fresh fresh) (packConf conf pin v) (packConf conf pin w) :=
        packConf_agree h
      have hregs : setbits regs (packConf conf pin v) bitcount conf.dataLength
          = setbits regs (packConf conf pin w) bitcount conf.dataLength :=
        setbits_congr conf.length_le fun i hi hi' => hpack i (by omega)
      obtain ⟨h1, h2, h3⟩ :=
        ih (setbits regs (packConf conf pin v) bitcount conf.dataLength) hpack hrest
      rw [← hregs]
      exact ⟨by rw [h1], h2, h3⟩
    · simp only [hout, Bool.false_eq_true, if_false] at hstale ⊢
      obtain ⟨h1, h2, h3⟩ := ih regs h hstale
      exact ⟨by rw [h1], h2, h3⟩

/-- The bits of the fields before stay. -/
lemma packConfs_below {p : ℕ} (hp : p < 96) (hlt : p < bitcount) :
    (packConfs confs bitcount v regs).2.2.bit p = regs.bit p := by
  induction confs generalizing bitcount v regs with
  | nil => rfl
  | cons head rest ih =>
    obtain ⟨conf, pin⟩ := head
    simp only [packConfs]
    split_ifs
    · exact (ih (by omega)).trans (bit_setbits_outside conf.length_le hp (.inl hlt))
    · exact ih hlt

/-- The registers that are registered are clear from a bit on. -/
def Clear (regs : Regs) (bitcount bits : ℕ) : Prop :=
  ∀ p, bitcount ≤ p → p < 96 → p / 32 * 32 < bits → regs.bit p = false

lemma Clear.zeroed (regs : Regs) (bits : ℕ) : Clear (regs.zeroed bits) 0 bits := by
  intro p _ hp hreg
  rw [Regs.bit, Regs.zeroed]
  simp only
  split_ifs <;> first | exact BitVec.getLsbD_zero | omega

lemma Clear.setbits (h : Clear regs bitcount bits) (conf : Conf) (v : BitVec 64) :
    Clear (Sserial.setbits regs v bitcount conf.dataLength) (bitcount + conf.dataLength) bits := by
  intro p hle hp hreg
  rw [bit_setbits_outside conf.length_le hp (.inr hle)]
  exact h p (by omega) hp hreg

/-- A stale bit is seen in the registers. -/
lemma packConfs_differ (confs : List (Conf × Pins A)) (h : Differ fresh v w)
    (hclear : Clear regs bitcount bits) (hclear' : Clear regs' bitcount bits)
    (hbits : bitcount + numWriteBits (fieldsOf confs) ≤ bits) :
    Differ (freshAfter (fieldsOf confs) fresh) (packConfs confs bitcount v regs).2.1
      (packConfs confs bitcount w regs').2.1 ∧
    (staleConfs (fieldsOf confs) bitcount fresh = true →
      (packConfs confs bitcount v regs).2.2 ≠ (packConfs confs bitcount w regs').2.2) := by
  induction confs generalizing bitcount v w fresh regs regs' with
  | nil => exact ⟨h, fun hs => by cases hs⟩
  | cons head rest ih =>
    obtain ⟨conf, pin⟩ := head
    simp only [fieldsOf, List.map_cons, staleConfs, freshAfter, numWriteBits] at hbits ⊢
    simp only [packConfs]
    by_cases hout : conf.output
    · simp only [hout, if_true, Bool.or_eq_true, Bool.and_eq_true, decide_eq_true_eq]
        at hbits ⊢
      have hpack : Differ (conf.fresh fresh) (packConf conf pin v) (packConf conf pin w) :=
        packConf_differ h
      obtain ⟨hdiff, hne⟩ := ih hpack (hclear.setbits conf (packConf conf pin v))
        (hclear'.setbits conf (packConf conf pin w)) (by simp only [fieldsOf]; omega)
      refine ⟨hdiff, fun hs => ?_⟩
      rcases hs with ⟨hfield, hlt⟩ | hrest
      · intro heq
        have hlen := conf.length_le
        -- the first stale bit of the field
        have hbit := congrArg (fun regs : Regs => regs.bit (bitcount + conf.fresh fresh)) heq
        rw [packConfs_below hlt (by omega), packConfs_below hlt (by omega),
          bit_setbits_inside hlen hlt (by omega) (by omega)
            (hclear _ (by omega) hlt (by omega)),
          bit_setbits_inside hlen hlt (by omega) (by omega)
            (hclear' _ (by omega) hlt (by omega)), Nat.add_sub_cancel_left] at hbit
        exact hpack _ le_rfl (by omega) hbit
      · exact hne hrest
    · simp only [hout, Bool.false_eq_true, if_false] at hbits ⊢
      exact ih h hclear hclear' (by simp only [fieldsOf]; omega)

variable {chans : List (Remote A)}

/-- The pins of a port without stale bits. -/
lemma packRemotes_agree (h : Agree fresh v w)
    (hstale : staleRemotes (chans.map Remote.fields) fresh = false) :
    (packRemotes chans v).1 = (packRemotes chans w).1 := by
  induction chans generalizing v w fresh with
  | nil => rfl
  | cons chan rest ih =>
    simp only [List.map_cons, staleRemotes, Bool.or_eq_false_iff] at hstale
    obtain ⟨h1, h2, h3⟩ := packConfs_agree
      (chan.regs.zeroed (numWriteBits chan.fields)) h hstale.1
    simp only [packRemotes, packRemote]
    rw [h1, h2, ih h3 hstale.2]

/-- The pins of a port with a stale bit. -/
lemma packRemotes_differ (h : Differ fresh v w)
    (hstale : staleRemotes (chans.map Remote.fields) fresh = true) :
    (packRemotes chans v).1 ≠ (packRemotes chans w).1 := by
  induction chans generalizing v w fresh with
  | nil => cases hstale
  | cons chan rest ih =>
    simp only [List.map_cons, staleRemotes, Bool.or_eq_true] at hstale
    have hclear := Clear.zeroed chan.regs (numWriteBits chan.fields)
    obtain ⟨hdiff, hne⟩ := packConfs_differ chan.confs h hclear hclear
      (by rw [Nat.zero_add]; exact le_rfl)
    simp only [packRemotes, packRemote]
    intro heq
    obtain ⟨hhead, hrest⟩ := List.cons.inj heq
    rcases hstale with hs | hs
    · exact hne hs (congrArg Remote.regs hhead)
    · exact ih hdiff hs hrest

end Packing

/-! ### Ports -/

variable {A : FloatArith} {modes : ℕ → ℕ → Char} {period : ℤ} {inst inst' : Port A}
  {ports ports' : List (Port A)} {v w : BitVec 64}

/-- The port is stopped and is not to run. -/
def Port.idle (inst : Port A) : Bool := inst.state = 0x00 && !inst.run

/-- The port transfers its pins and puts out a bit of `buff` that none of them has set. -/
def Port.stale (inst : Port A) : Bool :=
  inst.state = 0x01 && inst.run && staleRemotes (inst.remotes.map Remote.fields) 0

/-- What `create_pins` and the module parameters have fixed of a card. -/
def Remote.setup (chan : Remote A) : ℕ × BitVec 32 × List Conf :=
  (chan.index, chan.regCsAddr, chan.fields)

/-- Two ports in the same state with the same `run` pin and the same cards: registers, timer,
fault count and the other pins may differ. -/
structure SameSetup (p q : Port A) : Prop where
  state : p.state = q.state
  run : p.run = q.run
  index : p.index = q.index
  tag : p.tag = q.tag
  faultInc : p.faultInc = q.faultInc
  faultDec : p.faultDec = q.faultDec
  faultLim : p.faultLim = q.faultLim
  remotes : p.remotes.map Remote.setup = q.remotes.map Remote.setup

/-- Every port is stepped as if it were the only one, whatever `buff` holds at the start. -/
def Independent (modes : ℕ → ℕ → Char) (period : ℤ) (ports : List (Port A)) : Prop :=
  ∀ (i : ℕ) (inst : Port A), ports[i]? = some inst → ∀ buff buff' : BitVec 64,
    (hm2SserialPrepareTramWrite modes period ports buff)[i]?
      = (hm2SserialPrepareTramWrite modes period [inst] buff')[0]?

lemma SameSetup.refl (p : Port A) : SameSetup p p := ⟨rfl, rfl, rfl, rfl, rfl, rfl, rfl, rfl⟩

lemma SameSetup.idle_eq (h : SameSetup inst inst') : inst.idle = inst'.idle := by
  rw [Port.idle, Port.idle, h.state, h.run]

lemma SameSetup.stale_eq (h : SameSetup inst inst') : inst.stale = inst'.stale := by
  have hfields : inst.remotes.map Remote.fields = inst'.remotes.map Remote.fields := by
    have hmap := congrArg (List.map fun setup : ℕ × BitVec 32 × List Conf => setup.2.2) h.remotes
    rwa [List.map_map, List.map_map] at hmap
  rw [Port.stale, Port.stale, h.state, h.run, hfields]

/-- The state machine returns in the idle state only. -/
lemma stepPort_eq_none : stepPort modes period inst v = none ↔ inst.idle = true := by
  rw [stepPort, Port.idle]
  dsimp only
  split_ifs <;> simp_all

/-- What a port becomes does not depend on `buff`, unless a stale bit is put out. -/
lemma stepPort_agree (hstale : inst.stale = false) :
    (stepPort modes period inst v).map (fun turn => (turn.port, turn.writes))
      = (stepPort modes period inst w).map (fun turn => (turn.port, turn.writes)) := by
  have hagree : Agree 0 v w := fun i hi => absurd hi (Nat.not_lt_zero i)
  rw [stepPort, stepPort]
  dsimp only
  split_ifs with h0 h1 h2 h3 <;> try rfl
  have hremotes : staleRemotes (inst.remotes.map Remote.fields) 0 = false := by
    simpa [Port.stale, h2, show inst.run = true by simpa using h3] using hstale
  simp only [transfer, Option.map_some, packRemotes_agree hagree hremotes]

/-- The call on a port alone. -/
lemma prepare_single : hm2SserialPrepareTramWrite modes period [inst] v =
    [((stepPort modes period inst v).map fun turn => (turn.port, turn.writes)).getD
      (inst, [])] := by
  rw [hm2SserialPrepareTramWrite]
  cases stepPort modes period inst v <;> rfl

/-- An idle port stands still, alone as well as in a row of idle ports. -/
lemma prepare_idle (h : ∀ p ∈ ports, p.idle = true) :
    hm2SserialPrepareTramWrite modes period ports v = ports.map fun p => (p, []) := by
  cases ports with
  | nil => rfl
  | cons inst rest =>
    rw [hm2SserialPrepareTramWrite, stepPort_eq_none.2 (h inst (List.mem_cons_self ..))]

/-- Ports without a stale bit, the idle ones last, are stepped each on its own. -/
lemma independent_of (hidle : ports.Pairwise fun p q => p.idle = true → q.idle = true)
    (hstale : ∀ p ∈ ports, p.stale = false) : Independent modes period ports := by
  induction ports with
  | nil => exact fun i inst h => by simp at h
  | cons head rest ih =>
    intro i inst hi buff buff'
    obtain ⟨hhead, hrest⟩ := List.pairwise_cons.1 hidle
    by_cases hh : head.idle = true
    · have hall : ∀ p ∈ head :: rest, p.idle = true := fun p hp => by
        rcases List.mem_cons.1 hp with rfl | hp
        · exact hh
        · exact hhead p hp hh
      have hinst : inst.idle = true := hall inst (List.mem_of_getElem? hi)
      rw [prepare_idle hall, List.getElem?_map, hi, prepare_single,
        stepPort_eq_none.2 hinst]
      rfl
    · obtain ⟨turn, hturn⟩ := Option.ne_none_iff_exists'.1
        (fun hnone => hh (stepPort_eq_none.1 hnone) : stepPort modes period head buff ≠ none)
      have hprepare : hm2SserialPrepareTramWrite modes period (head :: rest) buff =
          (turn.port, turn.writes) ::
            hm2SserialPrepareTramWrite modes period rest turn.buff := by
        rw [hm2SserialPrepareTramWrite, hturn]
      rw [hprepare]
      cases i with
      | zero =>
        obtain rfl : head = inst := by simpa using hi
        rw [prepare_single, ← stepPort_agree (v := buff) (hstale head (List.mem_cons_self ..)),
          hturn]
        rfl
      | succ i =>
        rw [List.getElem?_cons_succ] at hi ⊢
        exact ih hrest (fun p hp => hstale p (.tail _ hp)) i inst hi _ _

/-- A port that can be seen to step: nothing is pending and no fault counted. -/
def Port.ready (inst : Port A) : Port A :=
  { inst with commandRegRead := 0, faultCount := 0,
              commandRegWrite := if inst.state = 0x01 then ~~~(0x1000 ||| inst.tag) else 0 }

lemma SameSetup.ready (inst : Port A) : SameSetup inst inst.ready :=
  ⟨rfl, rfl, rfl, rfl, rfl, rfl, rfl, rfl⟩

lemma Port.ready_commandRegRead (inst : Port A) : ¬ inst.ready.commandRegRead ≠ 0 := not_not.2 rfl

lemma Port.ready_faultCount (inst : Port A) : ¬ inst.ready.faultCount > inst.ready.faultLim :=
  BitVec.not_lt_zero

/-- It does step if it is not idle. -/
lemma stepPort_ready {turn : Turn A} (h : stepPort modes period inst.ready v = some turn) :
    turn.port ≠ inst.ready := by
  intro heq
  have hstate := congrArg Port.state heq
  have hwrite := congrArg Port.commandRegWrite heq
  rw [stepPort] at h
  dsimp only at h
  by_cases h0 : inst.state = 0x00
  · rw [if_pos (show inst.ready.state = 0x00 from h0)] at h
    split_ifs at h
    cases h
    simp [Port.ready, h0] at hstate
  rw [if_neg (show inst.ready.state ≠ 0x00 from h0)] at h
  by_cases h1 : inst.state = 0x01
  · rw [if_pos (show inst.ready.state = 0x01 from h1)] at h
    rw [if_neg inst.ready_faultCount, if_neg inst.ready_commandRegRead] at h
    split_ifs at h
    · cases h
      simp [Port.ready, h1] at hstate
    · cases h
      simp only [transfer, Port.ready, if_pos h1] at hwrite
      have hbit := congrArg (fun x : BitVec 32 => x.getLsbD 0) hwrite
      simp at hbit
  rw [if_neg (show inst.ready.state ≠ 0x01 from h1)] at h
  by_cases h2 : inst.state = 0x02
  · rw [if_pos (show inst.ready.state = 0x02 from h2)] at h
    cases h
    simp [Port.ready, h2] at hstate
  rw [if_neg (show inst.ready.state ≠ 0x02 from h2)] at h
  by_cases h3 : inst.state = 0x10 ∨ inst.state = 0x11
  · rw [if_pos (show inst.ready.state = 0x10 ∨ inst.ready.state = 0x11 from h3),
      if_neg inst.ready_commandRegRead] at h
    cases h
    rcases h3 with h3 | h3 <;> simp [Port.ready, h3] at hstate
  rw [if_neg (show ¬ (inst.ready.state = 0x10 ∨ inst.ready.state = 0x11) from h3)] at h
  by_cases h4 : inst.state = 0x20
  · rw [if_pos (show inst.ready.state = 0x20 from h4)] at h
    cases h
    change (0x80000000 : BitVec 32) = if inst.state = 0x01 then _ else 0 at hwrite
    rw [if_neg h1] at hwrite
    exact absurd hwrite (by decide)
  · rw [if_neg (show inst.ready.state ≠ 0x20 from h4)] at h
    cases h
    exact h0 hstate.symm

/-- A port with a stale bit becomes something else with another value of `buff`. -/
lemma stepPort_stale (modes : ℕ → ℕ → Char) (period : ℤ) (hstale : inst.stale = true) :
    hm2SserialPrepareTramWrite modes period [inst.ready] 0
      ≠ hm2SserialPrepareTramWrite modes period [inst.ready] ones := by
  simp only [Port.stale, Bool.and_eq_true, decide_eq_true_eq] at hstale
  obtain ⟨⟨h1, hrun⟩, hremotes⟩ := hstale
  have hstep : ∀ buff, stepPort modes period inst.ready buff
      = some ⟨(transfer inst.ready buff).1, [], (transfer inst.ready buff).2⟩ := fun buff => by
    rw [stepPort, if_neg (by rw [show inst.ready.state = 0x01 from h1]; decide),
      if_pos (show inst.ready.state = 0x01 from h1),
      if_neg (by rw [show inst.ready.run = true from hrun]; decide),
      if_neg inst.ready_faultCount, if_neg inst.ready_commandRegRead]
  rw [prepare_single, prepare_single, hstep, hstep]
  intro heq
  have hports := congrArg (List.map fun x => x.1.remotes) heq
  have hdiffer : Differ 0 0 ones := fun i _ hi => by
    have hzero : (0 : BitVec 64).getLsbD i = false := BitVec.getLsbD_zero
    rw [ones, BitVec.getLsbD_allOnes, decide_eq_true hi, hzero]
    decide
  exact packRemotes_differ hdiffer hremotes (List.cons.inj hports).1

/-- The part of a row before a port. -/
lemma forall₂_set {i : ℕ} (hi : ports[i]? = some inst) (h : SameSetup inst inst') :
    List.Forall₂ SameSetup ports (ports.set i inst') := by
  induction ports generalizing i with
  | nil => simp at hi
  | cons head rest ih =>
    cases i with
    | zero =>
      obtain rfl : head = inst := by simpa using hi
      exact .cons h (List.forall₂_same.2 fun p _ => SameSetup.refl p)
    | succ i => exact .cons (SameSetup.refl head) (ih (by simpa using hi))

/-- Behind an idle port nothing is stepped. -/
lemma prepare_behind {i j : ℕ} (hij : i < j) (hi : ports[i]? = some inst) (hidle : inst.idle = true)
    (hj : ports[j]? = some inst') :
    (hm2SserialPrepareTramWrite modes period ports v)[j]? = some (inst', []) := by
  induction ports generalizing i j v with
  | nil => simp at hi
  | cons head rest ih =>
    rw [hm2SserialPrepareTramWrite]
    cases hstep : stepPort modes period head v with
    | none => simp only [List.getElem?_map, hj, Option.map_some]
    | some turn =>
      cases i with
      | zero =>
        obtain rfl : head = inst := by simpa using hi
        rw [stepPort_eq_none.2 hidle] at hstep
        cases hstep
      | succ i =>
        obtain ⟨j, rfl⟩ : ∃ k, j = k + 1 := ⟨j - 1, by omega⟩
        rw [List.getElem?_cons_succ] at hi hj
        exact ih (Nat.lt_of_succ_lt_succ hij) hi hj

/-- The condition is one on what is given. -/
lemma sameSetup_map (h : List.Forall₂ SameSetup ports ports') :
    ports.map Port.idle = ports'.map Port.idle ∧ ports.map Port.stale = ports'.map Port.stale := by
  induction h with
  | nil => exact ⟨rfl, rfl⟩
  | cons hhead _ ih =>
    rw [List.map_cons, List.map_cons, List.map_cons, List.map_cons, hhead.idle_eq,
      hhead.stale_eq, ih.1, ih.2]
    exact ⟨rfl, rfl⟩

/-- **Independence of the ports.** For given states, `run` pins and cards, whatever the
registers, timers, fault counts and other pins hold: every port is stepped as if it were the
only one, exactly if no idle port stands before one that is not idle, and no port puts a bit
of `buff` into its registers that it has not set. -/
theorem prepareTramWrite_independent (modes : ℕ → ℕ → Char) (period : ℤ) (ports : List (Port A)) :
    (∀ ports', List.Forall₂ SameSetup ports ports' → Independent modes period ports') ↔
      (ports.Pairwise fun p q => p.idle = true → q.idle = true) ∧
        ∀ p ∈ ports, p.stale = false := by
  constructor
  · intro h
    constructor
    · rw [List.pairwise_iff_getElem]
      intro i j hi hj hij hidle
      by_contra hq
      have hset := forall₂_set (List.getElem?_eq_getElem hj) (SameSetup.ready ports[j])
      have hseti : (ports.set j ports[j].ready)[i]? = some ports[i] := by
        rw [List.getElem?_set_ne (by omega), List.getElem?_eq_getElem hi]
      have hsetj : (ports.set j ports[j].ready)[j]? = some ports[j].ready :=
        List.getElem?_set_self hj
      have halone := h _ hset j _ hsetj 0 0
      rw [prepare_behind hij hseti hidle hsetj, prepare_single] at halone
      obtain ⟨turn, hturn⟩ := Option.ne_none_iff_exists'.1
        (fun hnone => hq (((SameSetup.ready ports[j]).idle_eq).trans (stepPort_eq_none.1 hnone)) :
          stepPort modes period ports[j].ready 0 ≠ none)
      rw [hturn] at halone
      exact stepPort_ready hturn (congrArg Prod.fst (Option.some.inj halone)).symm
    · intro p hp
      by_contra hstale
      obtain ⟨i, hi, rfl⟩ := List.getElem_of_mem hp
      have hset := forall₂_set (List.getElem?_eq_getElem hi) (SameSetup.ready ports[i])
      have hseti : (ports.set i ports[i].ready)[i]? = some ports[i].ready :=
        List.getElem?_set_self hi
      have hzero := h _ hset i _ hseti 0 0
      rw [h _ hset i _ hseti 0 ones, prepare_single, prepare_single] at hzero
      refine stepPort_stale modes period (by simpa using hstale : ports[i].stale = true) ?_
      rw [prepare_single, prepare_single]
      exact congrArg (· :: []) (Option.some.inj hzero).symm
  · rintro ⟨hidle, hstale⟩ ports' hsame
    obtain ⟨hidles, hstales⟩ := sameSetup_map hsame
    refine independent_of ?_ fun q hq => ?_
    · have hmap : (ports.map Port.idle).Pairwise fun x y => x = true → y = true :=
        List.pairwise_map.2 hidle
      rw [hidles] at hmap
      exact List.pairwise_map.1 hmap
    · have hmem : q.stale ∈ ports.map Port.stale := hstales ▸ List.mem_map_of_mem hq
      obtain ⟨p, hp, he⟩ := List.mem_map.1 hmem
      rw [← he, hstale p hp]

/-- Numbers for a port that has no float pin. -/
def noFloats : FloatArith where
  Float64 := ℚ
  Float32 := ℚ
  toSingle := id
  gt x y := y < x
  lt x y := x < y
  unsigned _ _ _ := 0
  signed _ _ := 0
  singleBits _ := 0
  doubleBits _ := 0

/-- A port without cards. -/
def barePort (state : BitVec 32) (run : Bool) : Port noFloats where
  index := 0
  tag := 0
  remotes := []
  commandRegRead := 0
  commandRegWrite := 0
  faultCount := 0
  faultInc := 10
  faultDec := 1
  faultLim := 200
  run := run
  state := state
  timer := 0

/-- A port behind an idle one is not started. -/
theorem prepareTramWrite_returns : ¬ ∀ (A : FloatArith) (modes : ℕ → ℕ → Char) (period : ℤ)
    (ports : List (Port A)), Independent modes period ports := by
  intro h
  have halone := h noFloats (fun _ _ => 'x') 1000000 [barePort 0 false, barePort 0 true] 1
    (barePort 0 true) rfl 0 0
  have hstate := congrArg (Option.map fun x => x.1.state) halone
  exact absurd hstate (by decide)

end MachinekitHal.Sserial
