import MachinekitHal.Hostmot2.Encoder
import MachinekitHal.Hostmot2.EncoderTracking
import MachinekitHal.Lib.Folds
import MachinekitHal.Lib.Runs
import MachinekitHal.Lib.WrappedCounter

/-!
The resolvers of hostmot2.

* `Hm2Resolver.Pins`, `Hm2Resolver.Instance`, `Hm2Resolver.TramRead`: the pins, an instance and the
  registers.
* `Hm2Resolver.processTramRead`: positions and the index.
* `Tracked`: the accumulator and the revolutions of an instance are those of the true position.
* `IndexLaw`: what a read does, with the set of boundaries that clear index-enable.
* `Alike`: the wrapped count of the revolutions is as good as the true one.
* `index_law_iff`: when a read is right, in every run of such reads.
-/

namespace MachinekitHal.Hm2Resolver

open Hm2Encoder (Doubles)

variable {D : Doubles}

/-- The pins of an instance. -/
structure Pins (D : Doubles) where
  rawcounts : BitVec 32
  count : BitVec 32
  angle : D.Float
  position : D.Float
  velocity : D.Float
  reset : Bool
  indexEnable : Bool
  error : Bool
  scale : D.Float
  velScale : D.Float
  indexDiv : BitVec 32

/-- `hm2_resolver_instance_t`. -/
structure Instance (D : Doubles) where
  pin : Pins D
  accum : BitVec 64
  offset : BitVec 64
  oldReg : BitVec 32
  indexCnts : BitVec 32

/-- The registers, with `kHz`. -/
structure TramRead (D : Doubles) where
  positionReg : ℕ → BitVec 32
  velocityReg : ℕ → BitVec 32
  statusReg : BitVec 32
  kHz : D.Float

/-! ### One resolver -/

/-- A scale of zero is set to 1. -/
def checkScale (scale : D.Float) : D.Float := if D.eq scale (D.ofInt 0) then D.ofInt 1 else scale

/-- Over the boundary upwards. C leaves the remainder by zero open. -/
def indexUp (pos : BitVec 32) (e : Instance D) : Option (Instance D) :=
  let e := { e with indexCnts := e.indexCnts + 1 }
  if e.pin.indexEnable then
    if e.pin.indexDiv = 0 then none
    else
      let r := (e.indexCnts % e.pin.indexDiv).toInt
      if 1 < e.pin.indexDiv ∧ r = 1 ∨ e.pin.indexDiv = 1 ∧ r = 0 then
        some { e with offset := e.accum - pos.setWidth 64, pin.indexEnable := false }
      else some e
  else some e

/-- Over the boundary downwards. -/
def indexDown (pos : BitVec 32) (e : Instance D) : Option (Instance D) :=
  let e := { e with indexCnts := e.indexCnts - 1 }
  if e.pin.indexEnable then
    if e.pin.indexDiv = 0 then none
    else if e.indexCnts % e.pin.indexDiv = 0 then
      some { e with
        offset := e.accum - pos.setWidth 64 + 0x100000000#64
        pin.indexEnable := false }
    else some e
  else some e

/-- The accumulator, and the index if a boundary is crossed. -/
def processPosition (pos : BitVec 32) (e : Instance D) : Option (Instance D) :=
  let e := { e with accum := e.accum + (pos - e.oldReg).signExtend 64 }
  if pos < e.oldReg ∧ 0x80000000 < e.oldReg - pos then indexUp pos e
  else if e.oldReg < pos ∧ 0x80000000 < pos - e.oldReg then indexDown pos e
  else some e

/-- The pins that are set from the accumulator and the registers. -/
def publish (hw : TramRead D) (i : ℕ) (e : Instance D) : Instance D :=
  let pos := hw.positionReg i
  let offset := if e.pin.reset then e.accum else e.offset
  { e with
    offset := offset
    oldReg := pos
    pin.angle := D.div (D.ofInt pos.toNat) (D.ofInt 4294967296)
    pin.rawcounts := (e.accum.sshiftRight 8).setWidth 32
    pin.count := ((e.accum - offset).sshiftRight 8).setWidth 32
    pin.position := D.mul (D.div (D.ofInt (e.accum - offset).toInt) (D.ofInt 4294967296))
      e.pin.scale
    pin.velocity := D.mul (D.mul (D.div (D.ofInt (hw.velocityReg i).toInt) (D.ofInt 4294967296))
      hw.kHz) e.pin.velScale
    pin.error := hw.statusReg.getLsbD i }

/-- The body of the loop of `hm2_resolver_process_tram_read`. -/
def processResolver (hw : TramRead D) (i : ℕ) (e : Instance D) : Option (Instance D) :=
  let e := { e with
    pin.scale := checkScale e.pin.scale
    pin.velScale := checkScale e.pin.velScale }
  (processPosition (hw.positionReg i) e).map (publish hw i)

/-- `hm2_resolver_process_tram_read`, for `n` resolvers. -/
def processTramRead (n : ℕ) (hw : TramRead D) (es : ℕ → Instance D) : Option (ℕ → Instance D) :=
  (List.range n).foldlM
    (fun es i => (processResolver hw i (es i)).map (Function.update es i)) es

end MachinekitHal.Hm2Resolver

namespace MachinekitHal.Hm2Resolver

open Hm2Encoder (Doubles wholeDoubles)
open Runs Folds

variable {D : Doubles}

/-! ### Positions -/

variable {p p' : ℤ} {e e' : Instance D} {i n : ℕ}

/-- The accumulator, the register and the revolutions at a true position. -/
structure Tracked (p : ℤ) (e : Instance D) : Prop where
  accum : e.accum = BitVec.ofInt 64 p
  oldReg : e.oldReg = BitVec.ofInt 32 p
  indexCnts : e.indexCnts = BitVec.ofInt 32 (p / 4294967296)

lemma toNat_ofInt_eq (p : ℤ) : ((BitVec.ofInt 32 p).toNat : ℤ) = p % 4294967296 := by
  rw [BitVec.toNat_ofInt]
  omega

/-- A move by less than half a revolution is seen in the register. -/
lemma signExtend_sub (hmove : |p' - p| < 2147483648) :
    (BitVec.ofInt 32 p' - BitVec.ofInt 32 p).signExtend 64 = BitVec.ofInt 64 (p' - p) := by
  have hsub : BitVec.ofInt 32 p' - BitVec.ofInt 32 p = BitVec.ofInt 32 (p' - p) := by
    rw [BitVec.sub_eq_iff_eq_add, ← BitVec.ofInt_add, sub_add_cancel]
  rw [abs_lt] at hmove
  rw [hsub, BitVec.signExtend, BitVec.toInt_ofInt]
  congr 1
  exact Int.bmod_eq_of_le_mul_two (by omega) (by omega)

/-- The test for a boundary that is crossed upwards. -/
lemma up_iff (hmove : |p' - p| < 2147483648) :
    (BitVec.ofInt 32 p' < BitVec.ofInt 32 p ∧
      0x80000000 < BitVec.ofInt 32 p - BitVec.ofInt 32 p') ↔
        p' / 4294967296 = p / 4294967296 + 1 := by
  have hp := toNat_ofInt_eq p
  have hp' := toNat_ofInt_eq p'
  rw [abs_lt] at hmove
  rw [BitVec.lt_def, BitVec.lt_def, BitVec.toNat_sub]
  have hhalf : (0x80000000 : BitVec 32).toNat = 2147483648 := rfl
  rw [hhalf]
  omega

lemma down_iff (hmove : |p' - p| < 2147483648) :
    (BitVec.ofInt 32 p < BitVec.ofInt 32 p' ∧
      0x80000000 < BitVec.ofInt 32 p' - BitVec.ofInt 32 p) ↔
        p' / 4294967296 = p / 4294967296 - 1 := by
  rw [up_iff (by rwa [abs_sub_comm])]
  omega

/-! ### The index -/

/-- A boundary of the set, crossed with index-enable set. -/
def Latches (c p p' : ℤ) (pin : Pins D) : Prop :=
  pin.indexEnable = true ∧ p / 4294967296 ≠ p' / 4294967296 ∧
    max (p / 4294967296) (p' / 4294967296) % pin.indexDiv.toNat = c % pin.indexDiv.toNat
  deriving Decidable

/-- What a read does when the true position moves from `p` to `p'`: the boundaries with the
remainder of `c` by the divisor are those that clear index-enable. -/
structure IndexLaw (c p p' : ℤ) (e e' : Instance D) : Prop where
  accum : e'.accum = BitVec.ofInt 64 p'
  indexEnable : e'.pin.indexEnable = (e.pin.indexEnable && !decide (Latches c p p' e.pin))
  offset : e'.offset = if e.pin.reset then BitVec.ofInt 64 p'
    else if Latches c p p' e.pin then
      BitVec.ofInt 64 (max (p / 4294967296) (p' / 4294967296) * 4294967296)
    else e.offset

/-- The wrapped count of the revolutions has the remainder of `t` exactly if the true one has:
they differ by a multiple of the divisor, or neither has. -/
def Alike (N : ℕ) (t k : ℤ) : Prop :=
  (N : ℤ) ∣ 4294967296 * (k / 4294967296) ∨ k % N ≠ t % N ∧ k % 4294967296 % N ≠ t % N

lemma alike_iff (N : ℕ) (t k : ℤ) :
    Alike N t k ↔ (k % 4294967296 % N = t % N ↔ k % N = t % N) := by
  have hdiff : k - k % 4294967296 = 4294967296 * (k / 4294967296) := by omega
  have hsame : k % N = k % 4294967296 % N ↔ (N : ℤ) ∣ 4294967296 * (k / 4294967296) := by
    rw [Int.emod_eq_emod_iff_emod_sub_eq_zero, hdiff, ← Int.dvd_iff_emod_eq_zero]
  rw [Alike, ← hsame]
  constructor
  · rintro (heq | ⟨hk, hwrapped⟩)
    · rw [heq]
    · exact iff_of_false hwrapped hk
  · intro hiff
    by_cases hk : k % N = t % N
    · exact .inl (hk.trans (hiff.2 hk).symm)
    · exact .inr ⟨hk, fun h => hk (hiff.1 h)⟩

/-- A divisor of `2 ^ 32` will do. -/
lemma alike_of_dvd {N : ℕ} (h : N ∣ 4294967296) (t k : ℤ) : Alike N t k :=
  .inl (Dvd.dvd.mul_right (by exact_mod_cast h) _)

/-- What is asked of a read that crosses a boundary with index-enable set. -/
def Clean (p p' : ℤ) (pin : Pins D) : Prop :=
  pin.indexEnable = true → p / 4294967296 ≠ p' / 4294967296 →
    pin.indexDiv ≠ 0 ∧
      Alike pin.indexDiv.toNat (if p < p' then 1 else 0) (p' / 4294967296)

/-- The count after a crossing, as the code has it. -/
lemma toNat_emod (k : ℤ) (N : BitVec 32) :
    ((BitVec.ofInt 32 k % N).toNat : ℤ) = k % 4294967296 % N.toNat := by
  rw [BitVec.toNat_umod, Int.natCast_mod, toNat_ofInt_eq]

/-- The test of the upward crossing. -/
lemma up_test_iff (k : ℤ) {N : BitVec 32} (hN : N ≠ 0) :
    (1 < N ∧ (BitVec.ofInt 32 k % N).toInt = 1 ∨ N = 1 ∧ (BitVec.ofInt 32 k % N).toInt = 0) ↔
      k % 4294967296 % N.toNat = 1 % N.toNat := by
  have hlt : (BitVec.ofInt 32 k % N).toNat < N.toNat := by
    rw [BitVec.toNat_umod]
    exact Nat.mod_lt _ (by bv_omega)
  have hint := BitVec.toInt_eq_toNat_cond (BitVec.ofInt 32 k % N)
  rw [← toNat_emod]
  by_cases hone : N = 1
  · subst hone
    have hzero : (BitVec.ofInt 32 k % 1).toNat = 0 := Nat.lt_one_iff.1 hlt
    refine iff_of_true (.inr ⟨rfl, ?_⟩) ?_
    · rw [hint, hzero]
      rfl
    · rw [hzero]
      rfl
  · have hN1 : 1 < N.toNat := by bv_omega
    have hmod : (1 : ℤ) % N.toNat = 1 := Int.emod_eq_of_lt (by norm_num) (by exact_mod_cast hN1)
    have hlt1 : 1 < N := hN1
    rw [hmod]
    simp only [hlt1, hone, true_and, false_and, or_false, hint]
    split_ifs <;> omega

lemma down_test_iff (k : ℤ) (N : BitVec 32) :
    BitVec.ofInt 32 k % N = 0 ↔ k % 4294967296 % N.toNat = 0 % N.toNat := by
  rw [← toNat_emod, Int.zero_emod, ← BitVec.toNat_inj]
  exact Int.natCast_eq_zero.symm

/-! ### A crossing -/

/-- What happens at the boundary of the revolution `b` if the test is `T`; the count is `k`. -/
def crossing (k b : ℤ) (T : Prop) [Decidable T] (e : Instance D) : Option (Instance D) :=
  let e := { e with indexCnts := BitVec.ofInt 32 k }
  if e.pin.indexEnable then
    if e.pin.indexDiv = 0 then none
    else if T then
      some { e with offset := BitVec.ofInt 64 (b * 4294967296), pin.indexEnable := false }
    else some e
  else some e

/-- The start of the revolution, from the accumulator and the register. -/
lemma accum_sub (p : ℤ) :
    BitVec.ofInt 64 p - (BitVec.ofInt 32 p).setWidth 64
      = BitVec.ofInt 64 (p / 4294967296 * 4294967296) := by
  rw [WrappedCounter.setWidth_ofInt (by decide), WrappedCounter.ofInt_sub_ofInt]
  congr 1
  omega

lemma indexUp_eq (haccum : e.accum = BitVec.ofInt 64 p')
    (hcnts : e.indexCnts + 1 = BitVec.ofInt 32 (p' / 4294967296)) :
    indexUp (BitVec.ofInt 32 p') e = crossing (p' / 4294967296) (p' / 4294967296)
      (p' / 4294967296 % 4294967296 % e.pin.indexDiv.toNat = 1 % e.pin.indexDiv.toNat) e := by
  rw [indexUp, crossing, hcnts, haccum, accum_sub]
  dsimp only
  split_ifs with henable hzero htest hT hT
  · rfl
  · rfl
  · exact absurd ((up_test_iff _ hzero).1 htest) hT
  · exact absurd ((up_test_iff _ hzero).2 hT) htest
  · rfl
  · rfl

lemma indexDown_eq (haccum : e.accum = BitVec.ofInt 64 p')
    (hcnts : e.indexCnts - 1 = BitVec.ofInt 32 (p' / 4294967296)) :
    indexDown (BitVec.ofInt 32 p') e = crossing (p' / 4294967296) (p' / 4294967296 + 1)
      (p' / 4294967296 % 4294967296 % e.pin.indexDiv.toNat = 0 % e.pin.indexDiv.toNat) e := by
  have hnext : BitVec.ofInt 64 (p' / 4294967296 * 4294967296) + 0x100000000#64
      = BitVec.ofInt 64 ((p' / 4294967296 + 1) * 4294967296) := by
    have hone : (0x100000000#64 : BitVec 64) = BitVec.ofInt 64 4294967296 := rfl
    rw [hone, ← BitVec.ofInt_add]
    congr 1
    omega
  rw [indexDown, crossing, hcnts, haccum, accum_sub, hnext]
  dsimp only
  split_ifs with henable hzero htest hT hT
  · rfl
  · rfl
  · exact absurd ((down_test_iff _ _).1 htest) hT
  · exact absurd ((down_test_iff _ _).2 hT) htest
  · rfl
  · rfl

/-- A crossing is right exactly if the test is. -/
lemma crossing_iff {k b c : ℤ} {T : Prop} [Decidable T] (hw : TramRead D)
    (haccum : e.accum = BitVec.ofInt 64 p') (hcross : p / 4294967296 ≠ p' / 4294967296)
    (hb : max (p / 4294967296) (p' / 4294967296) = b) :
    (∃ e', (crossing k b T e).map (publish hw i) = some e' ∧ IndexLaw c p p' e e') ↔
      (e.pin.indexEnable = true → e.pin.indexDiv ≠ 0 ∧
        (T ↔ b % e.pin.indexDiv.toNat = c % e.pin.indexDiv.toNat)) := by
  by_cases henable : e.pin.indexEnable = true
  · have hlatches : Latches c p p' e.pin ↔
        b % e.pin.indexDiv.toNat = c % e.pin.indexDiv.toNat := by
      rw [Latches, hb, and_iff_right henable, and_iff_right hcross]
    rw [← hlatches, crossing]
    dsimp only
    rw [if_pos henable, imp_iff_right henable]
    by_cases hzero : e.pin.indexDiv = 0
    · rw [if_pos hzero]
      exact iff_of_false (fun ⟨_, h, _⟩ => by cases h) fun h => h.1 hzero
    · rw [if_neg hzero, and_iff_right hzero]
      by_cases hT : T
      · rw [if_pos hT, Option.map_some]
        constructor
        · rintro ⟨e', he', hlaw⟩
          cases he'
          have hcleared : false = (e.pin.indexEnable && !decide (Latches c p p' e.pin)) :=
            hlaw.indexEnable
          rw [henable, Bool.true_and] at hcleared
          refine iff_of_true hT ?_
          simpa using hcleared
        · intro hiff
          have hlatch := hiff.1 hT
          refine ⟨_, rfl, haccum, ?_, ?_⟩
          · rw [decide_eq_true hlatch, Bool.not_true, Bool.and_false]
            rfl
          · rw [if_pos hlatch, ← hb, hb, ← haccum]
            rfl
      · rw [if_neg hT, Option.map_some]
        constructor
        · rintro ⟨e', he', hlaw⟩
          cases he'
          have hset : e.pin.indexEnable = (e.pin.indexEnable && !decide (Latches c p p' e.pin)) :=
            hlaw.indexEnable
          rw [henable, Bool.true_and] at hset
          refine iff_of_false hT ?_
          simpa using hset
        · intro hiff
          have hlatch : ¬ Latches c p p' e.pin := fun h => hT (hiff.2 h)
          refine ⟨_, rfl, haccum, ?_, ?_⟩
          · rw [decide_eq_false hlatch, Bool.not_false, Bool.and_true]
            rfl
          · rw [if_neg hlatch, ← haccum]
            rfl
  · have hlatch : ¬ Latches c p p' e.pin := fun h => henable h.1
    have hstay : crossing k b T e = some { e with indexCnts := BitVec.ofInt 32 k } :=
      if_neg henable
    rw [hstay, Option.map_some]
    refine iff_of_true ⟨_, rfl, haccum, ?_, ?_⟩ fun h => absurd h henable
    · rw [decide_eq_false hlatch, Bool.not_false, Bool.and_true]
      rfl
    · rw [if_neg hlatch, ← haccum]
      rfl

/-! ### One read -/

/-- The revolution changes by one at most. -/
lemma revolution_cases (hmove : |p' - p| < 2147483648) :
    p' / 4294967296 = p / 4294967296 ∨ p' / 4294967296 = p / 4294967296 + 1 ∧ p < p' ∨
      p' / 4294967296 = p / 4294967296 - 1 ∧ ¬ p < p' := by
  rw [abs_lt] at hmove
  omega

/-- The accumulator is moved on, and the scales are checked. -/
def moved (p' : ℤ) (e : Instance D) : Instance D :=
  { e with
    accum := BitVec.ofInt 64 p'
    pin.scale := checkScale e.pin.scale
    pin.velScale := checkScale e.pin.velScale }

/-- What a read does, by the boundary that is crossed. -/
lemma processResolver_eq (h : Tracked p e) (hw : TramRead D) (i : ℕ)
    (hreg : hw.positionReg i = BitVec.ofInt 32 p') (hmove : |p' - p| < 2147483648) :
    processResolver hw i e = Option.map (publish hw i)
      (if p' / 4294967296 = p / 4294967296 then some (moved p' e)
      else if p < p' then crossing (p' / 4294967296) (p' / 4294967296)
        (p' / 4294967296 % 4294967296 % e.pin.indexDiv.toNat = 1 % e.pin.indexDiv.toNat)
        (moved p' e)
      else crossing (p' / 4294967296) (p' / 4294967296 + 1)
        (p' / 4294967296 % 4294967296 % e.pin.indexDiv.toNat = 0 % e.pin.indexDiv.toNat)
        (moved p' e)) := by
  have haccum : e.accum + (BitVec.ofInt 32 p' - e.oldReg).signExtend 64 = BitVec.ofInt 64 p' := by
    rw [h.accum, h.oldReg, signExtend_sub hmove, ← BitVec.ofInt_add, add_sub_cancel]
  have hup := up_iff hmove
  have hdown := down_iff hmove
  rw [← h.oldReg] at hup hdown
  rw [processResolver, hreg, processPosition]
  dsimp only
  rw [haccum]
  congr 1
  obtain hsame | ⟨hnext, hlt⟩ | ⟨hprev, hlt⟩ := revolution_cases hmove
  · rw [if_neg (by rw [hup]; omega), if_neg (by rw [hdown]; omega), if_pos hsame]
    rfl
  · rw [if_pos (hup.2 hnext), if_neg (by omega), if_pos hlt]
    refine indexUp_eq (e := moved p' e) rfl ?_
    show e.indexCnts + 1 = _
    rw [h.indexCnts, hnext, BitVec.ofInt_add]
    rfl
  · rw [if_neg (by rw [hup]; omega), if_pos (hdown.2 hprev), if_neg (by omega), if_neg hlt]
    refine indexDown_eq (e := moved p' e) rfl ?_
    have hcount : p / 4294967296 = p' / 4294967296 + 1 := by omega
    show e.indexCnts - 1 = _
    rw [h.indexCnts, hcount, BitVec.ofInt_add]
    exact BitVec.add_sub_cancel _ _

lemma crossing_some {k b : ℤ} {T : Prop} [Decidable T] (h : crossing k b T e = some e') :
    e'.accum = e.accum ∧ e'.indexCnts = BitVec.ofInt 32 k := by
  rw [crossing] at h
  dsimp only at h
  split_ifs at h
  all_goals
    cases h
    exact ⟨rfl, rfl⟩

/-- The positions are tracked whatever the index does. -/
lemma Tracked.read (h : Tracked p e) {hw : TramRead D} {i : ℕ}
    (hreg : hw.positionReg i = BitVec.ofInt 32 p') (hmove : |p' - p| < 2147483648)
    (hread : processResolver hw i e = some e') : Tracked p' e' := by
  rw [processResolver_eq h hw i hreg hmove] at hread
  obtain ⟨e₁, he₁, rfl⟩ := Option.map_eq_some_iff.1 hread
  have htracked : e₁.accum = BitVec.ofInt 64 p' ∧
      e₁.indexCnts = BitVec.ofInt 32 (p' / 4294967296) := by
    split_ifs at he₁ with hsame hlt
    · cases he₁
      refine ⟨rfl, ?_⟩
      rw [hsame]
      exact h.indexCnts
    · exact crossing_some he₁
    · exact crossing_some he₁
  exact ⟨htracked.1, hreg, htracked.2⟩

/-- When a read of one resolver is right. -/
lemma processResolver_iff (h : Tracked p e) {hw : TramRead D} {i : ℕ}
    (hreg : hw.positionReg i = BitVec.ofInt 32 p') (hmove : |p' - p| < 2147483648) :
    (∃ e', processResolver hw i e = some e' ∧ IndexLaw 1 p p' e e') ↔ Clean p p' e.pin := by
  have hlaw : ∀ e', IndexLaw 1 p p' e e' ↔ IndexLaw 1 p p' (moved p' e) e' := by
    intro e'
    exact ⟨fun ⟨ha, hi, ho⟩ => ⟨ha, hi, ho⟩, fun ⟨ha, hi, ho⟩ => ⟨ha, hi, ho⟩⟩
  rw [processResolver_eq h hw i hreg hmove]
  obtain hsame | ⟨hnext, hlt⟩ | ⟨hprev, hlt⟩ := revolution_cases hmove
  · have hlatch : ¬ Latches 1 p p' e.pin := fun h => h.2.1 hsame.symm
    rw [if_pos hsame, Option.map_some]
    refine iff_of_true ⟨_, rfl, rfl, ?_, ?_⟩ fun _ hcross => absurd hsame.symm hcross
    · rw [decide_eq_false hlatch, Bool.not_false, Bool.and_true]
      rfl
    · rw [if_neg hlatch]
      rfl
  · have hcross : p / 4294967296 ≠ p' / 4294967296 := by omega
    rw [if_neg (by omega), if_pos hlt]
    simp only [hlaw]
    rw [crossing_iff hw rfl hcross (by omega), Clean, if_pos hlt, alike_iff]
    exact forall_congr' fun _ => ⟨fun h _ => h, fun h => h hcross⟩
  · have hcross : p / 4294967296 ≠ p' / 4294967296 := by omega
    have hsucc : ∀ N : ℕ, (p' / 4294967296 + 1) % N = 1 % N ↔ p' / 4294967296 % N = 0 % N := by
      intro N
      rw [Int.emod_eq_emod_iff_emod_sub_eq_zero, add_sub_cancel_right,
        Int.emod_eq_emod_iff_emod_sub_eq_zero, sub_zero]
    rw [if_neg (by omega), if_neg hlt]
    simp only [hlaw]
    rw [crossing_iff hw rfl hcross (by omega), Clean, if_neg hlt, alike_iff]
    show (_ → _ ∧ (_ ↔ (p' / 4294967296 + 1) % e.pin.indexDiv.toNat = 1 % e.pin.indexDiv.toNat)) ↔ _
    rw [hsucc]
    exact forall_congr' fun _ => ⟨fun h _ => h, fun h => h hcross⟩

/-! ### Runs -/

/-- A read: the pins as others have set them, the registers, and the true positions. -/
structure Read (D : Doubles) where
  pins : ℕ → Pins D
  hw : TramRead D
  pos : ℕ → ℤ

/-- The registers show the true positions. -/
def Read.registers (r : Read D) : TramRead D :=
  { r.hw with positionReg := fun i => BitVec.ofInt 32 (r.pos i) }

/-- The pins of a resolver are set. -/
def Instance.setPins (e : Instance D) (pin : Pins D) : Instance D := { e with pin := pin }

/-- A read of `n` resolvers, with the true positions. -/
def step (n : ℕ) (s : (ℕ → Instance D) × (ℕ → ℤ)) (r : Read D) :
    Option ((ℕ → Instance D) × (ℕ → ℤ)) :=
  (processTramRead n r.registers fun i => (s.1 i).setPins (r.pins i)).map fun es => (es, r.pos)

/-- No resolver moves by half a revolution. -/
def Moves (n : ℕ) (s : (ℕ → Instance D) × (ℕ → ℤ)) (r : Read D) : Prop :=
  ∀ i < n, |r.pos i - s.2 i| < 2147483648

/-- All crossings are clean. -/
def AllClean (n : ℕ) (s : (ℕ → Instance D) × (ℕ → ℤ)) (r : Read D) : Prop :=
  ∀ i < n, Clean (s.2 i) (r.pos i) (r.pins i)

/-- The read is done, and the law holds for all resolvers. -/
def Right (n : ℕ) (c : ℕ → ℤ) (s : (ℕ → Instance D) × (ℕ → ℤ)) (r : Read D) : Prop :=
  ∃ s', step n s r = some s' ∧
    ∀ i < n, IndexLaw (c i) (s.2 i) (r.pos i) ((s.1 i).setPins (r.pins i)) (s'.1 i)

/-- The resolvers as they are allocated: all is zero. -/
def allocated (pins : ℕ → Pins D) : (ℕ → Instance D) × (ℕ → ℤ) :=
  (fun i => { pin := pins i, accum := 0, offset := 0, oldReg := 0, indexCnts := 0 }, fun _ => 0)

lemma step_eq_some (n : ℕ) (s s' : (ℕ → Instance D) × (ℕ → ℤ)) (r : Read D) :
    step n s r = some s' ↔
      Each n (processResolver r.registers) (fun i => (s.1 i).setPins (r.pins i)) s'.1 ∧
        s'.2 = r.pos := by
  rw [step, Option.map_eq_some_iff]
  constructor
  · rintro ⟨es, hes, rfl⟩
    exact ⟨(foldlM_iff_each _ _ _).1 hes, rfl⟩
  · rintro ⟨heach, hpos⟩
    exact ⟨s'.1, (foldlM_iff_each _ _ _).2 heach, by rw [← hpos]⟩

lemma Tracked.setPins (h : Tracked p e) (pin : Pins D) : Tracked p (e.setPins pin) :=
  ⟨h.accum, h.oldReg, h.indexCnts⟩

/-- **In every run of clean reads the next one keeps the accumulated position and the law of the
index, with the same boundaries for both directions, exactly if its crossings are clean.** -/
theorem index_law_iff {pins : ℕ → Pins D} {s : (ℕ → Instance D) × (ℕ → ℤ)}
    (h : Reach (step n) (fun s r => Moves n s r ∧ AllClean n s r) (allocated pins) s)
    {r : Read D} (hmove : Moves n s r) : Right n (fun _ => 1) s r ↔ AllClean n s r := by
  have htracked : ∀ i < n, Tracked (s.2 i) (s.1 i) := by
    refine Reach.invariant (P := fun s => ∀ i < n, Tracked (s.2 i) (s.1 i))
      (fun i _ => ⟨rfl, rfl, rfl⟩) (fun {s r s'} hs hok hstep i hi => ?_) h
    obtain ⟨heach, hpos⟩ := (step_eq_some n s s' r).1 hstep
    rw [hpos]
    exact ((hs i hi).setPins (r.pins i)).read rfl (hok.1 i hi) (heach.1 i hi)
  have hiff := exists_each_iff (n := n)
    (P := fun i e' => IndexLaw 1 (s.2 i) (r.pos i) ((s.1 i).setPins (r.pins i)) e')
    (processResolver r.registers) (fun i => (s.1 i).setPins (r.pins i))
  have hright : Right n (fun _ => 1) s r ↔ ∃ es', Each n (processResolver r.registers)
      (fun i => (s.1 i).setPins (r.pins i)) es' ∧
      ∀ i < n, IndexLaw 1 (s.2 i) (r.pos i) ((s.1 i).setPins (r.pins i)) (es' i) := by
    constructor
    · rintro ⟨s', hstep, hlaw⟩
      exact ⟨s'.1, ((step_eq_some n s s' r).1 hstep).1, hlaw⟩
    · rintro ⟨es', heach, hlaw⟩
      exact ⟨(es', r.pos), (step_eq_some n s _ r).2 ⟨heach, rfl⟩, hlaw⟩
  rw [hright, hiff]
  exact forall₂_congr fun i hi =>
    processResolver_iff ((htracked i hi).setPins (r.pins i)) rfl (hmove i hi)

/-- Pins that look for the index. -/
def indexPins (indexDiv : BitVec 32) : Pins wholeDoubles where
  rawcounts := 0
  count := 0
  angle := (0 : ℤ)
  position := (0 : ℤ)
  velocity := (0 : ℤ)
  reset := false
  indexEnable := true
  error := false
  scale := (1 : ℤ)
  velScale := (1 : ℤ)
  indexDiv := indexDiv

/-- A read of such pins at a position. -/
def readAt (indexDiv : BitVec 32) (pos : ℤ) : Read wholeDoubles where
  pins := fun _ => indexPins indexDiv
  hw := { positionReg := fun _ => 0, velocityReg := fun _ => 0, statusReg := 0, kHz := (10 : ℤ) }
  pos := fun _ => pos

/-- Four index pulses a turn. -/
theorem index_law_four :
    Right 1 (fun _ => 1) (allocated fun _ => indexPins 4) (readAt 4 (-5)) := by
  refine (index_law_iff Reach.refl fun i _ => ?_).2 fun i _ _ _ => ⟨?_, alike_of_dvd ?_ _ _⟩
  · show |(-5 : ℤ) - 0| < 2147483648
    decide
  · show (4 : BitVec 32) ≠ 0
    decide
  · show (4 : BitVec 32).toNat ∣ 4294967296
    decide

/-- Where index-enable is cleared there is a boundary of the set. -/
lemma latches_of_right {c : ℕ → ℤ} {s : (ℕ → Instance D) × (ℕ → ℤ)} {r : Read D}
    (h : Right 1 c s r)
    (hcleared : (step 1 s r).map (fun s => (s.1 0).pin.indexEnable) = some false)
    (henable : (r.pins 0).indexEnable = true) : Latches (c 0) (s.2 0) (r.pos 0) (r.pins 0) := by
  obtain ⟨s', hstep, hlaw⟩ := h
  have hindex : (s'.1 0).pin.indexEnable
      = ((r.pins 0).indexEnable && !decide (Latches (c 0) (s.2 0) (r.pos 0) (r.pins 0))) :=
    (hlaw 0 Nat.one_pos).indexEnable
  rw [hstep, Option.map_some, Option.some_inj] at hcleared
  rw [hcleared, henable, Bool.true_and] at hindex
  simpa using hindex

/-- With the divisor 3, index-enable is cleared at the boundary 0 downwards and at the boundary 1
upwards: these are not three revolutions apart. -/
theorem index_both_ways :
    ¬ ∃ c : BitVec 32 → ℤ, ∀ (D : Doubles) (n : ℕ) (pins : ℕ → Pins D)
      (s : (ℕ → Instance D) × (ℕ → ℤ)) (r : Read D),
      Reach (step n) (Moves n) (allocated pins) s → Moves n s r →
      (∀ i < n, (r.pins i).indexDiv ≠ 0) → Right n (fun i => c (r.pins i).indexDiv) s r := by
  rintro ⟨c, hall⟩
  have hthree : ∀ pos : ℤ, ∀ i < 1, ((readAt 3 pos).pins i).indexDiv ≠ 0 := by
    intro pos i _
    show (3 : BitVec 32) ≠ 0
    decide
  have hmoves : ∀ (s : (ℕ → Instance wholeDoubles) × (ℕ → ℤ)) (p p' : ℤ),
      s.2 = (fun _ => p) → |p' - p| < 2147483648 → Moves 1 s (readAt 3 p') := by
    intro s p p' hs hmove i _
    rw [hs]
    exact hmove
  have hdown := latches_of_right (hall wholeDoubles 1 (fun _ => indexPins 3) _ (readAt 3 (-1))
    Reach.refl (hmoves _ 0 _ rfl (by decide)) (hthree _)) (by decide) rfl
  have hzero : (0 : ℤ) % 3 = c 3 % 3 := hdown.2.2
  -- two reads to the end of the first revolution, and one over it
  have hrun : ((((step 1 (allocated fun _ => indexPins 3) (readAt 3 2147483647)).bind
      fun s => step 1 s (readAt 3 4294967294)).bind
      fun s => step 1 s (readAt 3 4294967296)).map fun s => (s.1 0).pin.indexEnable)
      = some false := by decide
  obtain ⟨s₁, hs₁⟩ : ∃ s₁, step 1 (allocated fun _ => indexPins 3) (readAt 3 2147483647)
      = some s₁ := ⟨_, rfl⟩
  obtain ⟨s₂, hs₂⟩ : ∃ s₂, step 1 s₁ (readAt 3 4294967294) = some s₂ := by
    cases hs₁
    exact ⟨_, rfl⟩
  have hpos₁ := ((step_eq_some _ _ _ _).1 hs₁).2
  have hpos₂ := ((step_eq_some _ _ _ _).1 hs₂).2
  rw [hs₁, Option.bind_some, hs₂, Option.bind_some] at hrun
  have hreach : Reach (step 1) (Moves 1) (allocated fun _ => indexPins 3) s₂ :=
    (Reach.refl.tail (hmoves _ 0 _ rfl (by decide)) hs₁).tail
      (hmoves _ _ _ hpos₁ (by decide)) hs₂
  have hup := latches_of_right (hall wholeDoubles 1 (fun _ => indexPins 3) s₂ (readAt 3 4294967296)
    hreach (hmoves _ _ _ hpos₂ (by decide)) (hthree _)) hrun rfl
  have hone : (1 : ℤ) % 3 = c 3 % 3 := by
    have hrem := hup.2.2
    rw [hpos₂] at hrem
    exact hrem
  omega

end MachinekitHal.Hm2Resolver
