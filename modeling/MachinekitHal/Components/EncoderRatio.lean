import MachinekitHal.Components.EncoderQuadrature

/-!
`encoder_ratio.c`: an electronic gear, one channel of `sample` and `update`.

Edges of the two encoders are added to an `int`, with increments that are products of the
parameters; `update` divides it. The products are `u32`.

* `RatioParams`, `EncoderPair`, `RatioInput`: the parameters, the state, and what `sample` reads.
* `RatioAct`, `EncoderPair.after`: the calls of `sample` and `update`, in any order.
* `RatioParams.edgeError`: the error that the edges of a run make up; `after_error`: what the
  output is.
* `encoder_ratio_exact`: when it is that error; `encoder_ratio_lost`: not after an edge that came
  before the first call of `update`.
-/

namespace MachinekitHal

open Quadrature Word

/-! ### The functions -/

/-- The parameters; they do not change. -/
structure RatioParams where
  masterPpr : ℕ
  slavePpr : ℕ
  masterTeeth : ℕ
  slaveTeeth : ℕ

namespace RatioParams

variable (P : RatioParams)

/-- The scale factors; the products are `u32`. -/
def masterIncrement : ℤ := wrapInt (wrap32 (P.masterTeeth * P.slavePpr))
def slaveIncrement : ℤ := wrapInt (wrap32 (P.slaveTeeth * P.masterPpr))
def outputScale : ℕ := wrap32 (wrap32 (P.masterPpr * P.slavePpr) * P.slaveTeeth)

end RatioParams

/-- `encoder_pair_t`: the internal data, and the output. -/
structure EncoderPair where
  masterState : ℕ
  slaveState : ℕ
  rawError : ℤ
  masterIncrement : ℤ
  slaveIncrement : ℤ
  outputScale : ℚ
  error : ℚ

/-- The pins that `sample` reads. -/
structure RatioInput where
  masterA : Bool
  masterB : Bool
  slaveA : Bool
  slaveB : Bool
  enable : Bool

/-- Lookup table for quadrature decode state machine. -/
def ratioLut : List ℕ := [0x00, 0x44, 0x88, 0x0C, 0x80, 0x04, 0x08, 0x4C,
  0x40, 0x04, 0x08, 0x8C, 0x00, 0x84, 0x48, 0x0C]

/-- Adds input bits to the state code, and looks up the new state. -/
def ratioDecode (state : ℕ) (phaseA phaseB : Bool) : ℕ :=
  let state := if phaseA then state ||| 0x01 else state
  let state := if phaseB then state ||| 0x02 else state
  ratioLut.getD (state &&& 0x0F) 0

/-- An edge adds or subtracts the increment. -/
def addEdge (state : ℕ) (rawError increment : ℤ) : ℤ :=
  if state &&& 0x40 ≠ 0 then wrapInt (rawError + increment)
  else if state &&& 0x80 ≠ 0 then wrapInt (rawError - increment)
  else rawError

namespace EncoderPair

variable (c : EncoderPair)

/-- `sample`, for one pair: the master counts backwards, if the pair is enabled. -/
def sample (i : RatioInput) : EncoderPair :=
  let masterState := ratioDecode c.masterState i.masterA i.masterB
  let slaveState := ratioDecode c.slaveState i.slaveA i.slaveB
  let rawError := if i.enable then addEdge masterState c.rawError (-c.masterIncrement)
    else c.rawError
  { c with masterState
           slaveState
           rawError := addEdge slaveState rawError c.slaveIncrement }

/-- `update`, for one pair: scales the raw error to the output pin, and updates the scale
factors. -/
def update (P : RatioParams) : EncoderPair :=
  { c with error := if 0 < c.outputScale then c.rawError / c.outputScale else c.error
           masterIncrement := P.masterIncrement
           slaveIncrement := P.slaveIncrement
           outputScale := P.outputScale }

/-- What `rtapi_app_main` sets. -/
def init : EncoderPair := ⟨0, 0, 0, 0, 0, 1, 0⟩

end EncoderPair

/-- A call of one of the functions. -/
inductive RatioAct where
  | sample (i : RatioInput)
  | update

/-- The state after a call, and after some calls. -/
def EncoderPair.step (P : RatioParams) (c : EncoderPair) : RatioAct → EncoderPair
  | .sample i => c.sample i
  | .update => c.update P
def EncoderPair.after (P : RatioParams) (c : EncoderPair) (as : List RatioAct) : EncoderPair :=
  as.foldl (EncoderPair.step P) c

lemma after_update (P : RatioParams) (c : EncoderPair) (as : List RatioAct) :
    c.after P (.update :: as) = (c.update P).after P as := by
  rw [EncoderPair.after, List.foldl_cons, EncoderPair.step, EncoderPair.after]

/-! ### Edges -/

/-- The samples of the master and of the slave. -/
def ratioInputs (as : List RatioAct) : List RatioInput :=
  as.filterMap fun a => match a with
    | .sample i => some i
    | .update => none
def masterSamples (as : List RatioAct) : List (Bool × Bool) :=
  (ratioInputs as).map fun i => (i.masterA, i.masterB)
def slaveSamples (as : List RatioAct) : List (Bool × Bool) :=
  (ratioInputs as).map fun i => (i.slaveA, i.slaveB)

/-- The net numbers of edges. -/
def masterEdges (as : List RatioAct) : ℤ := net (false, false) (masterSamples as)
def slaveEdges (as : List RatioAct) : ℤ := net (false, false) (slaveSamples as)

/-- The calls in front of the first one of `update`. -/
def beforeUpdate (as : List RatioAct) : List RatioAct :=
  as.takeWhile fun a => match a with
    | .sample _ => true
    | .update => false

/-! ### Runs -/

section Run

variable {c : EncoderPair} {p q : Bool × Bool} {i : RatioInput} {P : RatioParams}
  {as : List RatioAct} {n : ℤ}

/-- The table keeps the sample, and counts the edges. -/
lemma ratioDecode_spec {state : ℕ} (hp : state &&& 0x0F = sampleBits p) (a b : Bool) :
    ratioDecode state a b &&& 0x0F = sampleBits (a, b) ∧
      countOf (ratioDecode state a b) = edge p (a, b) := by
  have hdecode : ratioDecode state a b =
      (quadLut true).getD (sampleBits p ||| inputBits (a, b)) 0 :=
    congrArg (fun k => List.getD ratioLut k 0) (quadIndex hp a b)
  rw [hdecode]
  exact quadLut_spec true p (a, b)

lemma addEdge_eq (state : ℕ) (n inc : ℤ) :
    addEdge state (wrapInt n) inc = wrapInt (n + countOf state * inc) := by
  rw [addEdge, countOf]
  split_ifs
  · rw [wrapInt_add, one_mul]
  · rw [Int.sub_eq_add_neg, wrapInt_add, neg_one_mul]
  · rw [zero_mul, Int.add_zero]

/-- The pair keeps the last samples. -/
structure RatioKeeps (c : EncoderPair) (p q : Bool × Bool) : Prop where
  master : c.masterState &&& 0x0F = sampleBits p
  slave : c.slaveState &&& 0x0F = sampleBits q

/-- A sample of an enabled pair. -/
lemma RatioKeeps.sample (h : RatioKeeps c p q) (hen : i.enable = true)
    (hraw : c.rawError = wrapInt n) :
    RatioKeeps (c.sample i) (i.masterA, i.masterB) (i.slaveA, i.slaveB) ∧
      (c.sample i).rawError = wrapInt (n + (edge q (i.slaveA, i.slaveB) * c.slaveIncrement -
        edge p (i.masterA, i.masterB) * c.masterIncrement)) := by
  obtain ⟨hm, hmc⟩ := ratioDecode_spec h.master i.masterA i.masterB
  obtain ⟨hs, hsc⟩ := ratioDecode_spec h.slave i.slaveA i.slaveB
  refine ⟨⟨hm, hs⟩, ?_⟩
  simp only [EncoderPair.sample, hen, if_true, hraw, addEdge_eq, hmc, hsc]
  congr 1
  ring

/-- The increments are those of the parameters. -/
def RatioScaled (P : RatioParams) (c : EncoderPair) : Prop :=
  c.masterIncrement = P.masterIncrement ∧ c.slaveIncrement = P.slaveIncrement ∧
    c.outputScale = P.outputScale

lemma RatioScaled.update (c : EncoderPair) : RatioScaled P (c.update P) := by
  simp only [RatioScaled, EncoderPair.update, and_self]

/-- A run with fixed increments: the edges of both encoders are added. -/
lemma RatioKeeps.run (h : RatioKeeps c p q) (hen : ∀ i ∈ ratioInputs as, i.enable = true)
    (hupd : .update ∈ as → RatioScaled P c) (hraw : c.rawError = wrapInt n) :
    (c.after P as).rawError = wrapInt (n + (net q (slaveSamples as) * c.slaveIncrement -
      net p (masterSamples as) * c.masterIncrement)) ∧
    (c.after P as).slaveIncrement = c.slaveIncrement ∧
    (c.after P as).masterIncrement = c.masterIncrement ∧
    (c.after P as).outputScale = c.outputScale ∧
    RatioKeeps (c.after P as) ((p :: masterSamples as).getLast (List.cons_ne_nil _ _))
      ((q :: slaveSamples as).getLast (List.cons_ne_nil _ _)) := by
  induction as generalizing c p q n with
  | nil =>
    refine ⟨?_, rfl, rfl, rfl, h⟩
    show c.rawError = wrapInt (n + (0 * _ - 0 * _))
    rw [hraw]
    congr 1
    ring
  | cons a as ih =>
    cases a with
    | sample i =>
      obtain ⟨hk, hr⟩ := h.sample (hen i (.head _)) hraw
      obtain ⟨h1, h2, h3, h4, h5⟩ := ih hk (fun j hj => hen j (.tail _ hj))
        (fun hu => hupd (.tail _ hu)) hr
      refine ⟨h1.trans ?_, h2, h3, h4, h5⟩
      have hnets : net q (slaveSamples (.sample i :: as)) = edge q (i.slaveA, i.slaveB) +
          net (i.slaveA, i.slaveB) (slaveSamples as) := rfl
      have hnetm : net p (masterSamples (.sample i :: as)) = edge p (i.masterA, i.masterB) +
          net (i.masterA, i.masterB) (masterSamples as) := rfl
      rw [hnets, hnetm]
      congr 1
      show _ + (_ * c.slaveIncrement - _ * c.masterIncrement) = _
      ring
    | update =>
      obtain ⟨hm, hs, ho⟩ := hupd (.head _)
      have hk : RatioKeeps (c.update P) p q := by
        rw [EncoderPair.update]
        exact ⟨h.master, h.slave⟩
      have hraw' : (c.update P).rawError = wrapInt n := by rw [EncoderPair.update, hraw]
      obtain ⟨h1, h2, h3, h4, h5⟩ := ih hk hen (fun _ => .update c) hraw'
      obtain ⟨hm', hs', ho'⟩ := @RatioScaled.update P c
      have hsl := hs'.trans hs.symm
      have hma := hm'.trans hm.symm
      have hou := ho'.trans ho.symm
      rw [hsl, hma] at h1
      have hsamples : slaveSamples (.update :: as) = slaveSamples as ∧
          masterSamples (.update :: as) = masterSamples as := ⟨rfl, rfl⟩
      simp only [after_update, hsamples]
      exact ⟨h1, h2.trans hsl, h3.trans hma, h4.trans hou, h5⟩

/-- The error that the edges of a run make up, in the units of the increments. -/
def RatioParams.edgeError (P : RatioParams) (as : List RatioAct) : ℤ :=
  slaveEdges as * (P.slaveTeeth * P.masterPpr) - masterEdges as * (P.masterTeeth * P.slavePpr)

/-- The increments are the products, but for multiples of `2 ^ 32`. -/
lemma increments_eq (P : RatioParams) :
    (∃ k, P.masterIncrement = P.masterTeeth * P.slavePpr + 2 ^ 32 * k) ∧
      ∃ k, P.slaveIncrement = P.slaveTeeth * P.masterPpr + 2 ^ 32 * k := by
  have hword : ∀ n : ℕ, ∃ k, wrapInt (wrap32 n) = n + 2 ^ 32 * k := by
    intro n
    obtain ⟨k, hk⟩ := exists_wrapInt_eq (wrap32 n)
    refine ⟨k - n / 4294967296, ?_⟩
    rw [hk, wrap32]
    push_cast
    omega
  refine ⟨?_, ?_⟩
  · rw [RatioParams.masterIncrement]
    exact_mod_cast hword (P.masterTeeth * P.slavePpr)
  · rw [RatioParams.slaveIncrement]
    exact_mod_cast hword (P.slaveTeeth * P.masterPpr)

/-- The triple product, if it fits. -/
lemma outputScale_eq (P : RatioParams) (hpos : 0 < P.slaveTeeth)
    (hfit : P.masterPpr * P.slavePpr * P.slaveTeeth < 2 ^ 32) :
    P.outputScale = P.masterPpr * P.slavePpr * P.slaveTeeth := by
  have hle : P.masterPpr * P.slavePpr ≤ P.masterPpr * P.slavePpr * P.slaveTeeth :=
    Nat.le_mul_of_pos_right _ hpos
  rw [RatioParams.outputScale, wrap32_of_lt (hle.trans_lt hfit), wrap32_of_lt hfit]

/-- No edge is counted before the first call of `update`. -/
lemma before_raw (hno : .update ∉ as) (hen : ∀ i ∈ ratioInputs as, i.enable = true) :
    (EncoderPair.init.after P as).rawError = 0 ∧ (EncoderPair.init.after P as).outputScale = 1 ∧
      RatioKeeps (EncoderPair.init.after P as)
        (((false, false) :: masterSamples as).getLast (List.cons_ne_nil _ _))
        (((false, false) :: slaveSamples as).getLast (List.cons_ne_nil _ _)) := by
  have hkeeps : RatioKeeps .init (false, false) (false, false) := ⟨by decide, by decide⟩
  obtain ⟨h1, -, -, h4, h5⟩ := hkeeps.run (P := P) hen (fun h => absurd h hno) (n := 0) rfl
  refine ⟨h1.trans ?_, h4, h5⟩
  show wrapInt (0 + (_ * 0 - _ * 0)) = 0
  rw [mul_zero, mul_zero]
  rfl

/-- What is in front of the first call of `update`, and the rest. -/
lemma beforeUpdate_append (as : List RatioAct) : .update ∉ beforeUpdate as ∧
    (beforeUpdate as = as ∨ ∃ bs, as = beforeUpdate as ++ .update :: bs) := by
  induction as with
  | nil => exact ⟨List.not_mem_nil, .inl rfl⟩
  | cons a as ih =>
    cases a with
    | update => exact ⟨List.not_mem_nil, .inr ⟨as, rfl⟩⟩
    | sample i =>
      have hbefore : beforeUpdate (.sample i :: as) = .sample i :: beforeUpdate as := rfl
      rw [hbefore]
      refine ⟨fun hmem => ?_, ?_⟩
      · rcases List.mem_cons.1 hmem with h | h
        · cases h
        · exact ih.1 h
      · rcases ih.2 with h | ⟨bs, h⟩
        · exact .inl (by rw [h])
        · exact .inr ⟨bs, by rw [List.cons_append, ← h]⟩

/-- The edges of a run in two parts. -/
lemma edges_append (pre bs : List RatioAct) :
    masterEdges (pre ++ .update :: bs) = masterEdges pre +
      net (((false, false) :: masterSamples pre).getLast (List.cons_ne_nil _ _))
        (masterSamples bs) ∧
    slaveEdges (pre ++ .update :: bs) = slaveEdges pre +
      net (((false, false) :: slaveSamples pre).getLast (List.cons_ne_nil _ _))
        (slaveSamples bs) := by
  have hin : ratioInputs (pre ++ .update :: bs) = ratioInputs pre ++ ratioInputs bs :=
    List.filterMap_append ..
  constructor
  · rw [masterEdges, masterSamples, hin, List.map_append, net_append]
    rfl
  · rw [slaveEdges, slaveSamples, hin, List.map_append, net_append]
    rfl

/-- The edges since the first call, as an `int`. -/
lemma after_raw (hen : ∀ i ∈ ratioInputs as, i.enable = true) :
    (EncoderPair.init.after P as).rawError =
      wrapInt (P.edgeError as - P.edgeError (beforeUpdate as)) ∧
    (beforeUpdate as = as ∨ (EncoderPair.init.after P as).outputScale = P.outputScale) := by
  obtain ⟨hno, hall | ⟨bs, hbs⟩⟩ := beforeUpdate_append as
  · rw [hall] at hno ⊢
    rw [Int.sub_self]
    exact ⟨(before_raw hno hen).1.trans rfl, .inl rfl⟩
  · generalize beforeUpdate as = pre at hno hbs
    subst hbs
    have hin : ratioInputs (pre ++ .update :: bs) = ratioInputs pre ++ ratioInputs bs :=
      List.filterMap_append ..
    rw [hin] at hen
    obtain ⟨hraw, -, hkeeps⟩ := @before_raw P pre hno fun i hi =>
      hen i (List.mem_append_left _ hi)
    obtain ⟨hedgem, hedges⟩ := edges_append pre bs
    generalize ((false, false) :: masterSamples pre).getLast (List.cons_ne_nil _ _) = m
      at hkeeps hedgem
    generalize ((false, false) :: slaveSamples pre).getLast (List.cons_ne_nil _ _) = l
      at hkeeps hedges
    have hkeeps' : RatioKeeps ((EncoderPair.init.after P pre).update P) m l := by
      rw [EncoderPair.update]
      exact ⟨hkeeps.master, hkeeps.slave⟩
    have hraw' : ((EncoderPair.init.after P pre).update P).rawError = wrapInt 0 := by
      rw [EncoderPair.update, hraw]
      rfl
    obtain ⟨hm, hs, ho⟩ := @RatioScaled.update P (EncoderPair.init.after P pre)
    obtain ⟨h1, -, -, h4, -⟩ := @RatioKeeps.run _ _ _ P bs _ hkeeps' (fun i hi =>
      hen i (List.mem_append_right _ hi)) (fun _ => .update _) hraw'
    have hafter : EncoderPair.init.after P (pre ++ .update :: bs) =
        ((EncoderPair.init.after P pre).update P).after P bs := by
      rw [← after_update]
      simp only [EncoderPair.after, List.foldl_append]
    rw [hafter]
    refine ⟨h1.trans ?_, .inr (h4.trans ho)⟩
    obtain ⟨⟨k, hk⟩, k', hk'⟩ := increments_eq P
    rw [hm, hs, hk, hk', ← wrapInt_add_mul _ (net m (masterSamples bs) * k -
      net l (slaveSamples bs) * k'), RatioParams.edgeError, RatioParams.edgeError, hedgem, hedges]
    refine congrArg wrapInt ?_
    ring

/-- The output of a call: the edges since the first call, as an `int`. -/
lemma after_error (hpos : 0 < P.masterPpr ∧ 0 < P.slavePpr ∧ 0 < P.slaveTeeth)
    (hfit : P.masterPpr * P.slavePpr * P.slaveTeeth < 2 ^ 32)
    (hen : ∀ i ∈ ratioInputs as, i.enable = true) :
    ((EncoderPair.init.after P as).update P).error =
      (wrapInt (P.edgeError as - P.edgeError (beforeUpdate as)) : ℚ) /
        (P.masterPpr * P.slavePpr * P.slaveTeeth : ℕ) := by
  obtain ⟨hraw, hscale⟩ := after_raw (P := P) hen
  have hsc : 0 < P.masterPpr * P.slavePpr * P.slaveTeeth :=
    Nat.mul_pos (Nat.mul_pos hpos.1 hpos.2.1) hpos.2.2
  have herror : ((EncoderPair.init.after P as).update P).error =
      if 0 < (EncoderPair.init.after P as).outputScale then
        ((EncoderPair.init.after P as).rawError : ℚ) / (EncoderPair.init.after P as).outputScale
      else (EncoderPair.init.after P as).error := by rw [EncoderPair.update]
  rw [herror, hraw]
  rcases hscale with hall | hscale
  · have hno : .update ∉ as := hall ▸ (beforeUpdate_append as).1
    have hone := (before_raw (P := P) hno hen).2.1
    have hzero : wrapInt 0 = 0 := rfl
    rw [hall, hone, if_pos zero_lt_one, Int.sub_self, hzero]
    simp
  · rw [hscale, outputScale_eq P hpos.2.2 hfit, if_pos (Nat.cast_pos.2 hsc)]

end Run

/-! ### The law -/

/-- The output of a call of `update` is the slave position minus the scaled master position. -/
def RatioLaw (P : RatioParams) (as : List RatioAct) : Prop :=
  ((EncoderPair.init.after P as).update P).error =
    slaveEdges as / P.slavePpr - masterEdges as * P.masterTeeth / (P.masterPpr * P.slaveTeeth)

/-- The output of `update` is the slave position minus the scaled master position exactly if that
fits an `int` in units of the increments, and the edges before the first call of `update` cancel
out but for multiples of `2 ^ 32`; as long as the product of the parameters fits 32 bits. -/
theorem encoder_ratio_exact (P : RatioParams) (as : List RatioAct)
    (hpos : 0 < P.masterPpr ∧ 0 < P.slavePpr ∧ 0 < P.slaveTeeth)
    (hfit : P.masterPpr * P.slavePpr * P.slaveTeeth < 2 ^ 32)
    (hen : ∀ i ∈ ratioInputs as, i.enable = true) :
    RatioLaw P as ↔ -2 ^ 31 ≤ P.edgeError as ∧ P.edgeError as < 2 ^ 31 ∧
      2 ^ 32 ∣ P.edgeError (beforeUpdate as) := by
  obtain ⟨hmp, hsp, hst⟩ := hpos
  have hmp' : (P.masterPpr : ℚ) ≠ 0 := Nat.cast_ne_zero.2 hmp.ne'
  have hsp' : (P.slavePpr : ℚ) ≠ 0 := Nat.cast_ne_zero.2 hsp.ne'
  have hst' : (P.slaveTeeth : ℚ) ≠ 0 := Nat.cast_ne_zero.2 hst.ne'
  have hexact : (slaveEdges as : ℚ) / P.slavePpr -
      masterEdges as * P.masterTeeth / (P.masterPpr * P.slaveTeeth) =
        (P.edgeError as : ℚ) / (P.masterPpr * P.slavePpr * P.slaveTeeth : ℕ) := by
    rw [RatioParams.edgeError]
    push_cast
    field_simp
  have hscale : ((P.masterPpr * P.slavePpr * P.slaveTeeth : ℕ) : ℚ) ≠ 0 :=
    Nat.cast_ne_zero.2 (Nat.mul_pos (Nat.mul_pos hmp hsp) hst).ne'
  rw [RatioLaw, after_error ⟨hmp, hsp, hst⟩ hfit hen, hexact, div_left_inj' hscale, Int.cast_inj,
    wrapInt, Int.bmod_eq_iff (by norm_num)]
  have hdiff : P.edgeError as - (P.edgeError as - P.edgeError (beforeUpdate as)) =
      P.edgeError (beforeUpdate as) := by ring
  rw [hdiff]
  norm_num

/-- One edge of the slave. -/
def slaveEdge : RatioAct := .sample ⟨false, false, true, false, true⟩

/-- An edge after the first call of `update` is seen. -/
theorem encoder_ratio_exact_one : RatioLaw ⟨1, 1, 1, 1⟩ [.update, slaveEdge] ∧
    slaveEdges [.update, slaveEdge] = 1 :=
  ⟨(encoder_ratio_exact ⟨1, 1, 1, 1⟩ [.update, slaveEdge] (by decide) (by decide)
    (by decide)).2 (by decide), by decide⟩

/-- An edge before the first call of `update`, and an edge with parameters whose product is
`2 ^ 32`, do not get to the output. -/
theorem encoder_ratio_lost : ¬ RatioLaw ⟨1, 1, 1, 1⟩ [slaveEdge] ∧
    ¬ RatioLaw ⟨4096, 4096, 1, 256⟩ [.update, slaveEdge] := by
  have hs : slaveEdges [slaveEdge] = 1 ∧ slaveEdges [.update, slaveEdge] = 1 := by decide
  have hm : masterEdges [slaveEdge] = 0 ∧ masterEdges [.update, slaveEdge] = 0 := by decide
  have h0 : RatioParams.outputScale ⟨4096, 4096, 1, 256⟩ = 0 := by decide
  constructor
  · have hraw : wrapInt (RatioParams.edgeError ⟨1, 1, 1, 1⟩ [slaveEdge] -
        RatioParams.edgeError ⟨1, 1, 1, 1⟩ (beforeUpdate [slaveEdge])) = 0 := by decide
    rw [RatioLaw, after_error (by decide) (by decide) (by decide), hraw, hs.1, hm.1]
    norm_num
  · have herror : ((EncoderPair.init.after ⟨4096, 4096, 1, 256⟩ [.update, slaveEdge]).update
        ⟨4096, 4096, 1, 256⟩).error = 0 := by
      simp only [EncoderPair.after, List.foldl_cons, List.foldl_nil, EncoderPair.step, slaveEdge,
        EncoderPair.update, EncoderPair.sample, h0, Nat.cast_zero, lt_irrefl, if_false]
      simp [EncoderPair.init]
    rw [RatioLaw, herror, hs.2, hm.2]
    norm_num

end MachinekitHal
