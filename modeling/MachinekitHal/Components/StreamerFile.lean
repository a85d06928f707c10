import MachinekitHal.Components.Streamer

/-!
Samples that were printed by `halsampler` are streamed again.

* `Sampler.printLines`: the lines for a record. `FloatText`: what is known of `%f` and `strtod`.
* `field_printValue`, `parseLine_printLine`: a printed record is read back; `parseLine_overrun`:
  the line `overrun` is refused.
* `Replayed`: what is asked for. `streamer_replays`: the records come back in every run.
-/

namespace MachinekitHal

open Lines Numerals Runs

namespace Sampler

/-! ### What is printed -/

/-- The text of a value. -/
def printValue (printf : ShmemData → List UInt8) (type : HalType) (value : ShmemData) :
    List UInt8 :=
  match type with
  | .float => printf value
  | .bit => if value ≠ 0 then [49] else [48]
  | .u32 => printInt value.toNat
  | .s32 => printInt (value.setWidth 32).toInt

/-- The texts of the values from the `n`-th one on, with a blank behind each. -/
def printFrom (printf : ShmemData → List UInt8) (type : ℕ → HalType) (n : ℕ)
    (values : List ShmemData) : List UInt8 :=
  (values.zipIdx n).flatMap fun v => printValue printf (type v.2) v.1 ++ [32]

/-- `overrun` -/
def overrunText : List UInt8 := [111, 118, 101, 114, 114, 117, 110]

/-- The lines for a record, without a tag. -/
def printLines (printf : ShmemData → List UInt8) (type : ℕ → HalType) (r : Delivered) :
    List (List UInt8) :=
  (if r.overrun then [overrunText] else []) ++ [printFrom printf type 0 r.values]

/-- The lines for all of them. -/
def fileLines (printf : ShmemData → List UInt8) (type : ℕ → HalType) (rs : List Delivered) :
    List (List UInt8) :=
  rs.flatMap (printLines printf type)

/-- The file. -/
def fileText (printf : ShmemData → List UInt8) (type : ℕ → HalType) (rs : List Delivered) :
    List UInt8 :=
  ((fileLines printf type rs).map (· ++ [10])).flatten

end Sampler

namespace Streamer

open Sampler

/-- A value after it was printed and read. -/
def replay (rounded : ShmemData → ShmemData) (type : Sampler.HalType) (value : ShmemData) :
    ShmemData :=
  match type with
  | .float => rounded value
  | .bit | .u32 | .s32 => value

/-- What is known of `%f` and `strtod`: a text that was printed is read up to the blank behind it,
it has no newline and does not begin with a blank, and `overrun` is no number. -/
structure FloatText (printf : ShmemData → List UInt8)
    (strtod : List UInt8 → ShmemData × List UInt8) (rounded : ShmemData → ShmemData) : Prop where
  reads : ∀ value rest, strtod (printf value ++ 32 :: rest) = (rounded value, 32 :: rest)
  solid : ∀ value, ∃ c cs, printf value = c :: cs ∧ isspace c = false
  oneLine : ∀ value, 10 ∉ printf value
  overrun : strtod (overrunText ++ [10]) = (0, overrunText ++ [10])

section Fields

variable {printf : ShmemData → List UInt8} {strtod : List UInt8 → ShmemData × List UInt8}
  {rounded : ShmemData → ShmemData} {type : Sampler.HalType} {value : ShmemData} {rest : List UInt8}

lemma isspace_cases {c : UInt8} (hc : isspace c = true) : digitVal c = none ∧ c ≠ 45 := by
  have hle : c.toNat ≤ 32 := by
    rw [isspace, Bool.or_eq_true, beq_iff_eq, Bool.and_eq_true] at hc
    rcases hc with rfl | ⟨-, hhigh⟩
    · exact le_rfl
    · exact (UInt8.le_iff_toNat_le.1 (of_decide_eq_true hhigh)).trans (by decide)
  have hnot : ∀ d : UInt8, 32 < d.toNat → ¬ d ≤ c := by
    intro d hd hdc
    exact Nat.not_le_of_lt hd ((UInt8.le_iff_toNat_le.1 hdc).trans hle)
  constructor
  · rw [digitVal, if_neg fun h => hnot 48 (by decide) h.1, if_neg fun h => hnot 97 (by decide) h.1,
      if_neg fun h => hnot 65 (by decide) h.1]
  · rintro rfl
    exact hnot 45 (by decide) (by decide)

lemma printInt_solid (z : ℤ) : ∃ c cs, printInt z = c :: cs ∧ isspace c = false := by
  obtain ⟨hne, hdigits, -⟩ := decimal_digits z.natAbs
  obtain ⟨c, cs, hcons⟩ := List.exists_cons_of_ne_nil hne
  rw [printInt]
  split_ifs
  · exact ⟨45, _, rfl, rfl⟩
  · refine ⟨c, cs, hcons, ?_⟩
    by_contra hc
    have hdigit := hdigits c (hcons ▸ (.head _))
    rw [isDigit, (isspace_cases (by simpa using hc)).1] at hdigit
    cases hdigit

/-- Nothing that is printed for a value begins with a blank. -/
lemma printValue_solid (h : FloatText printf strtod rounded) (type : Sampler.HalType)
    (value : ShmemData) : ∃ c cs, printValue printf type value = c :: cs ∧ isspace c = false := by
  cases type with
  | float => exact h.solid value
  | bit =>
    rw [printValue]
    split_ifs
    · exact ⟨49, [], rfl, rfl⟩
    · exact ⟨48, [], rfl, rfl⟩
  | u32 | s32 => exact printInt_solid _

lemma scan_printInt (z : ℤ) : scanDecimal isspace (printInt z ++ 32 :: rest) =
    some ((decide (z < 0), z.natAbs), 32 :: rest) := by
  refine scanDecimal_printInt (fun c hc => isspace_cases hc) z fun c hc => ?_
  obtain rfl : 32 = c := Option.some.inj hc
  rfl

lemma signed_natAbs (z : ℤ) : signed (decide (z < 0)) z.natAbs = z := by
  rw [signed]
  split_ifs with hz
  all_goals
    rw [decide_eq_true_eq] at hz
    omega

/-- A word of 32 bits is below its bound. -/
lemma toNat_lt_of_member (hvalue : member .u32 value = value) : value.toNat < 2 ^ 32 := by
  have hmask : (mask .u32).toNat = 2 ^ 32 - 1 := rfl
  rw [member, pinValue] at hvalue
  rw [← hvalue, BitVec.toNat_and, hmask, Nat.and_two_pow_sub_one_eq_mod]
  exact Nat.mod_lt _ (by norm_num)

/-- The value that is stored for a printed one. -/
lemma convert_printValue (h : FloatText printf strtod rounded)
    (hvalue : member type value = value) (rest : List UInt8) : ∃ stored,
      convert strtod type (printValue printf type value ++ 32 :: rest) = .ok (stored, 32 :: rest) ∧
      member type stored = replay rounded type value := by
  cases type with
  | float =>
    refine ⟨rounded value, ?_, BitVec.and_allOnes⟩
    rw [convert, printValue, h.reads]
  | bit =>
    rw [member, pinValue] at hvalue
    by_cases hset : value &&& mask .bit ≠ 0
    · rw [if_pos hset] at hvalue
      rw [← hvalue]
      exact ⟨1, rfl, rfl⟩
    · rw [if_neg hset] at hvalue
      rw [← hvalue]
      exact ⟨0, rfl, rfl⟩
  | u32 =>
    have hlt := toNat_lt_of_member hvalue
    refine ⟨value, ?_, hvalue⟩
    rw [convert, printValue, strtoul, scan_printInt]
    show Except.ok (if 2 ^ 64 ≤ (value.toNat : ℤ).natAbs then _ else _, _) = _
    rw [Int.natAbs_natCast, if_neg (by omega)]
    show Except.ok (BitVec.ofInt 64 (value.toNat : ℤ), _) = _
    rw [BitVec.ofInt_natCast, BitVec.ofNat_toNat, BitVec.setWidth_eq]
  | s32 =>
    have hlt := toNat_lt_of_member hvalue
    refine ⟨(value.setWidth 32).signExtend 64, ?_, ?_⟩
    · have hlow := BitVec.le_toInt (value.setWidth 32)
      have hhigh := BitVec.toInt_lt (x := value.setWidth 32)
      rw [convert, printValue, strtol, scan_printInt]
      show Except.ok (BitVec.ofInt 64 (max _ (min _ (signed _ _))), _) = _
      rw [signed_natAbs, min_eq_right (by omega), max_eq_right (by omega)]
      rfl
    · have hmask : (mask .s32).toNat = 2 ^ 32 - 1 := rfl
      have hback : ((value.setWidth 32).signExtend 64).setWidth 32 = value.setWidth 32 := by
        ext i hi
        simp [BitVec.getElem_signExtend, hi, show i < 64 by omega]
      refine BitVec.eq_of_toNat_eq ?_
      show (_ &&& mask .s32).toNat = value.toNat
      rw [BitVec.toNat_and, hmask, Nat.and_two_pow_sub_one_eq_mod, ← BitVec.toNat_setWidth, hback,
        BitVec.toNat_setWidth, Nat.mod_eq_of_lt hlt]

/-- A printed value is read back, up to the blank behind it. -/
lemma field_printValue (h : FloatText printf strtod rounded) {gap : List UInt8}
    (hgap : ∀ c ∈ gap, isspace c = true) (hvalue : member type value = value)
    (rest : List UInt8) : ∃ stored,
      field strtod type (gap ++ (printValue printf type value ++ 32 :: rest)) =
        .stored stored (.ok (32 :: rest)) ∧
      member type stored = replay rounded type value := by
  obtain ⟨stored, hconvert, hstored⟩ := convert_printValue h hvalue rest
  obtain ⟨c, cs, hcons, hc⟩ := printValue_solid h type value
  have hdrop : (gap ++ (printValue printf type value ++ 32 :: rest)).dropWhile isspace =
      printValue printf type value ++ 32 :: rest := by
    rw [List.dropWhile_append_of_pos hgap, hcons, List.cons_append,
      List.dropWhile_cons_of_neg (by simp [hc])]
  refine ⟨stored, ?_, hstored⟩
  rw [field, hdrop, hconvert]
  rfl

end Fields

/-! ### Lines -/

section Lines

variable {printf : ShmemData → List UInt8} {strtod : List UInt8 → ShmemData × List UInt8}
  {rounded : ShmemData → ShmemData} {type : ℕ → Sampler.HalType}

/-- The record that comes back for the values from the `n`-th one on. -/
def replayFrom (rounded : ShmemData → ShmemData) (type : ℕ → Sampler.HalType) (n : ℕ)
    (values : List ShmemData) : List ShmemData :=
  (values.zipIdx n).map fun v => replay rounded (type v.2) v.1

/-- Values that were printed are read back. -/
lemma parseFrom_printFrom (h : FloatText printf strtod rounded) {values : List ShmemData} {n : ℕ}
    {gap : List UInt8} (hgap : ∀ c ∈ gap, isspace c = true)
    (hvalues : ∀ v ∈ values.zipIdx n, member (type v.2) v.1 = v.1) :
    parseFrom strtod type values.length n (gap ++ (printFrom printf type n values ++ [10])) =
      .ok (replayFrom rounded type n values) := by
  induction values generalizing n gap with
  | nil => rfl
  | cons value values ih =>
    rw [List.zipIdx_cons, List.forall_mem_cons] at hvalues
    have htext : printFrom printf type n (value :: values) ++ [10] =
        printValue printf (type n) value ++
          32 :: (printFrom printf type (n + 1) values ++ [10]) := by
      rw [printFrom, List.zipIdx_cons, List.flatMap_cons]
      simp [printFrom]
    have hspace : ∀ c ∈ [(32 : UInt8)], isspace c = true := by
      intro c hc
      rw [List.mem_singleton.1 hc]
      rfl
    have hrest := ih hspace hvalues.2
    obtain ⟨stored, hfield, hstored⟩ := field_printValue h hgap hvalues.1
      (printFrom printf type (n + 1) values ++ [10])
    rw [List.singleton_append] at hrest
    rw [htext, List.length_cons, parseFrom, hfield]
    dsimp only
    rw [hrest, hstored]
    rfl

/-- The line `overrun` is refused. -/
lemma parseFrom_overrun (h : FloatText printf strtod rounded) (k : ℕ) :
    ∃ e, parseFrom strtod type (k + 1) 0 (overrunText ++ [10]) = .error (0, e) := by
  cases htype : type 0 with
  | float =>
    refine ⟨.badCharacter, ?_⟩
    have hdrop : (overrunText ++ [10]).dropWhile isspace = overrunText ++ [10] := rfl
    rw [parseFrom, htype, field, hdrop, convert, h.overrun]
    rfl
  | bit =>
    refine ⟨.bitValue, ?_⟩
    rw [parseFrom, htype]
    rfl
  | u32 | s32 =>
    refine ⟨.badCharacter, ?_⟩
    rw [parseFrom, htype]
    rfl

/-- The text of a value is on one line. -/
lemma newline_notMem_printValue (h : FloatText printf strtod rounded) (type : Sampler.HalType)
    (value : ShmemData) : 10 ∉ printValue printf type value := by
  have hint : ∀ z, 10 ∉ printInt z := by
    intro z hz
    rcases mem_printInt hz with h45 | ⟨d, hd, hc⟩
    · cases h45
    · interval_cases d <;> cases hc
  cases type with
  | float => exact h.oneLine value
  | bit =>
    rw [printValue]
    split_ifs <;> decide
  | u32 | s32 => exact hint _

lemma newline_notMem_printFrom (h : FloatText printf strtod rounded) (n : ℕ)
    (values : List ShmemData) : 10 ∉ printFrom printf type n values := by
  intro hmem
  obtain ⟨v, -, hv⟩ := List.mem_flatMap.1 hmem
  rcases List.mem_append.1 hv with hv | hv
  · exact newline_notMem_printValue h _ _ hv
  · cases List.mem_singleton.1 hv

lemma newline_notMem_fileLines (h : FloatText printf strtod rounded) (rs : List Delivered) :
    ∀ line ∈ fileLines printf type rs, 10 ∉ line := by
  intro line hline
  obtain ⟨r, -, hr⟩ := List.mem_flatMap.1 hline
  rcases List.mem_append.1 hr with hr | hr
  · split_ifs at hr
    · rw [List.mem_singleton.1 hr]
      decide
    · cases hr
  · rw [List.mem_singleton.1 hr]
    exact newline_notMem_printFrom h _ _

/-- The records that come back for the lines of a file. -/
lemma keptOf_fileLines (fifo : Fifo) (h : FloatText printf strtod rounded)
    (hpins : 0 < fifo.numPins) {rs : List Delivered}
    (hrs : ∀ r ∈ rs, r.values.length = fifo.numPins ∧
      ∀ v ∈ r.values.zipIdx 0, member (fifo.type v.2) v.1 = v.1) :
    keptOf strtod fifo ((fileLines printf fifo.type rs).map (· ++ [10])) =
      rs.map fun r => replayFrom rounded fifo.type 0 r.values := by
  obtain ⟨k, hk⟩ := Nat.exists_eq_add_of_le' hpins
  obtain ⟨e, hover⟩ := @parseFrom_overrun _ _ _ fifo.type h k
  rw [← hk] at hover
  induction rs with
  | nil => rfl
  | cons r rs ih =>
    rw [List.forall_mem_cons] at hrs
    obtain ⟨hlen, hvalues⟩ := hrs.1
    have hline := parseFrom_printFrom h (List.forall_mem_nil _) hvalues
    rw [hlen, List.nil_append] at hline
    have hrecord : keptOf strtod fifo ((printLines printf fifo.type r).map (· ++ [10])) =
        [replayFrom rounded fifo.type 0 r.values] := by
      rw [printLines, keptOf]
      split_ifs
      · simp [parseLine, hover, hline, Except.toOption]
      · simp [parseLine, hline, Except.toOption]
    have hsplit : fileLines printf fifo.type (r :: rs) =
        printLines printf fifo.type r ++ fileLines printf fifo.type rs := List.flatMap_cons
    rw [hsplit, List.map_append, keptOf, List.filterMap_append]
    change keptOf _ _ _ ++ keptOf _ _ _ = _
    rw [hrecord, ih hrs.2]
    rfl

/-- Every line is kept, or it has a message. -/
lemma length_kept_messages (strtod : List UInt8 → ShmemData × List UInt8) (fifo : Fifo)
    (lines : List (List UInt8)) :
    (keptOf strtod fifo lines).length + (messagesOf strtod fifo lines).length = lines.length := by
  induction lines using List.reverseRecOn with
  | nil => rfl
  | append_singleton lines line ih =>
    have hone : (parseLine strtod fifo line).toOption.toList.length +
        (messageOf strtod fifo line (lines.length + 1)).toList.length = 1 := by
      rw [messageOf]
      cases parseLine strtod fifo line <;> rfl
    rw [keptOf_append, messagesOf_append, List.length_append, List.length_append,
      List.length_append, List.length_singleton]
    omega

lemma length_fileLines (rs : List Delivered) :
    (fileLines printf type rs).length = rs.length + (rs.filter (·.overrun)).length := by
  induction rs with
  | nil => rfl
  | cons r rs ih =>
    have hsplit : fileLines printf type (r :: rs) =
        printLines printf type r ++ fileLines printf type rs := List.flatMap_cons
    rw [hsplit, List.length_append, ih, printLines, List.filter_cons]
    cases r.overrun <;> simp <;> omega

end Lines

/-! ### Every run -/

section Every

variable {printf : ShmemData → List UInt8} {strtod : List UInt8 → ShmemData × List UInt8}
  {rounded : ShmemData → ShmemData} {depth numPins : ℕ} {type : ℕ → Sampler.HalType}
  {data : ℕ → ShmemData} {samples : ℤ} {r : SamplerSys} {s t : StreamerSys}

/-- The pins stay the same ones. -/
lemma step_pins {op : StreamerSys.Op} (ht : s.step strtod op = some t) :
    t.fifo.type = s.fifo.type ∧ t.fifo.numPins = s.fifo.numPins := by
  cases op with
  | write =>
    change s.write strtod = some t at ht
    rw [StreamerSys.write] at ht
    split at ht
    · split at ht <;> cases ht <;> exact ⟨rfl, rfl⟩
    · cases ht
      exact ⟨rfl, rfl⟩
    · split at ht <;> cases ht <;> exact ⟨rfl, rfl⟩
    · cases ht
      exact ⟨rfl, rfl⟩
    · cases ht
  | call enable =>
    change s.call enable = some t at ht
    rw [StreamerSys.call] at ht
    split at ht
    · cases ht
      cases enable <;> exact ⟨rfl, rfl⟩
    · cases ht
  | advance =>
    change s.advance = some t at ht
    simp only [StreamerSys.advance] at ht
    split at ht
    · cases ht
    all_goals
      try split_ifs at ht
      all_goals
        cases ht
        exact ⟨rfl, rfl⟩

/-- A record is the sample with this number, as it comes back. -/
def SampleOf (rounded : ShmemData → ShmemData) (r : SamplerSys) (record : List ShmemData) (k : ℕ) :
    Prop :=
  ∃ values, r.stored[k]? = some values ∧ record = (List.range r.fifo.numPins).map fun n =>
    replay rounded (r.fifo.type n) (pinValue (r.fifo.type n) (values n))

/-- The pins are set to samples in the order in which they were taken, each to the whole of one; and
when the file is read, each record was kept and each line `overrun` has its message. -/
structure Replayed (rounded : ShmemData → ShmemData) (r : SamplerSys) (s : StreamerSys) : Prop where
  taken : s.taken <+: s.kept
  samples : ∃ ks : List ℕ, ks.Pairwise (· < ·) ∧ List.Forall₂ (SampleOf rounded r) s.kept ks
  all : s.writer = .done → s.kept.length = r.delivered.length ∧
    s.messages.length = (r.delivered.filter (·.overrun)).length

/-- The records of whole samples are numbers that print as they are. -/
lemma right_values (h : Sampler.Right r) : ∀ d ∈ r.delivered, d.values.length = r.fifo.numPins ∧
    ∀ v ∈ d.values.zipIdx 0, member (r.fifo.type v.2) v.1 = v.1 := by
  intro d hd
  obtain ⟨ks, -, hks, -⟩ := h.delivered
  obtain ⟨i, hi, rfl⟩ := List.getElem_of_mem hd
  obtain ⟨values, -, -, hvalues⟩ := hks.get hi (hks.length_eq ▸ hi)
  change r.delivered[i].values = _ at hvalues
  rw [hvalues]
  refine ⟨by rw [List.length_map, List.length_range], fun v hv => ?_⟩
  obtain ⟨x, n⟩ := v
  have hget := List.mk_mem_zipIdx_iff_getElem?.1 hv
  rw [List.getElem?_map] at hget
  obtain ⟨m, hm, rfl⟩ := Option.map_eq_some_iff.1 hget
  obtain rfl : n = m := (List.getElem_range _).symm.trans (List.getElem?_eq_some_iff.1 hm).2
  exact pinValue_pinValue _ _

lemma replayFrom_range (f : ℕ → ShmemData) (n : ℕ) :
    replayFrom rounded type 0 ((List.range n).map f) =
      (List.range n).map fun m => replay rounded (type m) (f m) := by
  refine List.ext_getElem (by simp [replayFrom]) fun i hi hi' => ?_
  simp [replayFrom]

/-- The records that come back are the samples. -/
lemma right_samples (rounded : ShmemData → ShmemData) (h : Sampler.Right r) :
    ∃ ks : List ℕ, ks.Pairwise (· < ·) ∧ List.Forall₂ (SampleOf rounded r)
      (r.delivered.map fun d => replayFrom rounded r.fifo.type 0 d.values) ks := by
  obtain ⟨ks, hlt, hks, -⟩ := h.delivered
  refine ⟨ks, hlt, ?_⟩
  rw [List.forall₂_map_left_iff]
  refine hks.imp fun d k hwhole => ?_
  obtain ⟨values, hstored, -, hvalues⟩ := hwhole
  exact ⟨values, hstored, by rw [hvalues, replayFrom_range]⟩

lemma replayed_of_streamed (h : Sampler.Right r) (hs : Streamed strtod
      (fileText printf r.fifo.type r.delivered) s) (hfloat : FloatText printf strtod rounded)
    (hpins : 0 < r.fifo.numPins) (htype : s.fifo.type = r.fifo.type)
    (hnum : s.fifo.numPins = r.fifo.numPins)
    (hfits : ∀ line ∈ fileLines printf r.fifo.type r.delivered, line.length + 1 < 4000) :
    Replayed rounded r s := by
  have hlines : ∀ line ∈ fileLines printf r.fifo.type r.delivered,
      10 ∉ line ∧ line.length + 1 < 4000 :=
    fun line hline => ⟨newline_notMem_fileLines hfloat _ line hline, hfits line hline⟩
  obtain ⟨behind, hbehind, hrest⟩ := hs.lines.of_lines (by omega) hlines
  have hvalues : ∀ d ∈ r.delivered, d.values.length = s.fifo.numPins ∧
      ∀ v ∈ d.values.zipIdx 0, member (s.fifo.type v.2) v.1 = v.1 := by
    rw [htype, hnum]
    exact right_values h
  have hfile := keptOf_fileLines s.fifo hfloat (by omega) hvalues
  have hprefix : s.kept <+: r.delivered.map fun d => replayFrom rounded r.fifo.type 0 d.values := by
    rw [hs.kept, ← htype, ← hfile, htype, hbehind, List.append_assoc, keptOf, keptOf,
      List.filterMap_append]
    exact List.prefix_append _ _
  obtain ⟨ks, hlt, hks⟩ := right_samples rounded h
  obtain ⟨more, hmore⟩ := hprefix
  refine ⟨?_, ⟨ks.take s.kept.length, hlt.sublist (List.take_sublist _ _), ?_⟩, fun hdone => ?_⟩
  · obtain ⟨waiting, hwaiting, -⟩ := hs.taken
    exact ⟨waiting, hwaiting.symm⟩
  · rw [← hmore] at hks
    have htake := List.forall₂_take s.kept.length hks
    rwa [List.take_left] at htake
  · have hall : s.consumed = (fileLines printf r.fifo.type r.delivered).map (· ++ [10]) := by
      have hpending : s.pending = [] := by rw [StreamerSys.pending, hdone]
      have hnil : ∀ b ∈ behind, b = [] := by
        rw [← List.flatten_eq_nil_iff, ← hrest]
        exact hs.finished hdone
      have hbehind_nil : behind = [] := by
        refine List.eq_nil_iff_forall_not_mem.2 fun b hb => ?_
        have hmem : b ∈ (fileLines printf r.fifo.type r.delivered).map (· ++ [10]) := by
          rw [hbehind]
          exact List.mem_append_right _ hb
        obtain ⟨line, -, rfl⟩ := List.mem_map.1 hmem
        exact List.append_ne_nil_of_right_ne_nil _ (List.cons_ne_nil _ _) (hnil _ hb)
      rw [hbehind, hpending, hbehind_nil, List.append_nil, List.append_nil]
    have hlen := length_kept_messages strtod s.fifo s.consumed
    have hkept : s.kept.length = r.delivered.length := by
      rw [hs.kept, hall, ← htype, hfile, List.length_map]
    refine ⟨hkept, ?_⟩
    rw [← hs.kept, ← hs.messages, hkept, hall, List.length_map, length_fileLines] at hlen
    omega

end Every

/-- Samples that `halsampler` printed in any run, while nothing overwrote what it read, come back
from the file in any run of `halstreamer` and `streamer`: on the pins, in order, each once and
whole, and with the rounding of a decimal text. The lines have to fit into its buffer. -/
theorem streamer_replays {depth depth' numPins : ℕ} {type : ℕ → Sampler.HalType}
    {data : ℕ → ShmemData} {samples : ℤ} {printf : ShmemData → List UInt8}
    {strtod : List UInt8 → ShmemData × List UInt8} {rounded : ShmemData → ShmemData}
    (hfloat : FloatText printf strtod rounded) (hdepth : 2 ≤ depth) (hdepth' : 0 < depth')
    (data' : ℕ → ShmemData) :
    ∀ r, Reach SamplerSys.step (fun s op => s.safeStep op = true)
      (.init depth numPins type data samples) r → 0 < r.fifo.numPins →
    (∀ line ∈ fileLines printf r.fifo.type r.delivered, line.length + 1 < 4000) →
    ∀ s, Reach (fun s => StreamerSys.step s strtod) (fun _ _ => True)
      (.init depth' r.fifo.numPins r.fifo.type data' (fileText printf r.fifo.type r.delivered)) s →
    Replayed rounded r s := by
  intro r hr hpins hfits s hs
  have hright := hr.invariant (P := fun r => ∃ ks oldest, Sampler.Inv r ks oldest)
    ⟨[], 0, Sampler.inv_init numPins type data samples hdepth⟩
    fun h hsafe ht => Sampler.Inv.step h hsafe ht
  obtain ⟨ks, oldest, hinv⟩ := hright
  have hstreamed : Inv strtod (fileText printf r.fifo.type r.delivered) s :=
    hs.invariant (inv_init strtod _ _ _ hdepth' hpins) fun h _ ht => h.step ht
  have hconfig : s.fifo.type = r.fifo.type ∧ s.fifo.numPins = r.fifo.numPins :=
    hs.invariant (P := fun s => s.fifo.type = r.fifo.type ∧ s.fifo.numPins = r.fifo.numPins)
      ⟨rfl, rfl⟩ fun h _ ht => ⟨(step_pins ht).1.trans h.1, (step_pins ht).2.trans h.2⟩
  exact replayed_of_streamed hinv.right hstreamed.streamed hfloat hpins hconfig.1 hconfig.2 hfits

/-- `0.000000` -/
def zeroText : List UInt8 := [48, 46, 48, 48, 48, 48, 48, 48]

/-- `strtod` for this text. -/
def strtodZero (cp : List UInt8) : ShmemData × List UInt8 :=
  if cp.take 8 = zeroText then (0, cp.drop 8) else (0, cp)

lemma floatText_zero : FloatText (fun _ => zeroText) strtodZero fun _ => 0 where
  reads _ _ := rfl
  solid _ := ⟨48, _, rfl, rfl⟩
  oneLine _ := by decide
  overrun := rfl

/-- A number and a float. -/
def typeMixed : ℕ → Sampler.HalType
  | 0 => .u32
  | _ => .float

/-- A sample of both: `7`, and the float with these bits, which is less than `0.0000005`. -/
theorem streamer_replays_one : ∃ r s, r.delivered = [⟨false, 0, [7, 7]⟩] ∧ s.taken = [[7, 0]] ∧
    Replayed (fun _ => 0) r s := by
  have hsampler : ∃ r, run SamplerSys.step SamplerSys.safeStep
      (.init 2 2 typeMixed (fun _ => 0) (-1))
      [.sample true fun _ => 7, .read, .read, .read, .read, .read, .read, .read, .read] = some r ∧
      r.delivered = [⟨false, 0, [7, 7]⟩] ∧ r.fifo.type = typeMixed ∧ r.fifo.numPins = 2 :=
    ⟨_, rfl, rfl, rfl, rfl⟩
  obtain ⟨r, hr, hdelivered, htype, hnum⟩ := hsampler
  have hlines : fileLines (fun _ => zeroText) typeMixed [⟨false, 0, [7, 7]⟩] =
      [[55, 32] ++ zeroText ++ [32]] := by decide
  have hstreamer : ∃ s, run (fun s => StreamerSys.step s strtodZero) (fun _ _ => true)
      (.init 2 2 typeMixed (fun _ => 0) ([55, 32] ++ zeroText ++ [32, 10]))
      [.write, .write, .write, .write, .write, .call true, .advance, .advance, .advance, .advance,
        .advance] = some s ∧ s.taken = [[7, 0]] := ⟨_, rfl, rfl⟩
  obtain ⟨s, hs, htaken⟩ := hstreamer
  have htext : fileText (fun _ => zeroText) r.fifo.type r.delivered =
      [55, 32] ++ zeroText ++ [32, 10] := by
    rw [fileText, htype, hdelivered, hlines]
    rfl
  refine ⟨r, s, hdelivered, htaken, streamer_replays floatText_zero (by decide : 2 ≤ 2)
    (by decide : 0 < 2) (fun _ => 0) r (reach_of_run _ _ hr) (by omega) ?_ s ?_⟩
  · rw [htype, hdelivered, hlines]
    decide
  · rw [htext, htype, hnum]
    exact (reach_of_run _ _ hs).mono fun _ => trivial

end Streamer

end MachinekitHal
