import MachinekitHal.HalCommand.Tokenize
import MachinekitHal.Lib.Lines
import Mathlib.Data.List.DropRight

/-!
`inifile.cc`: the lookup of a tag in a section.

* `skipWhite`, `afterEqual`, `checkLineEndings`, `sectionLoop`, `tagLoop`, `iniFind`: the code, on
  an open file. What is returned is the value with the line number, or the error.
* `assigned`: the value of a line `tag = value`.
* `nthAssignment`, `behindHeader`, `lookup`: the value of an assignment in a section, by the
  grammar of the file.
* `FindsRight`: the condition for the code to find it.
* `nthCounted`: what the code finds, by lines; `nthCounted_right` compares the two.
* `ini_find_lookup`: the value is found exactly under the condition.
-/

namespace MachinekitHal

open Buffers Lines

/-- `LINELEN`. -/
def lineLen : ℕ := 255

/-- Files whose lines fit into the line buffer. -/
structure IniFile extends LineText (10 : UInt8) (lineLen + 1) where
  noNul : 0 ∉ toLineText.text

/-- `ErrorCode`, as far as `Find` reports it. -/
inductive IniError
  | sectionNotFound | tagNotFound | conversion
  deriving DecidableEq

/-- A value, with the number of its line. -/
abbrev IniValue := List UInt8 × ℕ

/-- The blanks of `SkipWhite` and `AfterEqual`. -/
def isWhite (c : UInt8) : Bool := c == 32 || c == 9 || c == 13 || c == 10

/-- The blanks that are cut off at the end of a value. -/
def isEndWhite (c : UInt8) : Bool := c == 32 || c == 9 || c == 13

/-- `check_line_endings`, without the warning. -/
def checkLineEndings : List UInt8 → Bool
  | c :: d :: s => (c == 13 && d != 10) || checkLineEndings (d :: s)
  | _ => false

/-- `SkipWhite`. -/
def skipWhite (string : List UInt8) : Option (List UInt8) :=
  match string.dropWhile isWhite with
  | [] => none
  | c :: s => if c = 59 ∨ c = 35 then none else some (c :: s)

/-- `AfterEqual`. -/
def afterEqual (string : List UInt8) : Option (List UInt8) :=
  match string.dropWhile (· ≠ 61) with
  | [] => none
  | _ :: spot =>
    match spot.dropWhile isWhite with
    | [] => none
    | c :: s => some (c :: s)

/-- The newline at the end of a line is stripped off. -/
def stripNewline (line : List UInt8) : List UInt8 :=
  if line.getLast? = some 10 then line.dropLast else line

/-- The file, and `lineNo`. -/
structure IniScan where
  fp : Stream UInt8
  lineNo : ℕ

/-- The loop that looks for the section, with at most `fuel` turns. -/
def sectionLoop (bracketSection : List UInt8) : ℕ → IniScan → Option (Except IniError IniScan)
  | 0, _ => none
  | fuel + 1, s =>
    if s.fp.eof then some (.ok s) else
    match fgets 10 (lineLen + 1) s.fp with
    | (none, _) => some (.error .sectionNotFound)
    | (some line, fp) =>
      if checkLineEndings line then some (.error .conversion) else
      let s : IniScan := ⟨fp, s.lineNo + 1⟩
      match skipWhite (stripNewline line) with
      | none => sectionLoop bracketSection fuel s
      | some nonWhite =>
        if bracketSection.isPrefixOf nonWhite then some (.ok s)
        else sectionLoop bracketSection fuel s

/-- The loop that looks for the tag, with at most `fuel` turns. -/
def tagLoop (inSection : Bool) (tag : List UInt8) :
    ℕ → ℕ → IniScan → Option (Except IniError IniValue)
  | 0, _, _ => none
  | fuel + 1, num, s =>
    if s.fp.eof then some (.error .tagNotFound) else
    match fgets 10 (lineLen + 1) s.fp with
    | (none, _) => some (.error .tagNotFound)
    | (some line, fp) =>
      if checkLineEndings line then some (.error .conversion) else
      let s : IniScan := ⟨fp, s.lineNo + 1⟩
      match skipWhite (stripNewline line) with
      | none => tagLoop inSection tag fuel num s
      | some nonWhite =>
        if inSection = true ∧ nonWhite.head? = some 91 then some (.error .tagNotFound)
        else if ¬ tag.isPrefixOf nonWhite then tagLoop inSection tag fuel num s
        else
          match (nonWhite.drop tag.length).head? with
          | none => tagLoop inSection tag fuel num s
          | some tagEnd =>
            if isWhite tagEnd ∨ tagEnd = 61 then
              if 1 < num then tagLoop inSection tag fuel (num - 1) s
              else
                match afterEqual (nonWhite.drop tag.length) with
                | none => some (.error .tagNotFound)
                | some value => some (.ok (value.rdropWhile isEndWhite, s.lineNo))
            else tagLoop inSection tag fuel num s

/-- `sprintf` of the section in brackets into the buffer for it. -/
def bracketSection (sec : List UInt8) : Option (List UInt8) :=
  (writeAt (List.replicate (lineLen + 2) 0) 0 (91 :: sec ++ [93, 0])).bind fun buf =>
  cStringAt 0 buf 0

/-- `Find` on an open file. There is no result when the section does not fit into its buffer. -/
def iniFind (file : IniFile) (tag : CText) (sec : Option CText) (num : ℕ) :
    Option (Except IniError IniValue) :=
  let s : IniScan := ⟨⟨file.text, false⟩, 0⟩
  let fuel := file.text.length + 1
  match sec with
  | none => tagLoop false tag.bytes fuel num s
  | some sec =>
    (bracketSection sec.bytes).bind fun bracketSection =>
    (sectionLoop bracketSection fuel s).bind fun
    | .error e => some (.error e)
    | .ok s => tagLoop true tag.bytes fuel num s

/-! ### What it should find -/

/-- A line without its leading blanks. -/
def content (l : List UInt8) : List UInt8 := l.dropWhile isWhite

/-- A line with a carriage return inside is refused. -/
def Ambiguous (l : List UInt8) : Prop := 13 ∈ l.dropLast
  deriving Decidable

/-- A blank line or a comment. -/
def Ignored (l : List UInt8) : Prop := (content l).head? ∈ [none, some 59, some 35]
  deriving Decidable

/-- A line that begins a section. -/
def Header (l : List UInt8) : Prop := (content l).head? = some 91
  deriving Decidable

/-- A line that begins the section `sec`. -/
def HeaderOf (sec l : List UInt8) : Prop := 91 :: sec ++ [93] <+: content l
  deriving Decidable

/-- What is behind the tag, in a line that begins with it and is not ignored. -/
def behindTag (tag l : List UInt8) : Option (List UInt8) :=
  if Ignored l then none
  else if tag <+: content l then some ((content l).drop tag.length) else none

/-- The value of a line `tag = value`. -/
def assigned (tag l : List UInt8) : Option (List UInt8) :=
  (behindTag tag l).bind fun text =>
  if (content text).head? = some 61 then
    let value := (content (content text).tail).rdropWhile isEndWhite
    if value = [] then none else some value
  else none

/-- The value of the assignment behind `k` others, in the rest of a file behind `no` lines. In a
section, the next header ends it. -/
def nthAssignment (inSection : Bool) (tag : List UInt8) :
    ℕ → ℕ → List (List UInt8) → Except IniError IniValue
  | _, _, [] => .error .tagNotFound
  | k, no, l :: ls =>
    if Ambiguous l then .error .conversion
    else if inSection = true ∧ Header l then .error .tagNotFound
    else
      match assigned tag l with
      | none => nthAssignment inSection tag k (no + 1) ls
      | some value =>
        if k = 0 then .ok (value, no + 1) else nthAssignment inSection tag (k - 1) (no + 1) ls

/-- The lines behind the header of a section, and how many there are up to it. -/
def behindHeader (sec : List UInt8) :
    ℕ → List (List UInt8) → Except IniError (ℕ × List (List UInt8))
  | _, [] => .error .sectionNotFound
  | no, l :: ls =>
    if Ambiguous l then .error .conversion
    else if HeaderOf sec l then .ok (no + 1, ls)
    else behindHeader sec (no + 1) ls

/-- The value of the assignment behind `k` others, in a section or in the whole file. -/
def lookup (tag : List UInt8) (sec : Option (List UInt8)) (k : ℕ) (ls : List (List UInt8)) :
    Except IniError IniValue :=
  match sec with
  | none => nthAssignment false tag k 0 ls
  | some sec => (behindHeader sec 0 ls).bind fun (no, ls) => nthAssignment true tag k no ls

/-- The value is found, or the error is reported. -/
def IniFound (file : IniFile) (tag : CText) (sec : Option CText) (k : ℕ) : Prop :=
  iniFind file tag sec (k + 1) =
    some (lookup tag.bytes (sec.map CText.bytes) k file.allLines)

/-- What is behind the tag, in a line that the code counts: a blank or `=` is next. -/
def countedText (tag l : List UInt8) : Option (List UInt8) :=
  (behindTag tag l).filter fun text => text.head?.any fun c => isWhite c || c == 61

/-- A line that ends a section, or the search. -/
def Stops (inSection : Bool) (l : List UInt8) : Prop := Ambiguous l ∨ inSection = true ∧ Header l
  deriving Decidable

/-- The lines of a section that the code counts. -/
def countedLines (inSection : Bool) (tag : List UInt8) (ls : List (List UInt8)) :
    List (List UInt8) :=
  (ls.takeWhile fun l => ¬ Stops inSection l).filter fun l => (countedText tag l).isSome

/-- The counted line behind `k` others has no value. -/
def NoValue (inSection : Bool) (tag : List UInt8) (k : ℕ) (ls : List (List UInt8)) : Prop :=
  ∃ l, (countedLines inSection tag ls)[k]? = some l ∧ (countedText tag l).bind afterEqual = none

/-- The lines that are counted up to the one behind `k` others are assignments, or there are not
so many, or the last of them has no value and there are not so many assignments. -/
def CountsRight (inSection : Bool) (tag : List UInt8) (k no : ℕ) (ls : List (List UInt8)) : Prop :=
  (countedLines inSection tag ls).length ≤ k ∨
  (∀ l ∈ (countedLines inSection tag ls).take (k + 1), (assigned tag l).isSome = true) ∨
  NoValue inSection tag k ls ∧ nthAssignment inSection tag k no ls = .error .tagNotFound

/-- The section fits into its buffer and is there, or its absence is noticed, and its lines are
counted right. -/
def FindsRight (file : IniFile) (tag : CText) (sec : Option CText) (k : ℕ) : Prop :=
  match sec with
  | none => CountsRight false tag.bytes k 0 file.allLines
  | some sec =>
    sec.bytes.length < lineLen ∧
    match behindHeader sec.bytes 0 file.allLines with
    | .error .sectionNotFound => file.endMet = false
    | .error _ => True
    | .ok (no, ls) => CountsRight true tag.bytes k no ls

/-! ### A line -/

section Line

variable {l line tag text value : List UInt8}

lemma checkLineEndings_append {tail : List UInt8} (h : 10 ∉ l)
    (htail : tail = [10] ∨ tail = []) :
    checkLineEndings (l ++ tail) = decide (Ambiguous l) := by
  induction l with
  | nil => obtain rfl | rfl := htail <;> rfl
  | cons c l ih =>
    rw [List.mem_cons, not_or] at h
    cases l with
    | nil =>
      obtain rfl | rfl := htail
      · simp [checkLineEndings, Ambiguous]
      · simp [checkLineEndings, Ambiguous]
    | cons d l =>
      have hd : d ≠ 10 := fun hd => h.2 (by simp [hd])
      have ih := ih h.2
      rw [List.cons_append] at ih
      rw [List.cons_append, List.cons_append, checkLineEndings, ih]
      have hbool : (c == 13 && d != 10) = decide (13 = c) := by
        rw [bne_iff_ne.2 hd, Bool.and_true, Bool.beq_eq_decide_eq]
        exact decide_eq_decide.2 eq_comm
      rw [hbool, ← Bool.decide_or]
      exact decide_eq_decide.2 (by rw [Ambiguous, Ambiguous, List.dropLast_cons_cons,
        List.mem_cons])

lemma stripNewline_eq (h : 10 ∉ l) (hline : line = l ++ [10] ∨ line = l) :
    stripNewline line = l := by
  obtain rfl | rfl := hline
  · simp [stripNewline]
  · refine if_neg fun hlast => h (List.mem_of_getLast? hlast)

lemma checkLineEndings_eq (h : 10 ∉ l) (hline : line = l ++ [10] ∨ line = l) :
    checkLineEndings line = decide (Ambiguous l) := by
  obtain rfl | rfl := hline
  · exact checkLineEndings_append h (.inl rfl)
  · simpa using checkLineEndings_append h (.inr rfl)

lemma skipWhite_eq (l : List UInt8) :
    skipWhite l = if Ignored l then none else some (content l) := by
  unfold skipWhite
  cases hc : l.dropWhile isWhite with
  | nil => rw [if_pos (by simp [Ignored, content, hc])]
  | cons c s =>
    dsimp only
    by_cases hcomment : c = 59 ∨ c = 35
    · rw [if_pos hcomment, if_pos (by simpa [Ignored, content, hc] using hcomment)]
    · rw [if_neg hcomment, if_neg (by simpa [Ignored, content, hc] using hcomment), content, hc]

/-- The text from the first character that is not a blank. -/
lemma exists_blanks (text : List UInt8) : ∃ blanks, text = blanks ++ content text ∧
    ∀ c ∈ blanks, isWhite c = true :=
  ⟨text.takeWhile isWhite, List.takeWhile_append_dropWhile.symm,
    fun _ h => List.mem_takeWhile_imp h⟩

/-- **An assignment is counted**, with its value. -/
lemma assigned_some (h : assigned tag l = some value) : ∃ text, countedText tag l = some text ∧
    (afterEqual text).map (·.rdropWhile isEndWhite) = some value := by
  rw [assigned] at h
  obtain ⟨text, hbehind, h⟩ := Option.bind_eq_some_iff.1 h
  obtain ⟨blanks, htext, hblanks⟩ := exists_blanks text
  dsimp only at h
  split_ifs at h with hequal hnil
  obtain ⟨rest, hcontent⟩ := List.head?_eq_some_iff.1 hequal
  rw [hcontent, List.tail_cons] at h hnil
  rw [hcontent] at htext
  refine ⟨text, ?_, ?_⟩
  · rw [countedText, hbehind, Option.filter_some, if_pos]
    rw [htext]
    cases blanks with
    | nil => rfl
    | cons b blanks => simp [hblanks b (by simp)]
  · have hdrop : text.dropWhile (· ≠ 61) = 61 :: rest := by
      rw [htext, List.dropWhile_append_of_pos fun b hb => ?_]
      · simp
      · simp only [ne_eq, decide_not, Bool.not_eq_true', decide_eq_false_iff_not]
        rintro rfl
        exact absurd (hblanks 61 hb) (by decide)
    rw [afterEqual, hdrop]
    change Option.map _ (match content rest with | [] => none | c :: s => some (c :: s)) = _
    cases hrest : content rest with
    | nil => exact absurd (by rw [hrest]; rfl) hnil
    | cons c s => rwa [hrest] at h

end Line

/-! ### The loops by lines -/

/-- What the code finds behind `k` lines that it counts. -/
def nthCounted (inSection : Bool) (tag : List UInt8) :
    ℕ → ℕ → List (List UInt8) → Except IniError IniValue
  | _, _, [] => .error .tagNotFound
  | k, no, l :: ls =>
    if Ambiguous l then .error .conversion
    else if inSection = true ∧ Header l then .error .tagNotFound
    else
      match countedText tag l with
      | none => nthCounted inSection tag k (no + 1) ls
      | some text =>
        if k = 0 then
          match afterEqual text with
          | none => .error .tagNotFound
          | some value => .ok (value.rdropWhile isEndWhite, no + 1)
        else nthCounted inSection tag (k - 1) (no + 1) ls

section Loops

variable {inSection e : Bool} {tag sec l : List UInt8} {ls : List (List UInt8)} {s : IniScan}
  {fuel : ℕ}

/-- A line that the code passes over is not counted. -/
lemma countedText_ignored (h : Ignored l) : countedText tag l = none := by
  rw [countedText, behindTag, if_pos h, Option.filter_none]

lemma countedText_other (h : ¬ tag <+: content l) : countedText tag l = none := by
  rw [countedText, behindTag, if_neg h, ite_self, Option.filter_none]

lemma countedText_nil (h : (content l).drop tag.length = []) : countedText tag l = none := by
  rw [countedText, behindTag, h]
  split_ifs <;> rfl

lemma countedText_cons {c : UInt8} {text : List UInt8} (hi : ¬ Ignored l) (hp : tag <+: content l)
    (h : (content l).drop tag.length = c :: text) :
    countedText tag l = if isWhite c = true ∨ c = 61 then some (c :: text) else none := by
  rw [countedText, behindTag, if_neg hi, if_pos hp, h, Option.filter_some]
  simp

/-- **The loop for the tag** counts the lines of the stream, by induction on them. -/
lemma tagLoop_eq {k : ℕ} (h : Reads 10 (lineLen + 1) e s.fp ls) (hfuel : ls.length < fuel) :
    tagLoop inSection tag fuel (k + 1) s = some (nthCounted inSection tag k s.lineNo ls) := by
  induction ls generalizing fuel k s with
  | nil =>
    obtain ⟨fuel, rfl⟩ : ∃ f, fuel = f + 1 := ⟨fuel - 1, by rw [List.length_nil] at hfuel; omega⟩
    have hfp : s.fp = ⟨[], e⟩ := h
    rw [tagLoop, hfp]
    cases e with
    | true => rfl
    | false => rw [if_neg (by decide), fgets_end (by decide)]; rfl
  | cons l ls ih =>
    obtain ⟨fuel, rfl⟩ : ∃ f, fuel = f + 1 := ⟨fuel - 1, by rw [List.length_cons] at hfuel; omega⟩
    obtain ⟨heof, hnl, line, fp, hget, hline, hreads⟩ := h
    have ih := fun k => @ih ⟨fp, s.lineNo + 1⟩ fuel k hreads
      (by rw [List.length_cons] at hfuel; omega)
    rw [tagLoop, heof, if_neg (by decide), hget, nthCounted]
    dsimp only
    rw [checkLineEndings_eq hnl hline, stripNewline_eq hnl hline, skipWhite_eq]
    by_cases hamb : Ambiguous l
    · rw [if_pos (decide_eq_true hamb), if_pos hamb]
    rw [if_neg (by simpa using hamb), if_neg hamb]
    by_cases hign : Ignored l
    · have hheader : ¬ (inSection = true ∧ Header l) := fun h => by
        rw [Ignored, h.2] at hign
        simp at hign
      rw [if_pos hign, if_neg hheader, countedText_ignored hign]
      exact ih k
    rw [if_neg hign]
    dsimp only
    change (if inSection = true ∧ Header l then _ else _) = _
    by_cases hheader : inSection = true ∧ Header l
    · rw [if_pos hheader, if_pos hheader]
    rw [if_neg hheader, if_neg hheader]
    by_cases hpre : tag <+: content l
    swap
    · rw [if_pos (by simpa using hpre), countedText_other hpre]
      exact ih k
    rw [if_neg (by simpa using hpre)]
    cases hdrop : (content l).drop tag.length with
    | nil =>
      rw [countedText_nil hdrop]
      exact ih k
    | cons c text =>
      rw [countedText_cons hign hpre hdrop, List.head?_cons]
      dsimp only
      by_cases hend : isWhite c = true ∨ c = 61
      swap
      · rw [if_neg hend, if_neg hend]
        exact ih k
      rw [if_pos hend, if_pos hend]
      dsimp only
      cases k with
      | zero =>
        rw [if_neg (by decide), if_pos rfl]
        cases afterEqual (c :: text) <;> simp
      | succ k =>
        rw [if_pos (by omega)]
        exact ih k

/-- **The loop for the section** stops behind the header. It does not notice that there is none
when the end of the file has been met in the last line. -/
lemma sectionLoop_spec (h : Reads 10 (lineLen + 1) e s.fp ls) (hfuel : ls.length < fuel) :
    match behindHeader sec s.lineNo ls with
    | .ok (no, ls') => ls'.length < ls.length ∧ ∃ fp, Reads 10 (lineLen + 1) e fp ls' ∧
        sectionLoop (91 :: sec ++ [93]) fuel s = some (.ok ⟨fp, no⟩)
    | .error .sectionNotFound =>
      if e then ∃ s', s'.fp.eof = true ∧ sectionLoop (91 :: sec ++ [93]) fuel s = some (.ok s')
      else sectionLoop (91 :: sec ++ [93]) fuel s = some (.error .sectionNotFound)
    | .error err => sectionLoop (91 :: sec ++ [93]) fuel s = some (.error err) := by
  induction ls generalizing fuel s with
  | nil =>
    obtain ⟨fuel, rfl⟩ : ∃ f, fuel = f + 1 := ⟨fuel - 1, by rw [List.length_nil] at hfuel; omega⟩
    have hfp : s.fp = ⟨[], e⟩ := h
    rw [behindHeader, sectionLoop, hfp]
    cases e with
    | true => exact ⟨s, by rw [hfp], rfl⟩
    | false =>
      rw [if_neg (by decide), if_neg (by decide), fgets_end (by decide)]
  | cons l ls ih =>
    obtain ⟨fuel, rfl⟩ : ∃ f, fuel = f + 1 := ⟨fuel - 1, by rw [List.length_cons] at hfuel; omega⟩
    obtain ⟨heof, hnl, line, fp, hget, hline, hreads⟩ := h
    have ih := @ih ⟨fp, s.lineNo + 1⟩ fuel hreads (by rw [List.length_cons] at hfuel; omega)
    have hstep : sectionLoop (91 :: sec ++ [93]) (fuel + 1) s =
        if Ambiguous l then some (.error .conversion)
        else if HeaderOf sec l then some (.ok ⟨fp, s.lineNo + 1⟩)
        else sectionLoop (91 :: sec ++ [93]) fuel ⟨fp, s.lineNo + 1⟩ := by
      rw [sectionLoop, heof, if_neg (by decide), hget]
      dsimp only
      rw [checkLineEndings_eq hnl hline, stripNewline_eq hnl hline, skipWhite_eq]
      simp only [decide_eq_true_eq, List.isPrefixOf_iff_prefix]
      by_cases hign : Ignored l
      · have hheader : ¬ HeaderOf sec l := by
          rintro ⟨rest, hrest⟩
          simp [Ignored, ← hrest] at hign
        rw [if_pos hign, if_neg hheader]
      · rw [if_neg hign]
        rfl
    rw [hstep, behindHeader]
    by_cases hamb : Ambiguous l
    · rw [if_pos hamb, if_pos hamb]
    rw [if_neg hamb, if_neg hamb]
    by_cases hheader : HeaderOf sec l
    · rw [if_pos hheader, if_pos hheader]
      exact ⟨Nat.lt_succ_self _, fp, hreads, rfl⟩
    rw [if_neg hheader, if_neg hheader]
    cases hbehind : behindHeader sec (s.lineNo + 1) ls with
    | ok found =>
      rw [hbehind] at ih
      exact ⟨ih.1.trans (Nat.lt_succ_self _), ih.2⟩
    | error err =>
      rw [hbehind] at ih
      cases err <;> exact ih

end Loops

/-! ### What is counted and what is assigned -/

section Counting

variable {inSection : Bool} {tag l : List UInt8} {ls : List (List UInt8)} {k no : ℕ}

lemma countedLines_stop (h : Stops inSection l) : countedLines inSection tag (l :: ls) = [] := by
  rw [countedLines, List.takeWhile_cons_of_neg (by simpa using h), List.filter_nil]

lemma countedLines_cons (h : ¬ Stops inSection l) : countedLines inSection tag (l :: ls) =
    if (countedText tag l).isSome = true then l :: countedLines inSection tag ls
    else countedLines inSection tag ls := by
  rw [countedLines, List.takeWhile_cons_of_pos (by simpa using h), List.filter_cons]
  rfl

lemma nthCounted_cons (h : ¬ Stops inSection l) : nthCounted inSection tag k no (l :: ls) =
    match countedText tag l with
    | none => nthCounted inSection tag k (no + 1) ls
    | some text =>
      if k = 0 then
        match afterEqual text with
        | none => .error .tagNotFound
        | some value => .ok (value.rdropWhile isEndWhite, no + 1)
      else nthCounted inSection tag (k - 1) (no + 1) ls := by
  rw [nthCounted, if_neg fun hamb => h (.inl hamb), if_neg fun hhead => h (.inr hhead)]

lemma nthAssignment_cons (h : ¬ Stops inSection l) : nthAssignment inSection tag k no (l :: ls) =
    match assigned tag l with
    | none => nthAssignment inSection tag k (no + 1) ls
    | some value =>
      if k = 0 then .ok (value, no + 1)
      else nthAssignment inSection tag (k - 1) (no + 1) ls := by
  rw [nthAssignment, if_neg fun hamb => h (.inl hamb), if_neg fun hhead => h (.inr hhead)]

/-- Both end at a line that ends the section. -/
lemma steps_stop (h : Stops inSection l) (i : ℕ) :
    nthCounted inSection tag k no (l :: ls) = nthAssignment inSection tag i no (l :: ls) := by
  rw [nthCounted, nthAssignment]
  by_cases hamb : Ambiguous l
  · rw [if_pos hamb, if_pos hamb]
  · have hhead := h.resolve_left hamb
    rw [if_neg hamb, if_neg hamb, if_pos hhead, if_pos hhead]

/-- An assignment is found in the lines that are left. -/
lemma nthAssignment_line {r : IniValue} (h : nthAssignment inSection tag k no ls = .ok r) :
    no < r.2 := by
  induction ls generalizing k no with
  | nil => cases h
  | cons l ls ih =>
    by_cases hstop : Stops inSection l
    · rw [nthAssignment] at h
      by_cases hamb : Ambiguous l
      · rw [if_pos hamb] at h
        cases h
      · rw [if_neg hamb, if_pos (hstop.resolve_left hamb)] at h
        cases h
    rw [nthAssignment_cons hstop] at h
    cases hassigned : assigned tag l with
    | none =>
      rw [hassigned] at h
      exact (Nat.lt_succ_self no).trans (ih h)
    | some value =>
      rw [hassigned] at h
      dsimp only at h
      split_ifs at h
      · cases h
        exact Nat.lt_succ_self no
      · exact (Nat.lt_succ_self no).trans (ih h)

/-- A line that is not counted is no assignment. -/
lemma assigned_none (h : countedText tag l = none) : assigned tag l = none := by
  cases hassigned : assigned tag l with
  | none => rfl
  | some value =>
    obtain ⟨text, htext, -⟩ := assigned_some hassigned
    rw [h] at htext
    cases htext

/-- The condition behind a counted line. -/
lemma noValue_succ {ls' : List (List UInt8)} (h : countedLines inSection tag ls' =
    l :: countedLines inSection tag ls) :
    NoValue inSection tag (k + 1) ls' ↔ NoValue inSection tag k ls := by
  rw [NoValue, NoValue, h, List.getElem?_cons_succ]

lemma noValue_zero {ls' : List (List UInt8)} {text : List UInt8}
    (h : countedLines inSection tag ls' = l :: countedLines inSection tag ls)
    (hcount : countedText tag l = some text) :
    NoValue inSection tag 0 ls' ↔ afterEqual text = none := by
  rw [NoValue, h, List.getElem?_cons_zero]
  constructor
  · rintro ⟨l', hl, hnone⟩
    cases hl
    rwa [hcount] at hnone
  · exact fun hnone => ⟨l, rfl, by rw [hcount]; exact hnone⟩

/-- **Behind a line that is counted and is no assignment**, the code finds the same only if it
finds nothing: its line is in front of the assignment. -/
lemma nthCounted_eq_iff {i : ℕ} (hki : k < i) :
    nthCounted inSection tag k no ls = nthAssignment inSection tag i no ls ↔
      (countedLines inSection tag ls).length ≤ k ∨
        NoValue inSection tag k ls ∧ nthAssignment inSection tag i no ls = .error .tagNotFound := by
  induction ls generalizing k i no with
  | nil => exact ⟨fun _ => .inl (Nat.zero_le k), fun _ => rfl⟩
  | cons l ls ih =>
    by_cases hstop : Stops inSection l
    · rw [countedLines_stop hstop]
      exact ⟨fun _ => .inl (Nat.zero_le k), fun _ => steps_stop hstop i⟩
    have hlines := @countedLines_cons inSection tag l ls hstop
    cases hcount : countedText tag l with
    | none =>
      rw [hcount, if_neg (by simp)] at hlines
      rw [nthCounted_cons hstop, nthAssignment_cons hstop, NoValue, hlines, hcount,
        assigned_none hcount]
      exact ih hki
    | some text =>
      rw [hcount, if_pos (by rfl)] at hlines
      -- the assignment is looked for behind this line
      obtain ⟨j, hj, hrest⟩ : ∃ j, k ≤ j ∧ nthAssignment inSection tag i no (l :: ls) =
          nthAssignment inSection tag j (no + 1) ls := by
        rw [nthAssignment_cons hstop]
        cases assigned tag l with
        | none => exact ⟨i, hki.le, rfl⟩
        | some value => exact ⟨i - 1, by omega, if_neg (by omega)⟩
      rw [nthCounted_cons hstop, hcount, hrest, hlines, List.length_cons]
      cases k with
      | zero =>
        rw [noValue_zero hlines hcount]
        dsimp only
        rw [if_pos rfl]
        cases afterEqual text with
        | none => simpa using eq_comm
        | some value =>
          have hne : Except.ok (value.rdropWhile isEndWhite, no + 1) ≠
              nthAssignment inSection tag j (no + 1) ls :=
            fun h => absurd (nthAssignment_line h.symm) (lt_irrefl _)
          simpa using hne
      | succ k =>
        rw [noValue_succ hlines]
        dsimp only
        rw [if_neg (Nat.succ_ne_zero k), Nat.add_sub_cancel, Nat.add_le_add_iff_right]
        exact ih hj

/-- **The code finds the assignment** exactly if it counts right. -/
lemma nthCounted_right : nthCounted inSection tag k no ls = nthAssignment inSection tag k no ls ↔
    CountsRight inSection tag k no ls := by
  unfold CountsRight
  induction ls generalizing k no with
  | nil => exact ⟨fun _ => .inl (Nat.zero_le k), fun _ => rfl⟩
  | cons l ls ih =>
    by_cases hstop : Stops inSection l
    · rw [countedLines_stop hstop]
      exact ⟨fun _ => .inl (Nat.zero_le k), fun _ => steps_stop hstop k⟩
    have hlines := @countedLines_cons inSection tag l ls hstop
    cases hcount : countedText tag l with
    | none =>
      rw [hcount, if_neg (by simp)] at hlines
      rw [nthCounted_cons hstop, nthAssignment_cons hstop, NoValue, hlines, hcount,
        assigned_none hcount]
      exact ih
    | some text =>
      rw [hcount, if_pos (by rfl)] at hlines
      rw [nthCounted_cons hstop, nthAssignment_cons hstop, hcount, hlines,
        List.length_cons, List.take_succ_cons, List.forall_mem_cons]
      dsimp only
      cases hassigned : assigned tag l with
      | some value =>
        obtain ⟨text', htext', hvalue⟩ := assigned_some hassigned
        obtain rfl : text = text' := Option.some.inj (hcount.symm.trans htext')
        obtain ⟨v, hafter, rfl⟩ := Option.map_eq_some_iff.1 hvalue
        dsimp only
        cases k with
        | zero =>
          rw [if_pos rfl, if_pos rfl, hafter]
          exact ⟨fun _ => .inr (.inl ⟨rfl, by simp⟩), fun _ => rfl⟩
        | succ k =>
          rw [if_neg (Nat.succ_ne_zero k), if_neg (Nat.succ_ne_zero k),
            noValue_succ hlines, Nat.add_sub_cancel, Nat.add_le_add_iff_right, ih]
          simp
      | none =>
        dsimp only
        cases k with
        | zero =>
          rw [if_pos rfl, noValue_zero hlines hcount]
          cases afterEqual text with
          | none => simpa using eq_comm
          | some value =>
            have hne : Except.ok (value.rdropWhile isEndWhite, no + 1) ≠
                nthAssignment inSection tag 0 (no + 1) ls :=
              fun h => absurd (nthAssignment_line h.symm) (lt_irrefl _)
            simpa using hne
        | succ k =>
          rw [if_neg (Nat.succ_ne_zero k), noValue_succ hlines, Nat.add_sub_cancel,
            Nat.add_le_add_iff_right, nthCounted_eq_iff (Nat.lt_succ_self k)]
          simp

end Counting

/-! ### Every file -/

/-- The buffer for the section in brackets. -/
lemma bracketSection_eq (sec : CText) : bracketSection sec.bytes =
    if sec.bytes.length < lineLen then some (91 :: sec.bytes ++ [93]) else none := by
  have h0 : (0 : UInt8) ∉ 91 :: sec.bytes ++ [93] := by simpa using sec.noNul
  unfold bracketSection
  by_cases hfit : sec.bytes.length < lineLen
  swap
  · rw [if_neg hfit, writeAt, if_neg (by simp; omega), Option.bind_none]
  have hwrite : ∃ post, writeAt (List.replicate (lineLen + 2) (0 : UInt8)) 0
      (91 :: sec.bytes ++ [93, 0]) = some ([] ++ (91 :: sec.bytes ++ [93] ++ 0 :: post)) :=
    ⟨_, (@writeAt_append _ [] (List.replicate (lineLen + 2) (0 : UInt8))
      (91 :: sec.bytes ++ [93, 0]) (by simp; omega)).trans (by simp; rfl)⟩
  obtain ⟨post, hwrite⟩ := hwrite
  have hread := cStringAt_append 0 [] (91 :: sec.bytes ++ [93]) post
  rw [takeWhile_of_notMem h0] at hread
  rw [if_pos hfit, hwrite]
  exact hread

section IniFind

variable (file : IniFile) (tag : CText) {sec : CText} (k : ℕ)

lemma allLines_lt : file.allLines.length < file.text.length + 1 :=
  Nat.lt_succ_of_le file.allLines_length_le

lemma iniFind_none : iniFind file tag none (k + 1) =
    some (nthCounted false tag.bytes k 0 file.allLines) :=
  tagLoop_eq file.reads (allLines_lt file)

/-- In a section that is there. -/
lemma iniFind_some {no : ℕ} {ls : List (List UInt8)} (hfit : sec.bytes.length < lineLen)
    (h : behindHeader sec.bytes 0 file.allLines = .ok (no, ls)) :
    iniFind file tag (some sec) (k + 1) = some (nthCounted true tag.bytes k no ls) := by
  have hsection := @sectionLoop_spec _ sec.bytes _ ⟨⟨file.text, false⟩, 0⟩ _ file.reads
    (allLines_lt file)
  rw [h] at hsection
  obtain ⟨hlen, fp, hfp, hloop⟩ := hsection
  rw [iniFind, bracketSection_eq, if_pos hfit, Option.bind_some, hloop, Option.bind_some]
  exact tagLoop_eq hfp (hlen.trans (allLines_lt file))

lemma iniFind_error {err : IniError} (hfit : sec.bytes.length < lineLen)
    (h : behindHeader sec.bytes 0 file.allLines = .error err) :
    iniFind file tag (some sec) (k + 1) = some (.error
      (if err = .sectionNotFound ∧ file.endMet = true then .tagNotFound else err)) := by
  have hsection := @sectionLoop_spec _ sec.bytes _ ⟨⟨file.text, false⟩, 0⟩ _ file.reads
    (allLines_lt file)
  rw [h] at hsection
  rw [iniFind, bracketSection_eq, if_pos hfit, Option.bind_some]
  cases err with
  | sectionNotFound =>
    cases hend : file.endMet with
    | false =>
      rw [hend] at hsection
      rw [hsection]
      rfl
    | true =>
      rw [hend] at hsection
      obtain ⟨s, heof, hloop⟩ := hsection
      rw [hloop, Option.bind_some]
      dsimp only
      rw [tagLoop, if_pos heof]
      rfl
  | tagNotFound => rw [hsection]; rfl
  | conversion => rw [hsection]; rfl

/-- **A value is found** exactly if the section fits into its buffer, is there, or its absence is
noticed, and its lines are counted right. -/
theorem ini_find_lookup (sec : Option CText) :
    IniFound file tag sec k ↔ FindsRight file tag sec k := by
  unfold IniFound FindsRight
  cases sec with
  | none =>
      rw [iniFind_none, Option.some_inj]
      exact nthCounted_right
  | some sec =>
      rw [Option.map_some, lookup]
      dsimp only
      by_cases hfit : sec.bytes.length < lineLen
      swap
      · have hnone : iniFind file tag (some sec) (k + 1) = none := by
          rw [iniFind, bracketSection_eq, if_neg hfit, Option.bind_none]
        rw [hnone]
        exact ⟨fun h => (by cases h), fun h => absurd h.1 hfit⟩
      rw [and_iff_right hfit]
      cases hbehind : behindHeader sec.bytes 0 file.allLines with
      | ok found =>
          rw [iniFind_some file tag k hfit hbehind, Option.some_inj]
          exact nthCounted_right
      | error err =>
          rw [iniFind_error file tag k hfit hbehind, Option.some_inj]
          cases err with
          | sectionNotFound =>
              cases file.endMet with
              | false => exact ⟨fun _ => rfl, fun _ => rfl⟩
              | true => exact ⟨fun h => (by cases h), fun h => (by cases h)⟩
          | tagNotFound => exact ⟨fun _ => trivial, fun _ => rfl⟩
          | conversion => exact ⟨fun _ => trivial, fun _ => rfl⟩

end IniFind

/-- `[S]` with the line `A B = 1` in front of `A = 2`: the code finds the value of `A B`. -/
theorem ini_find_other_tag : ¬ ∀ file tag sec k, IniFound file tag sec k := by
  intro h
  let file : IniFile :=
    { lines := [[91, 83, 93], [65, 32, 66, 32, 61, 32, 49], [65, 32, 61, 32, 50]]
      last := []
      noNewline := by decide
      fits := by decide
      lastNoNewline := by decide
      lastFits := by decide
      noNul := by decide }
  have hfound := h file ⟨[65], by decide⟩ (some ⟨[83], by decide⟩) 0
  have hcode : iniFind file ⟨[65], by decide⟩ (some ⟨[83], by decide⟩) 1 =
      some (.ok ([49], 2)) := by
    rw [@iniFind_some file _ _ 0 1 [[65, 32, 66, 32, 61, 32, 49], [65, 32, 61, 32, 50]]
      (by decide) (by decide)]
    decide
  have hspec : lookup [65] (some [83]) 0 file.allLines = .ok ([50], 3) := by decide
  rw [IniFound, hcode] at hfound
  exact absurd (Option.some.inj hfound) (by rw [Option.map_some, hspec]; decide)

end MachinekitHal
