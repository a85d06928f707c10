import MachinekitHal.Lib.Buffers

/-!
Files that are read line by line.

* `Stream`: what is left of a file, and the end-of-file indicator.
* `fgets`: a line, or as much of it as fits; `fgets_none`: nothing is left.
* `Gives`: the lines that calls of `fgets` have given; `Gives.of_lines`: those of the text.
* `LineText`: a text of lines that fit, and what is behind the last newline.
* `Reads`: the lines that a stream gives, and the indicator behind them.
* `LineText.reads`: a text gives its lines.
-/

namespace Lines

/-- The rest of a file, and whether its end has been met. -/
structure Stream (α : Type*) where
  rest : List α
  eof : Bool

variable {α : Type*} [DecidableEq α] {nl : α} {n : ℕ} {e : Bool} {l rest : List α}

/-- At most `n - 1` elements, up to a newline. -/
def fgets (nl : α) (n : ℕ) (s : Stream α) : Option (List α) × Stream α :=
  let chunk := s.rest.take (n - 1)
  let line := chunk.takeWhile (· ≠ nl)
  if line.length < chunk.length then
    (some (line ++ [nl]), ⟨s.rest.drop (line.length + 1), s.eof⟩)
  else if line.length = n - 1 then (some line, ⟨s.rest.drop (n - 1), s.eof⟩)
  else (if line = [] then none else some line, ⟨[], true⟩)

lemma takeWhile_newline (h : nl ∉ l) (rest : List α) :
    (l ++ nl :: rest).takeWhile (· ≠ nl) = l := by
  rw [List.takeWhile_append_of_pos fun x hx => by simpa using ne_of_mem_of_not_mem hx h,
    List.takeWhile_cons_of_neg (by simp), List.append_nil]

/-- A line ends at its first newline. -/
lemma append_newline_inj {l' rest' : List α} (h : nl ∉ l) (h' : nl ∉ l')
    (heq : l ++ nl :: rest = l' ++ nl :: rest') : l = l' ∧ rest = rest' := by
  obtain rfl : l = l' := by
    rw [← takeWhile_newline h rest, heq, takeWhile_newline h' rest']
  exact ⟨rfl, (List.cons.inj (List.append_cancel_left heq)).2⟩

lemma fgets_line (h : nl ∉ l) (hn : l.length + 1 < n) :
    fgets nl n ⟨l ++ nl :: rest, e⟩ = (some (l ++ [nl]), ⟨rest, e⟩) := by
  obtain ⟨k, rfl⟩ : ∃ k, n = l.length + 1 + k + 1 := ⟨n - l.length - 2, by omega⟩
  have hchunk : (l ++ nl :: rest).take (l.length + 1 + k + 1 - 1) = l ++ nl :: rest.take k := by
    rw [Nat.add_sub_cancel, add_assoc, List.take_length_add_append, add_comm 1 k,
      List.take_succ_cons]
  rw [fgets]
  dsimp only
  rw [hchunk, takeWhile_newline h, if_pos (by simp), ← List.drop_drop, List.drop_left,
    List.drop_one, List.tail_cons]

/-- A last line without a newline. -/
lemma fgets_last (h : nl ∉ l) (hne : l ≠ []) (hn : l.length + 1 < n) :
    fgets nl n ⟨l, e⟩ = (some l, ⟨[], true⟩) := by
  rw [fgets]
  dsimp only
  rw [List.take_of_length_le (by omega), Buffers.takeWhile_of_notMem h, if_neg (lt_irrefl _),
    if_neg (by omega), if_neg hne]

/-- A last line without a newline that is as long as possible: its end is not met. -/
lemma fgets_full (h : nl ∉ l) (hn : l.length + 1 = n) :
    fgets nl n ⟨l, e⟩ = (some l, ⟨[], e⟩) := by
  rw [fgets]
  dsimp only
  rw [List.take_of_length_le (by omega), Buffers.takeWhile_of_notMem h, if_neg (lt_irrefl _),
    if_pos (by omega), List.drop_eq_nil_of_le (by omega)]

lemma fgets_end (hn : 1 < n) : fgets nl n ⟨[], e⟩ = (none, ⟨[], true⟩) := by
  rw [fgets]
  dsimp only
  rw [List.take_nil, List.takeWhile_nil, if_neg (lt_irrefl _),
    if_neg (by rw [List.length_nil]; omega), if_pos rfl]

/-- Nothing is read at the end. -/
lemma fgets_none {s s' : Stream α} (hn : 1 < n) (h : fgets nl n s = (none, s')) :
    s.rest = [] ∧ s'.rest = [] := by
  rw [fgets] at h
  split_ifs at h with hlt hfull hnil
  · cases (Prod.mk.inj h).1
  · cases (Prod.mk.inj h).1
  · cases h
    refine ⟨?_, rfl⟩
    rw [hnil] at hlt hfull
    have hchunk : s.rest.take (n - 1) = [] := List.length_eq_zero_iff.1 (by
      rw [List.length_nil] at hlt
      omega)
    rcases List.take_eq_nil_iff.1 hchunk with h0 | h0
    · omega
    · exact h0
  · cases (Prod.mk.inj h).1

/-- `fgets` has given these lines, one after the other. -/
inductive Gives (nl : α) (n : ℕ) (s₀ : Stream α) : List (List α) → Stream α → Prop where
  | nil : Gives nl n s₀ [] s₀
  | line {ls : List (List α)} {l : List α} {s s' : Stream α} (h : Gives nl n s₀ ls s)
      (hget : fgets nl n s = (some l, s')) : Gives nl n s₀ (ls ++ [l]) s'
  | finish {ls : List (List α)} {s s' : Stream α} (h : Gives nl n s₀ ls s)
      (hget : fgets nl n s = (none, s')) : Gives nl n s₀ ls s'

/-- A text of lines that fit gives them in their order. -/
lemma Gives.of_lines {s : Stream α} {lines ls : List (List α)} (hn : 1 < n)
    (hlines : ∀ l ∈ lines, nl ∉ l ∧ l.length + 1 < n)
    (h : Gives nl n ⟨(lines.map (· ++ [nl])).flatten, e⟩ ls s) :
    ∃ behind, lines.map (· ++ [nl]) = ls ++ behind ∧ s.rest = behind.flatten := by
  induction h with
  | nil => exact ⟨_, rfl, rfl⟩
  | @line ls l s s' h hget ih =>
    obtain ⟨behind, heq, hrest⟩ := ih
    obtain ⟨rest, eof⟩ := s
    obtain rfl : rest = behind.flatten := hrest
    cases behind with
    | nil =>
      rw [List.flatten_nil, fgets_end hn] at hget
      cases (Prod.mk.inj hget).1
    | cons b behind =>
      have hb : b ∈ lines.map (· ++ [nl]) := by
        rw [heq]
        exact List.mem_append_right _ (.head _)
      obtain ⟨k, hk, rfl⟩ := List.mem_map.1 hb
      obtain ⟨hnl, hfits⟩ := hlines k hk
      rw [List.flatten_cons, List.append_assoc, List.singleton_append, fgets_line hnl hfits]
        at hget
      obtain ⟨hl, rfl⟩ := Prod.mk.inj hget
      cases hl
      exact ⟨behind, by rw [heq, List.append_assoc, List.singleton_append], rfl⟩
  | finish h hget ih =>
    obtain ⟨behind, heq, hrest⟩ := ih
    obtain ⟨hrest', hrest''⟩ := fgets_none hn hget
    exact ⟨behind, heq, by rw [hrest'', ← hrest', hrest]⟩

/-- A text whose lines fit into `n - 1` elements, the newline included. -/
structure LineText (nl : α) (n : ℕ) where
  lines : List (List α)
  last : List α
  noNewline : ∀ l ∈ lines, nl ∉ l
  fits : ∀ l ∈ lines, l.length + 1 < n
  lastNoNewline : nl ∉ last
  lastFits : last.length < n

namespace LineText

variable (t : LineText nl n)

/-- The text. -/
def text : List α := t.lines.flatMap (· ++ [nl]) ++ t.last

/-- The lines, with one that does not end. -/
def allLines : List (List α) := t.lines ++ if t.last = [] then [] else [t.last]

/-- The end has been met when all lines are read. -/
def endMet : Bool := decide (t.last ≠ [] ∧ t.last.length + 1 < n)

end LineText

/-- The stream gives these lines, and then the indicator is `e`. -/
def Reads (nl : α) (n : ℕ) (e : Bool) : Stream α → List (List α) → Prop
  | s, [] => s = ⟨[], e⟩
  | s, l :: ls => s.eof = false ∧ nl ∉ l ∧ ∃ line s', fgets nl n s = (some line, s') ∧
      (line = l ++ [nl] ∨ line = l) ∧ Reads nl n e s' ls

namespace LineText

variable (t : LineText nl n)

/-- What is behind the last newline is read as a line, or there is none. -/
lemma reads_last : Reads nl n t.endMet ⟨t.last, false⟩ (if t.last = [] then [] else [t.last]) := by
  by_cases hnil : t.last = []
  · rw [if_pos hnil, hnil, endMet, decide_eq_false fun h => h.1 hnil]
    rfl
  rw [if_neg hnil]
  refine ⟨rfl, t.lastNoNewline, t.last, ⟨[], t.endMet⟩, ?_, .inr rfl, rfl⟩
  by_cases hfull : t.last.length + 1 < n
  · rw [fgets_last t.lastNoNewline hnil hfull, endMet, decide_eq_true ⟨hnil, hfull⟩]
  · rw [fgets_full t.lastNoNewline (by have := t.lastFits; omega), endMet,
      decide_eq_false fun h => hfull h.2]

/-- **A text gives its lines.** -/
lemma reads : Reads nl n t.endMet ⟨t.text, false⟩ t.allLines := by
  have hlast := t.reads_last
  have hlines := t.noNewline
  have hfits := t.fits
  rw [text, allLines]
  generalize t.lines = ls at *
  induction ls with
  | nil => exact hlast
  | cons l ls ih =>
    rw [List.forall_mem_cons] at hlines hfits
    refine ⟨rfl, hlines.1, l ++ [nl], ⟨ls.flatMap (· ++ [nl]) ++ t.last, false⟩, ?_, .inl rfl,
      ih hlines.2 hfits.2⟩
    have hline := @fgets_line _ _ nl n false l (ls.flatMap (· ++ [nl]) ++ t.last) hlines.1 hfits.1
    rwa [List.flatMap_cons, List.append_assoc, List.append_assoc]

omit [DecidableEq α] in
/-- There are no more lines than elements. -/
lemma allLines_length_le : t.allLines.length ≤ t.text.length := by
  have hlines : ∀ ls : List (List α), ls.length ≤ (ls.flatMap (· ++ [nl])).length := by
    intro ls
    induction ls with
    | nil => exact le_rfl
    | cons l ls ih =>
      rw [List.flatMap_cons, List.length_append, List.length_append, List.length_singleton,
        List.length_cons]
      omega
  have hle := hlines t.lines
  rw [allLines, text, List.length_append, List.length_append]
  by_cases hnil : t.last = []
  · rw [if_pos hnil, List.length_nil]
    omega
  · have hpos := List.length_pos_iff.2 hnil
    rw [if_neg hnil, List.length_singleton]
    omega

end LineText

end Lines
