import Mathlib.Data.List.TakeWhile
import Mathlib.Tactic

/-!
Words of a text, separated by blanks and grouped by quotes.

A quote is closed by the same character; a quote that is not closed goes on to the end of the
text.

* `Word`: a part of a word in which every quote is closed.
* `OpenWord`: a word that ends in an open quote.
* `Splits`: a text, its words, and whether it ends with the last of them.
* `StartsWithWord`, `exists_splits`: every text has its words.
-/

namespace Words

variable {α : Type*} {blank quote : α → Bool}

/-- No blank is outside quotes, and every quote is closed. -/
inductive Word (blank quote : α → Bool) : List α → Prop
  | nil : Word blank quote []
  | plain {c : α} {w : List α} : blank c = false → quote c = false → Word blank quote w →
      Word blank quote (c :: w)
  | quoted {q : α} {body w : List α} : quote q = true → q ∉ body → Word blank quote w →
      Word blank quote (q :: (body ++ q :: w))

/-- The last quote is not closed. -/
def OpenWord (blank quote : α → Bool) (l : List α) : Prop :=
  ∃ w q body, l = w ++ q :: body ∧ Word blank quote w ∧ quote q = true ∧ q ∉ body

/-- The words of a text; `ended` says that the last of them ends the text. -/
inductive Splits (blank quote : α → Bool) : List α → List (List α) → Bool → Prop
  | blanks {gap : List α} : (∀ c ∈ gap, blank c = true) → Splits blank quote gap [] false
  | last {gap w : List α} : (∀ c ∈ gap, blank c = true) → w ≠ [] →
      Word blank quote w ∨ OpenWord blank quote w → Splits blank quote (gap ++ w) [w] true
  | cons {gap w rest : List α} {b : α} {ws : List (List α)} {ended : Bool} :
      (∀ c ∈ gap, blank c = true) → w ≠ [] → Word blank quote w → blank b = true →
      Splits blank quote rest ws ended →
      Splits blank quote (gap ++ (w ++ b :: rest)) (w :: ws) ended

lemma Word.append {w v : List α} (hw : Word blank quote w) (hv : Word blank quote v) :
    Word blank quote (w ++ v) := by
  induction hw with
  | nil => exact hv
  | plain hb hq _ ih => exact .plain hb hq ih
  | @quoted q body w hq hbody _ ih =>
    rw [List.cons_append, List.append_assoc, List.cons_append]
    exact .quoted hq hbody ih

lemma OpenWord.append {w v : List α} (hw : Word blank quote w) (hv : OpenWord blank quote v) :
    OpenWord blank quote (w ++ v) := by
  obtain ⟨u, q, body, rfl, hu, hq, hbody⟩ := hv
  exact ⟨w ++ u, q, body, (List.append_assoc _ _ _).symm, hw.append hu, hq, hbody⟩

/-- A text starts with a word, up to a blank or to the end. -/
def StartsWithWord (blank quote : α → Bool) (l : List α) : Prop :=
  Word blank quote l ∨ OpenWord blank quote l ∨
    ∃ w b rest, l = w ++ b :: rest ∧ Word blank quote w ∧ blank b = true

lemma StartsWithWord.append {w l : List α} (hw : Word blank quote w)
    (hl : StartsWithWord blank quote l) : StartsWithWord blank quote (w ++ l) := by
  rcases hl with hl | hl | ⟨v, b, rest, rfl, hv, hb⟩
  · exact .inl (hw.append hl)
  · exact .inr (.inl (hl.append hw))
  · exact .inr (.inr ⟨w ++ v, b, rest, (List.append_assoc _ _ _).symm, hw.append hv, hb⟩)

lemma startsWithWord (blank quote : α → Bool) (l : List α) : StartsWithWord blank quote l := by
  classical
  induction hn : l.length using Nat.strong_induction_on generalizing l with
  | _ n ih =>
  cases l with
  | nil => exact .inl .nil
  | cons c l =>
    by_cases hb : blank c = true
    · exact .inr (.inr ⟨[], c, l, rfl, .nil, hb⟩)
    by_cases hq : quote c = true
    · by_cases hc : c ∈ l
      · obtain ⟨body, rest, rfl, hbody⟩ := List.eq_append_cons_of_mem hc
        have hrest := ih rest.length (by
          rw [← hn, List.length_cons, List.length_append, List.length_cons]
          omega) rest rfl
        have hword : Word blank quote (c :: (body ++ [c])) := .quoted hq hbody .nil
        have happ := hrest.append hword
        rwa [List.cons_append, List.append_assoc] at happ
      · exact .inr (.inl ⟨[], c, l, rfl, .nil, hq, hc⟩)
    · have hword : Word blank quote [c] := .plain (by simpa using hb) (by simpa using hq) .nil
      exact (ih l.length (by rw [← hn]; exact Nat.lt_succ_self _) l rfl).append hword

/-- **Every text has its words.** -/
theorem exists_splits (l : List α) : ∃ ws ended, Splits blank quote l ws ended := by
  induction hn : l.length using Nat.strong_induction_on generalizing l with
  | _ n ih =>
  have hgap : ∀ c ∈ l.takeWhile blank, blank c = true := fun c hc => List.mem_takeWhile_imp hc
  rw [← List.takeWhile_append_dropWhile (p := blank) (l := l)] at hn ⊢
  cases htext : l.dropWhile blank with
  | nil =>
    rw [List.append_nil]
    exact ⟨[], false, .blanks hgap⟩
  | cons c text =>
    have hc : blank c = false := by
      have hhead := List.head?_dropWhile_not blank l
      rw [htext] at hhead
      simpa using hhead
    rcases startsWithWord blank quote (c :: text) with hw | hw | hw
    · exact ⟨_, _, .last hgap (List.cons_ne_nil _ _) (.inl hw)⟩
    · exact ⟨_, _, .last hgap (List.cons_ne_nil _ _) (.inr hw)⟩
    · obtain ⟨w, b, rest, heq, hw, hb⟩ := hw
      have hne : w ≠ [] := by
        rintro rfl
        obtain rfl : c = b := (List.cons.inj heq).1
        rw [hb] at hc
        exact absurd hc.symm Bool.false_ne_true
      rw [htext, heq, List.length_append, List.length_append, List.length_cons] at hn
      obtain ⟨ws, ended, hws⟩ := ih rest.length (by omega) rest rfl
      rw [heq]
      exact ⟨_, _, .cons hgap hne hw hb hws⟩

end Words
