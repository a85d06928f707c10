import Mathlib.Tactic

/-!
Queues whose entries carry increasing labels.

* `Labelled P lo live hi`: the entries of `live` have increasing labels from `lo` on and below
  `hi`; an entry `x` with the label `p` satisfies `P p x`. The labels themselves are not stored.
* `Labelled.length_le`: there are no more entries than labels.
* `Labelled.snoc`, `Labelled.dropWhile`, `Labelled.dropWhile_first`: a new entry, and entries
  taken from the front.
* `Labelled.split`, `Labelled.dropWhile_full`: when no label is left out.
-/

/-- The entries of `live` have increasing labels in `lo .. hi`. -/
inductive Labelled {α : Type*} (P : ℕ → α → Prop) : ℕ → List α → ℕ → Prop
  | nil {lo hi : ℕ} (hle : lo ≤ hi) : Labelled P lo [] hi
  | cons {lo p hi : ℕ} {x : α} {rest : List α} (hle : lo ≤ p) (hx : P p x)
      (hrest : Labelled P (p + 1) rest hi) : Labelled P lo (x :: rest) hi

namespace Labelled

variable {α : Type*} {P : ℕ → α → Prop} {lo hi : ℕ} {live : List α}

lemma length_le (h : Labelled P lo live hi) : lo + live.length ≤ hi := by
  induction h with
  | nil hle => exact hle
  | cons hle _ _ ih =>
    rw [List.length_cons]
    omega

lemma mono (h : Labelled P lo live hi) {lo' hi' : ℕ} (hlo : lo' ≤ lo) (hhi : hi ≤ hi') :
    Labelled P lo' live hi' := by
  induction h generalizing lo' with
  | nil hle => exact .nil (by omega)
  | cons hle hx _ ih => exact .cons (by omega) hx (ih le_rfl hhi)

lemma exists_label (h : Labelled P lo live hi) {x : α} (hx : x ∈ live) :
    ∃ p, lo ≤ p ∧ p < hi ∧ P p x := by
  induction h with
  | nil _ => exact absurd hx List.not_mem_nil
  | cons hle hp hrest ih =>
    rcases List.mem_cons.1 hx with rfl | hmem
    · have hlt := hrest.length_le
      exact ⟨_, hle, by omega, hp⟩
    · obtain ⟨p, hlo, hhi, hP⟩ := ih hmem
      exact ⟨p, by omega, hhi, hP⟩

/-- A new entry has the next label. -/
lemma snoc (h : Labelled P lo live hi) {x : α} (hx : P hi x) :
    Labelled P lo (live ++ [x]) (hi + 1) := by
  induction h with
  | nil hle => exact .cons hle hx (.nil le_rfl)
  | cons hle hp _ ih => exact .cons hle hp (ih hx)

/-- Entries are taken from the front. -/
lemma dropWhile (h : Labelled P lo live hi) (f : α → Bool) :
    Labelled P lo (live.dropWhile f) hi := by
  induction h with
  | nil hle => exact .nil hle
  | @cons lo p hi x rest hle hx hrest ih =>
    rw [List.dropWhile_cons]
    split_ifs
    · exact ih.mono (by omega) le_rfl
    · exact .cons hle hx hrest

/-- If an entry with the first label would be taken, none is left. -/
lemma dropWhile_first (h : Labelled P lo live hi) {f : α → Bool} (hlt : lo < hi)
    (hf : ∀ x, P lo x → f x = true) : Labelled P (lo + 1) (live.dropWhile f) hi := by
  cases h with
  | nil _ => exact .nil hlt
  | @cons _ p _ x rest hle hx hrest =>
    rw [List.dropWhile_cons]
    split_ifs with hfx
    · exact (hrest.dropWhile f).mono (by omega) le_rfl
    · have hne : p ≠ lo := fun he => hfx (hf x (he ▸ hx))
      exact .cons (by omega) hx hrest

/-! ### When no label is left out -/

/-- The queue around the entry with a given label. -/
lemma split (h : Labelled P lo live hi) (hfull : lo + live.length = hi) {p : ℕ} (hlo : lo ≤ p)
    (hhi : p < hi) : ∃ pre x post, live = pre ++ x :: post ∧ Labelled P lo pre p ∧ P p x ∧
      Labelled P (p + 1) post hi := by
  induction h with
  | nil _ =>
    rw [List.length_nil] at hfull
    omega
  | @cons lo q hi x rest hle hx hrest ih =>
    have hlen := hrest.length_le
    rw [List.length_cons] at hfull
    obtain rfl : q = lo := by omega
    rcases Nat.eq_or_lt_of_le hlo with rfl | hlt
    · exact ⟨[], x, rest, rfl, .nil le_rfl, hx, hrest⟩
    · obtain ⟨pre, y, post, hsplit, hpre, hy, hpost⟩ := ih (by omega) hlt hhi
      exact ⟨x :: pre, y, post, by rw [hsplit]; rfl, .cons le_rfl hx hpre, hy, hpost⟩

/-- Entries are taken from the front, one label after the other. -/
lemma dropWhile_full (h : Labelled P lo live hi) (hfull : lo + live.length = hi) (f : α → Bool) :
    ∃ s, lo ≤ s ∧ Labelled P s (live.dropWhile f) hi ∧ s + (live.dropWhile f).length = hi ∧
      ∀ p, lo ≤ p → p < s → ∃ x, P p x ∧ f x = true := by
  induction h with
  | nil hle => exact ⟨_, le_rfl, .nil hle, hfull, fun p h1 h2 => absurd h2 (Nat.not_lt.2 h1)⟩
  | @cons lo q hi x rest hle hx hrest ih =>
    have hlen := hrest.length_le
    rw [List.length_cons] at hfull
    obtain rfl : q = lo := by omega
    rw [List.dropWhile_cons]
    split_ifs with hfx
    · obtain ⟨s, hs, hdrop, hcount, htaken⟩ := ih (by omega)
      refine ⟨s, by omega, hdrop, hcount, fun p h1 h2 => ?_⟩
      rcases Nat.eq_or_lt_of_le h1 with rfl | hlt
      · exact ⟨x, hx, hfx⟩
      · exact htaken p hlt h2
    · exact ⟨q, le_rfl, .cons le_rfl hx hrest, by rw [List.length_cons]; omega,
        fun p h1 h2 => absurd h2 (Nat.not_lt.2 h1)⟩

end Labelled
