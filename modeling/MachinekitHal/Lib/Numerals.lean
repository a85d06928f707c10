import Mathlib.Data.Nat.Digits.Lemmas
import Mathlib.Data.List.TakeWhile
import Mathlib.Tactic

/-!
Numbers in texts.

* `digitVal`, `digitsVal`: what a digit and a row of digits stand for.
* `Literal`: a number without a sign, decimal, octal or hexadecimal as in C.
* `NumberText`: a literal with a sign, among blanks.
* `scanLiteral`, `scanNumber`: the scanner of C for base `0`; it stops where the number ends.
* `scanDecimal`: the scanner for base `10`.
* `decimal`, `printInt`: the decimal text of a number.
* `scanNumber_text`, `numberText_printInt`: the number of a text is scanned, a printed number has
  its text; `scanDecimal_printInt`: it is scanned to the base `10`.
-/

namespace Numerals

/-- What a digit stands for; letters are digits from ten on. -/
def digitVal (c : UInt8) : Option ℕ :=
  if 48 ≤ c ∧ c ≤ 57 then some (c.toNat - 48)
  else if 97 ≤ c ∧ c ≤ 122 then some (c.toNat - 87)
  else if 65 ≤ c ∧ c ≤ 90 then some (c.toNat - 55)
  else none

/-- A digit of a base. -/
def isDigit (b : ℕ) (c : UInt8) : Bool := (digitVal c).any (· < b)

/-- What a row of digits stands for. -/
def digitsVal (b : ℕ) (ds : List UInt8) : ℕ :=
  ds.foldl (fun n c => n * b + (digitVal c).getD 0) 0

/-- A number without a sign. -/
inductive Literal : List UInt8 → ℕ → Prop
  | decimal {ds : List UInt8} (hne : ds ≠ []) (hzero : ds.head? ≠ some 48)
      (hds : ∀ c ∈ ds, isDigit 10 c = true) : Literal ds (digitsVal 10 ds)
  | octal {ds : List UInt8} (hds : ∀ c ∈ ds, isDigit 8 c = true) :
      Literal (48 :: ds) (digitsVal 8 (48 :: ds))
  | hex {x : UInt8} {ds : List UInt8} (hx : x = 120 ∨ x = 88) (hne : ds ≠ [])
      (hds : ∀ c ∈ ds, isDigit 16 c = true) : Literal (48 :: x :: ds) (digitsVal 16 ds)

/-- A sign, or none; `-` stands for `true`. -/
inductive Sign : List UInt8 → Bool → Prop
  | none : Sign [] false
  | plus : Sign [43] false
  | minus : Sign [45] true

/-- A number with its sign. -/
def signed (neg : Bool) (n : ℕ) : ℤ := if neg then -n else n

/-- A number with its sign, among blanks. -/
def NumberText (blank : UInt8 → Bool) (text : List UInt8) (z : ℤ) : Prop :=
  ∃ pre sign lit post neg n, text = pre ++ (sign ++ (lit ++ post)) ∧
    (∀ c ∈ pre, blank c = true) ∧ (∀ c ∈ post, blank c = true) ∧
    Sign sign neg ∧ Literal lit n ∧ z = signed neg n

/-- The base of the text, and the text behind its prefix. -/
def radix (t : List UInt8) : ℕ × List UInt8 :=
  if t.head? = some 48 then
    if (t.tail.head? = some 120 ∨ t.tail.head? = some 88) ∧
        t.tail.tail.head?.any (isDigit 16) = true then (16, t.tail.tail)
    else (8, t)
  else (10, t)

/-- A literal at the beginning of a text, and the rest of it. -/
def scanLiteral (t : List UInt8) : Option (ℕ × List UInt8) :=
  let (b, t) := radix t
  let ds := t.takeWhile (isDigit b)
  if ds = [] then none else some (digitsVal b ds, t.dropWhile (isDigit b))

/-- Blanks, a sign and a literal at the beginning of a text, and the rest of it. -/
def scanNumber (blank : UInt8 → Bool) (text : List UInt8) : Option ((Bool × ℕ) × List UInt8) :=
  let t := text.dropWhile blank
  let neg := t.head? = some 45
  let t := if neg ∨ t.head? = some 43 then t.tail else t
  (scanLiteral t).map fun r => ((decide neg, r.1), r.2)

/-- Blanks, a sign and decimal digits at the beginning of a text, and the rest of it. -/
def scanDecimal (blank : UInt8 → Bool) (text : List UInt8) :
    Option ((Bool × ℕ) × List UInt8) :=
  let t := text.dropWhile blank
  let neg := t.head? = some 45
  let t := if neg ∨ t.head? = some 43 then t.tail else t
  let ds := t.takeWhile (isDigit 10)
  if ds = [] then none else some ((decide neg, digitsVal 10 ds), t.dropWhile (isDigit 10))

/-- The decimal text of a number. -/
def decimal (n : ℕ) : List UInt8 :=
  if n = 0 then [48] else (Nat.digits 10 n).reverse.map fun d => UInt8.ofNat (48 + d)

/-- The decimal text of a number with its sign. -/
def printInt (z : ℤ) : List UInt8 := if z < 0 then 45 :: decimal z.natAbs else decimal z.natAbs

/-! ### Scanning -/

section Scan

variable {b n : ℕ} {ds lit rest pre post text : List UInt8} {c : UInt8} {blank : UInt8 → Bool}

lemma isDigit_digitVal (h : isDigit b c = true) : digitVal c ≠ none := by
  intro hnone
  rw [isDigit, hnone] at h
  cases h

/-- What is no digit of any base. -/
lemma isDigit_of_none (h : digitVal c = none) : isDigit b c = false := by rw [isDigit, h]; rfl

lemma takeWhile_digits (hds : ∀ c ∈ ds, isDigit b c = true)
    (hrest : ∀ c, rest.head? = some c → digitVal c = none) :
    (ds ++ rest).takeWhile (isDigit b) = ds ∧ (ds ++ rest).dropWhile (isDigit b) = rest := by
  rw [List.takeWhile_append_of_pos hds, List.dropWhile_append_of_pos hds]
  cases rest with
  | nil => simp
  | cons c rest =>
    have hc : ¬ isDigit b c = true := by
      rw [isDigit_of_none (hrest c rfl)]
      decide
    rw [List.takeWhile_cons_of_neg hc, List.dropWhile_cons_of_neg hc]
    simp

/-- A literal gives its base. -/
lemma Literal.radix (h : Literal lit n) (hrest : ∀ c, rest.head? = some c → digitVal c = none) :
    ∃ b ds, Numerals.radix (lit ++ rest) = (b, ds ++ rest) ∧ ds ≠ [] ∧
      (∀ c ∈ ds, isDigit b c = true) ∧ n = digitsVal b ds := by
  cases h with
  | decimal hne hzero hds =>
    refine ⟨10, lit, if_neg ?_, hne, hds, rfl⟩
    rwa [List.head?_append_of_ne_nil _ hne]
  | octal hds =>
    rename_i ds
    refine ⟨8, 48 :: ds, ?_, by simp, List.forall_mem_cons.2 ⟨by decide, hds⟩, rfl⟩
    rw [Numerals.radix, if_pos (by rfl), if_neg]
    rintro ⟨hnext, -⟩
    obtain ⟨x, hhead, hx⟩ : ∃ x, (ds ++ rest).head? = some x ∧ (x = 120 ∨ x = 88) := by
      obtain hnext | hnext := hnext
      · exact ⟨120, hnext, .inl rfl⟩
      · exact ⟨88, hnext, .inr rfl⟩
    cases ds with
    | nil =>
      have hnone := hrest x hhead
      obtain rfl | rfl := hx <;> exact absurd hnone (by decide)
    | cons d ds =>
      obtain rfl : d = x := Option.some.inj hhead
      have hd := hds d (by simp)
      obtain rfl | rfl := hx <;> exact absurd hd (by decide)
  | hex hx hne hds =>
    rename_i x ds
    refine ⟨16, ds, ?_, hne, hds, rfl⟩
    obtain ⟨d, ds', rfl⟩ := List.exists_cons_of_ne_nil hne
    rw [Numerals.radix, if_pos (by rfl), if_pos]
    · rfl
    · exact ⟨by simpa using hx, hds d (by simp)⟩

lemma scanLiteral_append (h : Literal lit n)
    (hrest : ∀ c, rest.head? = some c → digitVal c = none) :
    scanLiteral (lit ++ rest) = some (n, rest) := by
  obtain ⟨b, ds, hradix, hne, hds, rfl⟩ := h.radix hrest
  obtain ⟨htake, hdrop⟩ := takeWhile_digits hds hrest
  rw [scanLiteral, hradix]
  dsimp only
  rw [htake, hdrop, if_neg hne]

/-- What a literal begins with. -/
lemma Literal.head (h : Literal lit n) : ∃ c, lit.head? = some c ∧ isDigit 10 c = true := by
  cases h with
  | decimal hne _ hds =>
    obtain ⟨d, ds, rfl⟩ := List.exists_cons_of_ne_nil hne
    exact ⟨d, rfl, hds d (by simp)⟩
  | octal _ => exact ⟨48, rfl, by decide⟩
  | hex _ _ _ => exact ⟨48, rfl, by decide⟩

/-- **The number of a text is scanned**, up to the blanks behind it. -/
lemma scanNumber_text (hblank : ∀ c, blank c = true → digitVal c = none ∧ c ≠ 43 ∧ c ≠ 45)
    {z : ℤ} (h : NumberText blank text z) : ∃ neg n post,
      scanNumber blank text = some ((neg, n), post) ∧ (∀ c ∈ post, blank c = true) ∧
      z = signed neg n := by
  obtain ⟨pre, sign, lit, post, neg, n, rfl, hpre, hpost, hsign, hlit, rfl⟩ := h
  have hrest : ∀ c, post.head? = some c → digitVal c = none :=
    fun c hc => (hblank c (hpost c (List.mem_of_head? hc))).1
  obtain ⟨c, hhead, hdigit⟩ := hlit.head
  obtain ⟨lit', rfl⟩ : ∃ l, lit = c :: l := List.head?_eq_some_iff.1 hhead
  have hc : c ≠ 43 ∧ c ≠ 45 ∧ blank c = false := by
    refine ⟨?_, ?_, ?_⟩
    · rintro rfl
      exact absurd hdigit (by decide)
    · rintro rfl
      exact absurd hdigit (by decide)
    · by_contra hb
      exact isDigit_digitVal hdigit (hblank c (by simpa using hb)).1
  have hscan := scanLiteral_append hlit hrest
  refine ⟨neg, n, post, ?_, hpost, rfl⟩
  rw [scanNumber, List.dropWhile_append_of_pos hpre]
  cases hsign with
  | none =>
    rw [List.nil_append, List.cons_append, List.dropWhile_cons_of_neg (by simp [hc.2.2])]
    rw [if_neg (by simp [hc.1, hc.2.1]), ← List.cons_append, hscan]
    simp [hc.2.1]
  | plus =>
    have hplus : blank 43 = false := by
      by_contra hb
      exact (hblank 43 (by simpa using hb)).2.1 rfl
    rw [List.singleton_append, List.dropWhile_cons_of_neg (by simp [hplus])]
    rw [if_pos (.inr rfl), List.tail_cons, hscan]
    rfl
  | minus =>
    have hminus : blank 45 = false := by
      by_contra hb
      exact (hblank 45 (by simpa using hb)).2.2 rfl
    rw [List.singleton_append, List.dropWhile_cons_of_neg (by simp [hminus])]
    rw [if_pos (.inl rfl), List.tail_cons, hscan]
    rfl

/-! The rest of a text is no longer than the text. -/

lemma length_radix_le (t : List UInt8) : (radix t).2.length ≤ t.length := by
  rw [radix]
  split_ifs
  · exact (List.tail_suffix t.tail).length_le.trans (List.tail_suffix t).length_le
  · exact le_rfl
  · exact le_rfl

lemma length_scanLiteral_le (h : scanLiteral text = some (n, rest)) :
    rest.length ≤ text.length := by
  rw [scanLiteral] at h
  dsimp only at h
  split_ifs at h
  cases h
  exact (List.dropWhile_suffix _).length_le.trans (length_radix_le text)

lemma length_scanNumber_le {x : Bool × ℕ} (h : scanNumber blank text = some (x, rest)) :
    rest.length ≤ text.length := by
  obtain ⟨⟨n, rest'⟩, hscan, hx⟩ := Option.map_eq_some_iff.1 h
  cases hx
  refine (length_scanLiteral_le hscan).trans (le_trans ?_ (List.dropWhile_suffix blank).length_le)
  split_ifs
  · exact (List.tail_suffix _).length_le
  · exact le_rfl

end Scan

/-! ### Printing -/

section Print

variable {n : ℕ} {d : ℕ} {blank : UInt8 → Bool}

lemma digitVal_ofNat (hd : d < 10) : digitVal (UInt8.ofNat (48 + d)) = some d := by
  interval_cases d <;> decide

lemma digitsVal_map {l : List ℕ} (hl : ∀ d ∈ l, d < 10) :
    digitsVal 10 (l.reverse.map fun d => UInt8.ofNat (48 + d)) = Nat.ofDigits 10 l := by
  rw [digitsVal, List.map_reverse, List.foldl_reverse, List.foldr_map]
  induction l with
  | nil => rfl
  | cons d l ih =>
    rw [List.forall_mem_cons] at hl
    rw [List.foldr_cons, ih hl.2, digitVal_ofNat hl.1, Nat.ofDigits_cons]
    simp [mul_comm, add_comm]

/-- **The decimal text** is a literal. -/
lemma literal_decimal (n : ℕ) : Literal (decimal n) n := by
  rw [decimal]
  by_cases hn : n = 0
  · rw [if_pos hn, hn]
    exact @Literal.octal [] (by simp)
  have hlt : ∀ d ∈ Nat.digits 10 n, d < 10 := fun d hd => Nat.digits_lt_base (by decide) hd
  have hne : Nat.digits 10 n ≠ [] := Nat.digits_ne_nil_iff_ne_zero.2 hn
  have hval := digitsVal_map hlt
  rw [Nat.ofDigits_digits] at hval
  rw [if_neg hn]
  have hlit := @Literal.decimal ((Nat.digits 10 n).reverse.map fun d => UInt8.ofNat (48 + d))
    (by simpa using hne) ?_ ?_
  · rwa [hval] at hlit
  · rw [List.head?_map, List.head?_reverse, List.getLast?_eq_some_getLast hne, Option.map_some]
    intro h
    have hd := hlt _ (List.getLast_mem hne)
    have hv := digitVal_ofNat hd
    rw [Option.some.inj h] at hv
    have h0 : (Nat.digits 10 n).getLast hne = 0 := (Option.some.inj hv).symm
    exact Nat.getLast_digit_ne_zero 10 hn h0
  · intro c hc
    obtain ⟨d, hd, rfl⟩ := List.mem_map.1 hc
    have hd := hlt d (List.mem_reverse.1 hd)
    rw [isDigit, digitVal_ofNat hd]
    simpa using hd

/-- The characters of a printed number. -/
lemma mem_printInt {z : ℤ} {c : UInt8} (hc : c ∈ printInt z) :
    c = 45 ∨ ∃ d < 10, c = UInt8.ofNat (48 + d) := by
  have hdecimal : ∀ n, c ∈ decimal n → ∃ d < 10, c = UInt8.ofNat (48 + d) := by
    intro n hc
    rw [decimal] at hc
    split_ifs at hc
    · exact ⟨0, by decide, List.mem_singleton.1 hc⟩
    · obtain ⟨d, hd, rfl⟩ := List.mem_map.1 hc
      exact ⟨d, Nat.digits_lt_base (by decide) (List.mem_reverse.1 hd), rfl⟩
  rw [printInt] at hc
  split_ifs at hc
  · exact (List.mem_cons.1 hc).imp_right (hdecimal _)
  · exact .inr (hdecimal _ hc)

/-- **A printed number** is a number text. -/
lemma numberText_printInt (z : ℤ) : NumberText blank (printInt z) z := by
  have hlit := literal_decimal z.natAbs
  by_cases hz : z < 0
  · refine ⟨[], [45], decimal z.natAbs, [], true, z.natAbs, ?_, by simp, by simp, .minus, hlit, ?_⟩
    · rw [printInt, if_pos hz]
      simp
    · rw [signed, if_pos rfl]
      omega
  · refine ⟨[], [], decimal z.natAbs, [], false, z.natAbs, ?_, by simp, by simp, .none, hlit, ?_⟩
    · rw [printInt, if_neg hz]
      simp
    · rw [signed, if_neg (by decide)]
      omega

/-- The digits of a printed number. -/
lemma decimal_digits (n : ℕ) : decimal n ≠ [] ∧ (∀ c ∈ decimal n, isDigit 10 c = true) ∧
    digitsVal 10 (decimal n) = n := by
  by_cases hn : n = 0
  · rw [hn, decimal, if_pos rfl]
    refine ⟨List.cons_ne_nil _ _, fun c hc => ?_, rfl⟩
    rw [List.mem_singleton.1 hc]
    decide
  · have hlt : ∀ d ∈ Nat.digits 10 n, d < 10 := fun d hd => Nat.digits_lt_base (by decide) hd
    rw [decimal, if_neg hn]
    refine ⟨by simpa using Nat.digits_ne_nil_iff_ne_zero.2 hn, fun c hc => ?_, ?_⟩
    · obtain ⟨d, hd, rfl⟩ := List.mem_map.1 hc
      have hd := hlt d (List.mem_reverse.1 hd)
      rw [isDigit, digitVal_ofNat hd]
      simpa using hd
    · rw [digitsVal_map hlt, Nat.ofDigits_digits]

/-- A printed number is scanned, up to what stands behind it. -/
lemma scanDecimal_printInt (hblank : ∀ c, blank c = true → digitVal c = none ∧ c ≠ 45) (z : ℤ)
    {rest : List UInt8} (hrest : ∀ c, rest.head? = some c → digitVal c = none) :
    scanDecimal blank (printInt z ++ rest) = some ((decide (z < 0), z.natAbs), rest) := by
  obtain ⟨hne, hdigits, hval⟩ := decimal_digits z.natAbs
  obtain ⟨htake, hdrop⟩ := takeWhile_digits hdigits hrest
  obtain ⟨c, ds, hcons⟩ := List.exists_cons_of_ne_nil hne
  have hc : isDigit 10 c = true := hdigits c (hcons ▸ (.head _))
  have hfront : blank c = false ∧ c ≠ 45 ∧ c ≠ 43 := by
    refine ⟨?_, ?_, ?_⟩
    · by_contra hb
      exact isDigit_digitVal hc (hblank c (by simpa using hb)).1
    · rintro rfl
      exact absurd hc (by decide)
    · rintro rfl
      exact absurd hc (by decide)
  have hminus : blank 45 = false := by
    by_contra hb
    exact (hblank 45 (by simpa using hb)).2 rfl
  rw [scanDecimal, printInt]
  by_cases hz : z < 0
  · have hsign : (if (45 :: (decimal z.natAbs ++ rest)).head? = some 45 ∨
          (45 :: (decimal z.natAbs ++ rest)).head? = some 43 then
        (45 :: (decimal z.natAbs ++ rest)).tail else 45 :: (decimal z.natAbs ++ rest))
          = decimal z.natAbs ++ rest := if_pos (.inl rfl)
    rw [if_pos hz, List.cons_append, List.dropWhile_cons_of_neg (by simp [hminus]), hsign, htake,
      hdrop, if_neg hne, hval, decide_eq_true hz]
    rfl
  · have hhead : (decimal z.natAbs ++ rest).head? = some c := by rw [hcons]; rfl
    have hkeep : (decimal z.natAbs ++ rest).dropWhile blank = decimal z.natAbs ++ rest := by
      rw [hcons, List.cons_append, List.dropWhile_cons_of_neg (by simp [hfront.1])]
    have hsign : (if (decimal z.natAbs ++ rest).head? = some 45 ∨
          (decimal z.natAbs ++ rest).head? = some 43 then
        (decimal z.natAbs ++ rest).tail else decimal z.natAbs ++ rest)
          = decimal z.natAbs ++ rest := by
      rw [hhead]
      exact if_neg (by simp [hfront.2.1, hfront.2.2])
    rw [if_neg hz, hkeep, hsign, htake, hdrop, if_neg hne, hval, hhead, decide_eq_false hz]
    simp [hfront.2.1]

/-- A number with few digits. -/
lemma length_decimal {k : ℕ} (hk : 0 < k) (hn : n < 10 ^ k) : (decimal n).length ≤ k := by
  rw [decimal]
  by_cases h0 : n = 0
  · rw [if_pos h0]
    exact hk
  · rw [if_neg h0, List.length_map, List.length_reverse]
    exact (Nat.digits_length_le_iff (by decide) n).2 hn

lemma length_printInt {k : ℕ} {z : ℤ} (hk : 0 < k) (hz : z.natAbs < 10 ^ k) :
    (printInt z).length ≤ k + 1 := by
  have hlen := length_decimal hk hz
  rw [printInt]
  split_ifs
  · exact Nat.succ_le_succ hlen
  · exact hlen.trans (Nat.le_succ k)

end Print

end Numerals
