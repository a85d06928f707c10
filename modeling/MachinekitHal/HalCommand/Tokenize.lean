import MachinekitHal.Lib.Buffers
import MachinekitHal.Lib.Words

/-!
`halcmd.c`: the tokens of a line.

The scanner writes a terminator behind each token and keeps pointers into the line; quotes stay
in the token. What is outside the line cannot be read.

* `Tokenizer`, `step`, `tokenizeLoop`, `tokenize`: the scanner.
* `EmbeddedReturn`: a carriage return that does not end the line.
* `Tokenized`: the line is split into its words, if there are not too many.
* `At`: the scanner in front of the rest of the line; `Returns` says what it ends with.
* `tokenize_line`: every line is tokenized.
-/

namespace MachinekitHal

open Buffers Words

/-- `MAX_TOK`. -/
def maxTok : ℕ := 20

/-- `isspace` in the C locale. -/
def isspace (c : UInt8) : Bool := c == 32 || (9 ≤ c && c ≤ 13)

/-- A single or a double quote. -/
def isQuote (c : UInt8) : Bool := c == 39 || c == 34

/-- The text of a C string. -/
structure CText where
  bytes : List UInt8
  noNul : (0 : UInt8) ∉ bytes

/-- The states of the scanner. -/
inductive TokenState
  | betweenTokens | inToken | singleQuote | doubleQuote | endOfLine
  deriving DecidableEq

/-- The locals of `tokenize`, the line and the pointers in `tokens`. -/
structure Tokenizer where
  state : TokenState
  cp1 : ℕ
  m : ℕ
  cmdBuf : List UInt8
  tokens : List ℕ
  deriving DecidableEq

namespace Tokenizer

variable (t : Tokenizer)

/-- `cp1++`, in state `state`. -/
def next (state : TokenState) : Tokenizer := { t with state := state, cp1 := t.cp1 + 1 }

/-- `tokens[m] = cp1++`. -/
def start (state : TokenState) : Tokenizer :=
  { t with state := state, cp1 := t.cp1 + 1, tokens := t.tokens.take t.m ++ [t.cp1] }

/-- The end of the line in a token. -/
def endToken : Tokenizer := { t with state := .endOfLine, m := t.m + 1 }

/-- The switch on the state, for the character at `cp1`. -/
def switch (c : UInt8) : Tokenizer :=
  match t.state with
  | .betweenTokens =>
    if c = 0 then { t with state := .endOfLine }
    else if isspace c then t.next .betweenTokens
    else if c = 39 then t.start .singleQuote
    else if c = 34 then t.start .doubleQuote
    else t.start .inToken
  | .inToken =>
    if c = 0 then t.endToken
    else if c = 39 then t.next .singleQuote
    else if c = 34 then t.next .doubleQuote
    else if isspace c then
      { t with
        state := .betweenTokens, cp1 := t.cp1 + 1, m := t.m + 1
        cmdBuf := t.cmdBuf.set t.cp1 0 }
    else t.next .inToken
  | .singleQuote =>
    if c = 0 then t.endToken
    else if c = 39 then t.next .inToken
    else t.next .singleQuote
  | .doubleQuote =>
    if c = 0 then t.endToken
    else if c = 34 then t.next .inToken
    else t.next .doubleQuote
  | .endOfLine => { t with m := t.m + 1, tokens := t.tokens.take t.m ++ [t.cp1] }

/-- One turn of the loop: what it returns, or the next state. The warning about line endings is
left out. -/
def step : Option (Except ℤ Tokenizer) :=
  t.cmdBuf[t.cp1]?.bind fun c =>
    if c = 13 then
      t.cmdBuf[t.cp1 + 1]?.map fun nextc =>
        if nextc = 10 ∨ nextc = 0 then .ok (t.switch c) else .error (-1)
    else some (.ok (t.switch c))

/-- The loop, with at most `fuel` turns. -/
def tokenizeLoop : ℕ → Tokenizer → Option (ℤ × Tokenizer)
  | fuel, t =>
    if t.m < maxTok then
      match fuel with
      | 0 => none
      | fuel + 1 =>
        match t.step with
        | none => none
        | some (.error rc) => some (rc, t)
        | some (.ok t) => tokenizeLoop fuel t
    else some (if t.state ≠ .endOfLine then -1 else 0, t)

/-- The strings that the pointers point to. -/
def argv : Option (List (List UInt8)) := t.tokens.mapM (cStringAt 0 t.cmdBuf)

end Tokenizer

open Tokenizer

/-- `tokenize` on a line; there are no more turns than characters and tokens. -/
def tokenize (line : CText) : Option (ℤ × Tokenizer) :=
  tokenizeLoop (line.bytes.length + 1 + maxTok) ⟨.betweenTokens, 0, 0, line.bytes ++ [0], []⟩

/-- A carriage return in front of something else than the end of the line. -/
def EmbeddedReturn (l : List UInt8) : Prop :=
  ∃ pre c post, l = pre ++ 13 :: c :: post ∧ c ≠ 10

/-- The words of a line. -/
abbrev LineSplits : List UInt8 → List (List UInt8) → Bool → Prop := Splits isspace isQuote

/-- The line is split into its words, and the rest of `argv` is empty; a line with an embedded
carriage return or with more than `MAX_TOK` words is rejected. Nothing is said of exactly
`MAX_TOK` words with a blank behind them, beyond that the scanner ends inside the line. -/
structure Tokenized (line : CText) : Prop where
  returns : (tokenize line).isSome = true
  words : ∃ ws ended, LineSplits line.bytes ws ended
  accepted : ∀ ws ended, LineSplits line.bytes ws ended → ¬ EmbeddedReturn line.bytes →
    ws.length < maxTok ∨ ws.length = maxTok ∧ ended = true →
      ∃ t, tokenize line = some (0, t) ∧
        t.argv = some (ws ++ List.replicate (maxTok - ws.length) [])
  rejected : ∀ ws ended, LineSplits line.bytes ws ended →
    EmbeddedReturn line.bytes ∨ maxTok < ws.length → ∃ t, tokenize line = some (-1, t)

/-! ### Carriage returns -/

section EmbeddedReturn

variable {c : UInt8} {rest : List UInt8}

lemma EmbeddedReturn.append {l : List UInt8} (pre : List UInt8) (h : EmbeddedReturn l) :
    EmbeddedReturn (pre ++ l) := by
  obtain ⟨a, c, b, rfl, hc⟩ := h
  exact ⟨pre ++ a, c, b, by simp, hc⟩

/-- What is embedded is at the head or behind it. -/
lemma EmbeddedReturn.cons (h : EmbeddedReturn (c :: rest)) :
    (c = 13 ∧ ∃ d l, rest = d :: l ∧ d ≠ 10) ∨ EmbeddedReturn rest := by
  obtain ⟨pre, d, post, heq, hd⟩ := h
  cases pre with
  | nil =>
    obtain ⟨rfl, rfl⟩ := List.cons.inj heq
    exact .inl ⟨rfl, d, post, rfl, hd⟩
  | cons a pre => exact .inr ⟨pre, d, post, (List.cons.inj heq).2, hd⟩

/-- A carriage return in front is followed by the end of the line. -/
lemma EmbeddedReturn.head (hr : ¬ EmbeddedReturn (c :: rest)) :
    ∀ d l, c = 13 → rest = d :: l → d = 10 := by
  rintro d l rfl rfl
  by_contra hd
  exact hr ⟨[], d, l, rfl, hd⟩

end EmbeddedReturn

/-! ### Turns of the loop -/

namespace Tokenizer

/-- The scanner at the beginning of `rest`. -/
def At (state : TokenState) (done rest : List UInt8) (tokens : List ℕ) (m : ℕ) : Tokenizer :=
  ⟨state, done.length, m, done ++ (rest ++ [0]), tokens⟩

variable {state : TokenState} {done rest : List UInt8} {tokens : List ℕ} {m : ℕ} {c : UInt8}

lemma read_at (done l : List UInt8) (k : ℕ) : (done ++ l)[done.length + k]? = l[k]? := by
  rw [List.getElem?_append_right (Nat.le_add_right _ _), Nat.add_sub_cancel_left]

/-- A turn at a character: the one behind it is looked at if it is a carriage return. -/
lemma step_at : (At state done (c :: rest) tokens m).step =
    if c = 13 ∧ (rest ++ [0]).head? ≠ some 10 ∧ (rest ++ [0]).head? ≠ some 0 then
      some (.error (-1))
    else some (.ok ((At state done (c :: rest) tokens m).switch c)) := by
  have hc : (At state done (c :: rest) tokens m).cmdBuf[done.length]? = some c :=
    read_at done _ 0
  have hnext : (At state done (c :: rest) tokens m).cmdBuf[done.length + 1]? =
      (rest ++ [0])[0]? := read_at done _ 1
  obtain ⟨d, hd⟩ : ∃ d, (rest ++ [0])[0]? = some d := by cases rest <;> exact ⟨_, rfl⟩
  have hcp : (At state done (c :: rest) tokens m).cp1 = done.length := rfl
  rw [step, hcp, hc, hnext, Option.bind_some, List.head?_eq_getElem?, hd, Option.map_some]
  by_cases h13 : c = 13
  · by_cases hend : d = 10 ∨ d = 0
    · rw [if_pos h13, if_pos hend, if_neg]
      simpa [h13, or_iff_not_imp_left] using hend
    · rw [if_pos h13, if_neg hend, if_pos]
      simpa [h13, not_or] using hend
  · rw [if_neg h13, if_neg fun h => h13 h.1]

lemma next_at (state' : TokenState) : (At state done (c :: rest) tokens m).next state' =
    At state' (done ++ [c]) rest tokens m := by
  simp [next, At]

lemma start_at (state' : TokenState) : (At state done (c :: rest) tokens m).start state' =
    At state' (done ++ [c]) rest (tokens.take m ++ [done.length]) m := by
  simp [start, At]

/-- The blank behind a token becomes its terminator. -/
lemma blank_at (hc : c ≠ 0) (hb : isspace c = true) :
    (At .inToken done (c :: rest) tokens m).switch c =
      At .betweenTokens (done ++ [0]) rest tokens (m + 1) := by
  have hquote : c ≠ 39 ∧ c ≠ 34 := by
    constructor <;> rintro rfl <;> exact absurd hb (by decide)
  have hset : (done ++ (c :: rest ++ [0])).set done.length 0 = done ++ [0] ++ (rest ++ [0]) := by
    simp
  rw [switch, At]
  dsimp only
  rw [if_neg hc, if_neg hquote.1, if_neg hquote.2, if_pos hb, hset, At]
  simp

/-- A turn on a character of the line advances by one. -/
lemma switch_at (hc : c ≠ 0) (hs : state ≠ .endOfLine) :
    ∃ state' c' tokens' m', state' ≠ .endOfLine ∧
      (At state done (c :: rest) tokens m).switch c =
        At state' (done ++ [c']) rest tokens' m' := by
  have hnext : ∀ state' : TokenState, state' ≠ .endOfLine → ∃ state'' c' tokens' m',
      state'' ≠ .endOfLine ∧ (At state done (c :: rest) tokens m).next state' =
        At state'' (done ++ [c']) rest tokens' m' :=
    fun state' h => ⟨state', c, tokens, m, h, next_at state'⟩
  have hstart : ∀ state' : TokenState, state' ≠ .endOfLine → ∃ state'' c' tokens' m',
      state'' ≠ .endOfLine ∧ (At state done (c :: rest) tokens m).start state' =
        At state'' (done ++ [c']) rest tokens' m' :=
    fun state' h => ⟨state', c, _, m, h, start_at state'⟩
  cases state with
  | betweenTokens =>
    rw [switch]
    change ∃ _ _ _ _, _ ∧ (if c = 0 then _ else _) = _
    rw [if_neg hc]
    split_ifs <;> first | exact hnext _ (by decide) | exact hstart _ (by decide)
  | inToken =>
    by_cases hb : isspace c = true
    · exact ⟨_, _, _, _, by decide, blank_at hc hb⟩
    · rw [switch]
      change ∃ _ _ _ _, _ ∧ (if c = 0 then _ else _) = _
      rw [if_neg hc]
      split_ifs <;> exact hnext _ (by decide)
  | singleQuote =>
    rw [switch]
    change ∃ _ _ _ _, _ ∧ (if c = 0 then _ else _) = _
    rw [if_neg hc]
    split_ifs <;> exact hnext _ (by decide)
  | doubleQuote =>
    rw [switch]
    change ∃ _ _ _ _, _ ∧ (if c = 0 then _ else _) = _
    rw [if_neg hc]
    split_ifs <;> exact hnext _ (by decide)
  | endOfLine => exact absurd rfl hs

/-- A turn at the end of the line; it ends the token, if there is one. -/
lemma step_end (hs : state ≠ .endOfLine) : (At state done [] tokens m).step =
    some (.ok (At .endOfLine done [] tokens (if state = .betweenTokens then m else m + 1))) := by
  have hread : (At state done [] tokens m).cmdBuf[done.length]? = some 0 := read_at done [0] 0
  have hcp : (At state done [] tokens m).cp1 = done.length := rfl
  rw [step, hcp, hread, Option.bind_some, if_neg (by decide)]
  cases state with
  | endOfLine => exact absurd rfl hs
  | betweenTokens => rfl
  | inToken => rfl
  | singleQuote => rfl
  | doubleQuote => rfl

/-- A turn behind the end of the line: an empty string. -/
lemma step_fill : (At .endOfLine done [] tokens m).step =
    some (.ok (At .endOfLine done [] (tokens.take m ++ [done.length]) (m + 1))) := by
  have hread : (At .endOfLine done [] tokens m).cmdBuf[done.length]? = some 0 :=
    read_at done [0] 0
  have hcp : (At .endOfLine done [] tokens m).cp1 = done.length := rfl
  rw [step, hcp, hread, Option.bind_some, if_neg (by decide)]
  rfl

/-! ### What the loop ends with -/

/-- With enough turns the loop ends, and `P` holds of what it returns. -/
def Returns (t : Tokenizer) (turns : ℕ) (P : ℤ × Tokenizer → Prop) : Prop :=
  ∀ fuel, turns ≤ fuel → ∃ r, tokenizeLoop fuel t = some r ∧ P r

variable {t t' : Tokenizer} {turns : ℕ} {P Q : ℤ × Tokenizer → Prop}

lemma Returns.mono (h : Returns t turns P) (hPQ : ∀ r, P r → Q r) : Returns t turns Q := by
  intro fuel hf
  obtain ⟨r, hr, hP⟩ := h fuel hf
  exact ⟨r, hr, hPQ r hP⟩

lemma Returns.later {turns' : ℕ} (h : Returns t turns P) (hle : turns ≤ turns') :
    Returns t turns' P :=
  fun fuel hf => h fuel (hle.trans hf)

lemma Returns.turn (hm : t.m < maxTok) (hs : t.step = some (.ok t')) (h : Returns t' turns P) :
    Returns t (turns + 1) P := by
  intro fuel hf
  obtain ⟨fuel, rfl⟩ : ∃ f, fuel = f + 1 := ⟨fuel - 1, by omega⟩
  rw [tokenizeLoop, if_pos hm, hs]
  exact h fuel (by omega)

lemma Returns.error {rc : ℤ} (hm : t.m < maxTok) (hs : t.step = some (.error rc))
    (hP : P (rc, t)) : Returns t (turns + 1) P := by
  intro fuel hf
  obtain ⟨fuel, rfl⟩ : ∃ f, fuel = f + 1 := ⟨fuel - 1, by omega⟩
  rw [tokenizeLoop, if_pos hm, hs]
  exact ⟨_, rfl, hP⟩

/-- No place for another token. -/
lemma Returns.full (hm : ¬ t.m < maxTok) (hP : P (if t.state ≠ .endOfLine then -1 else 0, t)) :
    Returns t turns P := by
  intro fuel _
  rw [tokenizeLoop.eq_def]
  dsimp only
  rw [if_neg hm]
  exact ⟨_, rfl, hP⟩

/-- Behind the end of the line the rest of `argv` is filled. -/
lemma returns_fill (hm : m ≤ maxTok) :
    Returns (At .endOfLine done [] tokens m) (maxTok - m) fun r => r.1 = 0 ∧
      r.2.cmdBuf = done ++ [0] ∧ (tokens.length = m →
        r.2.tokens = tokens ++ List.replicate (maxTok - m) done.length) := by
  induction hk : maxTok - m generalizing m tokens with
  | zero => exact .full (by simp only [At]; omega) ⟨by simp [At], rfl, by simp [At]⟩
  | succ k ih =>
    refine .turn (by simp only [At]; omega) step_fill ?_
    refine (ih (by omega) (by omega)).mono fun r hr => ⟨hr.1, hr.2.1, fun hlen => ?_⟩
    rw [hr.2.2 (by simp [hlen]), ← hlen, List.take_length, List.replicate_succ,
      List.append_assoc]
    rfl

/-! ### Every line -/

/-- The turns the scanner needs at most for the rest of the line. -/
def turnsFor (rest : List UInt8) : ℕ := rest.length + 1 + maxTok

/-- **A character that the scanner accepts** takes one turn. -/
lemma Returns.char (hm : m < maxTok) (hr : ∀ d l, c = 13 → rest = d :: l → d = 10)
    (h : Returns ((At state done (c :: rest) tokens m).switch c) (turnsFor rest) P) :
    Returns (At state done (c :: rest) tokens m) (turnsFor (c :: rest)) P := by
  refine (Returns.turn (by exact hm) ?_ h).later (by simp only [turnsFor, List.length_cons]; omega)
  rw [step_at, if_neg]
  rintro ⟨rfl, h10, hend⟩
  cases hrest : rest with
  | nil => exact hend (by rw [hrest]; rfl)
  | cons d l => exact h10 (by rw [hrest, hr d l rfl hrest]; rfl)

/-- **The scanner ends inside the line**, and fails if there is an embedded carriage return. -/
lemma returns_at (h0 : (0 : UInt8) ∉ rest) (hs : state ≠ .endOfLine) :
    Returns (At state done rest tokens m) (turnsFor rest) fun r =>
      EmbeddedReturn rest → r.1 = -1 := by
  induction rest generalizing state done tokens m with
  | nil =>
    have hno : ¬ EmbeddedReturn [] := by
      rintro ⟨pre, c, post, heq, -⟩
      simp at heq
    by_cases hm : m < maxTok
    · have hfill : Returns (At .endOfLine done [] tokens
          (if state = .betweenTokens then m else m + 1)) maxTok fun r =>
            EmbeddedReturn [] → r.1 = -1 := by
        refine ((returns_fill ?_).mono fun r _ h => absurd h hno).later (Nat.sub_le _ _)
        split_ifs <;> omega
      exact (Returns.turn (by exact hm) (step_end hs) hfill).later (by
        simp only [turnsFor, List.length_nil]
        omega)
    · exact .full hm fun h => absurd h hno
  | cons c rest ih =>
    simp only [List.mem_cons, not_or] at h0
    by_cases hm : m < maxTok
    swap
    · exact .full hm fun _ => if_pos hs
    by_cases hemb : c = 13 ∧ ∃ d l, rest = d :: l ∧ d ≠ 10
    · obtain ⟨rfl, d, l, rfl, hd⟩ := hemb
      have hd0 : d ≠ 0 := fun h => h0.2 (by simp [h])
      have hstep : (At state done (13 :: d :: l) tokens m).step = some (.error (-1)) := by
        rw [step_at, if_pos]
        simpa using ⟨hd, hd0⟩
      have herr : Returns (At state done (13 :: d :: l) tokens m) (0 + 1) fun r =>
          EmbeddedReturn (13 :: d :: l) → r.1 = -1 := .error hm hstep fun _ => rfl
      exact herr.later (by simp only [turnsFor]; omega)
    · obtain ⟨state', c', tokens', m', hs', hsw⟩ :=
        @switch_at state done rest tokens m c (Ne.symm h0.1) hs
      refine .char hm (fun d l hc hl => ?_) (hsw ▸ (ih h0.2 hs').mono fun r hr h => hr ?_)
      · by_contra hd
        exact hemb ⟨hc, d, l, hl, hd⟩
      · exact (EmbeddedReturn.cons h).resolve_left hemb

/-! ### Words -/

/-- The state of the scanner inside a quote. -/
def quoteState (q : UInt8) : TokenState := if q = 39 then .singleQuote else .doubleQuote

/-- Inside a quote up to its end. -/
lemma returns_body {q : UInt8} {body : List UInt8} (hq : isQuote q = true) (hbody : q ∉ body)
    (hm : m < maxTok) (h0 : (0 : UInt8) ∉ body) (hr : ¬ EmbeddedReturn (body ++ rest))
    (h : Returns (At (quoteState q) (done ++ body) rest tokens m) (turnsFor rest) P) :
    Returns (At (quoteState q) done (body ++ rest) tokens m) (turnsFor (body ++ rest)) P := by
  induction body generalizing done with
  | nil => simpa using h
  | cons c body ih =>
    simp only [List.mem_cons, not_or] at h0 hbody
    have hstay : (At (quoteState q) done (c :: (body ++ rest)) tokens m).switch c =
        At (quoteState q) (done ++ [c]) (body ++ rest) tokens m := by
      rw [quoteState]
      by_cases h39 : q = 39
      · subst h39
        rw [if_pos rfl, switch]
        change (if c = 0 then _ else _) = _
        rw [if_neg (Ne.symm h0.1), if_neg (Ne.symm hbody.1), next_at]
      · have h34 : q = 34 := by simpa [isQuote, h39] using hq
        subst h34
        rw [if_neg h39, switch]
        change (if c = 0 then _ else _) = _
        rw [if_neg (Ne.symm h0.1), if_neg (Ne.symm hbody.1), next_at]
    rw [List.cons_append] at hr ⊢
    refine .char hm (EmbeddedReturn.head hr) ?_
    rw [hstay]
    refine ih hbody.2 h0.2 (fun he => hr (he.append [c])) ?_
    rwa [List.append_assoc, List.singleton_append]

/-- A quote in a token, and behind it. -/
lemma switch_quote {q : UInt8} (hq : isQuote q = true) :
    (At .inToken done (q :: rest) tokens m).switch q =
        At (quoteState q) (done ++ [q]) rest tokens m ∧
      (At (quoteState q) done (q :: rest) tokens m).switch q =
        At .inToken (done ++ [q]) rest tokens m := by
  have hq' : q = 39 ∨ q = 34 := by simpa [isQuote] using hq
  rcases hq' with rfl | rfl <;> exact ⟨next_at _, next_at _⟩

lemma returns_word {w : List UInt8} (hw : Word isspace isQuote w)
    (hm : m < maxTok) (h0 : (0 : UInt8) ∉ w) (hr : ¬ EmbeddedReturn (w ++ rest))
    (h : Returns (At .inToken (done ++ w) rest tokens m) (turnsFor rest) P) :
    Returns (At .inToken done (w ++ rest) tokens m) (turnsFor (w ++ rest)) P := by
  induction hw generalizing done with
  | nil => simpa using h
  | @plain c w hb hq _ ih =>
    simp only [List.mem_cons, not_or] at h0
    have hquote : c ≠ 39 ∧ c ≠ 34 := by simpa [isQuote] using hq
    have hstay : (At .inToken done (c :: (w ++ rest)) tokens m).switch c =
        At .inToken (done ++ [c]) (w ++ rest) tokens m := by
      rw [switch]
      change (if c = 0 then _ else _) = _
      rw [if_neg (Ne.symm h0.1), if_neg hquote.1, if_neg hquote.2, if_neg (by simp [hb]), next_at]
    rw [List.cons_append] at hr ⊢
    refine .char hm (EmbeddedReturn.head hr) ?_
    rw [hstay]
    refine ih h0.2 (fun he => hr (he.append [c])) ?_
    rwa [List.append_assoc, List.singleton_append]
  | @quoted q body w hq hbody _ ih =>
    simp only [List.mem_cons, List.mem_append, not_or] at h0
    have hcons : q :: (body ++ q :: w) ++ rest = q :: (body ++ (q :: (w ++ rest))) := by simp
    rw [hcons] at hr ⊢
    have hr' : ¬ EmbeddedReturn (body ++ q :: (w ++ rest)) := fun he => hr (he.append [q])
    have hr'' : ¬ EmbeddedReturn (q :: (w ++ rest)) := fun he => hr' (he.append body)
    refine .char hm (EmbeddedReturn.head hr) ?_
    rw [(switch_quote hq).1]
    refine returns_body hq hbody hm h0.2.1 hr' (.char hm (EmbeddedReturn.head hr'') ?_)
    rw [(switch_quote hq).2]
    refine ih h0.2.2.2 (fun he => hr'' (he.append [q])) ?_
    have hdone : done ++ [q] ++ body ++ [q] ++ w = done ++ q :: (body ++ q :: w) := by simp
    rwa [hdone]

/-- The first character of a token: the token starts, and the rest is as inside of it. -/
lemma returns_start (hb : isspace c = false) (hc : c ≠ 0) (hm : m < maxTok)
    (hlen : tokens.length = m)
    (h : Returns (At .inToken done (c :: rest) (tokens ++ [done.length]) m) turns P) :
    Returns (At .betweenTokens done (c :: rest) tokens m) turns P := by
  have hswitch : (At .betweenTokens done (c :: rest) tokens m).switch c =
      (At .inToken done (c :: rest) (tokens ++ [done.length]) m).switch c := by
    have hstart : ∀ state', (At .betweenTokens done (c :: rest) tokens m).start state' =
        (At .inToken done (c :: rest) (tokens ++ [done.length]) m).next state' := by
      intro state'
      rw [start_at, next_at, ← hlen, List.take_length]
    rw [switch, switch]
    change (if c = 0 then _ else if isspace c then _ else _) =
      if c = 0 then _ else if c = 39 then _ else if c = 34 then _ else if isspace c then _ else _
    rw [if_neg hc, if_neg hc, hb]
    simp only [Bool.false_eq_true, if_false]
    rw [hstart, hstart, hstart]
  intro fuel hf
  obtain ⟨r, hr, hP⟩ := h fuel hf
  refine ⟨r, ?_, hP⟩
  cases fuel with
  | zero =>
    rw [tokenizeLoop, if_pos (by exact hm)] at hr
    exact absurd hr (by simp)
  | succ fuel =>
    have hret : ∀ p : Prop, ¬ (c = 13 ∧ p) := by
      rintro p ⟨rfl, -⟩
      exact absurd hb (by decide)
    rw [tokenizeLoop, if_pos (by exact hm), step_at, if_neg (hret _)] at hr ⊢
    rwa [hswitch]

/-- The blanks in front of a token. -/
lemma returns_gap {gap : List UInt8} (hgap : ∀ c ∈ gap, isspace c = true)
    (hm : m < maxTok) (hr : ¬ EmbeddedReturn (gap ++ rest))
    (h : Returns (At .betweenTokens (done ++ gap) rest tokens m) (turnsFor rest) P) :
    Returns (At .betweenTokens done (gap ++ rest) tokens m) (turnsFor (gap ++ rest)) P := by
  induction gap generalizing done with
  | nil => simpa using h
  | cons c gap ih =>
    have hb := hgap c (.head _)
    have hc : c ≠ 0 := by
      rintro rfl
      exact absurd hb (by decide)
    have hstay : (At .betweenTokens done (c :: (gap ++ rest)) tokens m).switch c =
        At .betweenTokens (done ++ [c]) (gap ++ rest) tokens m := by
      rw [switch]
      change (if c = 0 then _ else _) = _
      rw [if_neg hc, if_pos hb, next_at]
    rw [List.cons_append] at hr ⊢
    refine .char hm (EmbeddedReturn.head hr) ?_
    rw [hstay]
    refine ih (fun d hd => hgap d (.tail _ hd)) (fun he => hr (he.append [c])) ?_
    rwa [List.append_assoc, List.singleton_append]

/-! ### Lines -/

/-- The words `ws` were added behind `done`, and `k` empty strings. -/
def Added (done : List UInt8) (tokens : List ℕ) (ws : List (List UInt8)) (k : ℕ)
    (r : ℤ × Tokenizer) : Prop :=
  r.1 = 0 ∧ ∃ tail offs, r.2.cmdBuf = done ++ tail ∧ r.2.tokens = tokens ++ offs ∧
    offs.mapM (cStringAt 0 r.2.cmdBuf) = some (ws ++ List.replicate k [])

/-- A word is its string, once there is a terminator behind it. -/
lemma cStringAt_word {w tail : List UInt8} (h0 : (0 : UInt8) ∉ w) :
    cStringAt 0 (done ++ (w ++ 0 :: tail)) done.length = some w := by
  rw [cStringAt_append, takeWhile_of_notMem h0]

/-- The end of the line: the rest of `argv` points to its terminator. -/
lemma returns_end (hlen : tokens.length = m) (hm : m ≤ maxTok) :
    Returns (At .endOfLine done [] tokens m) maxTok
      (Added (done ++ [0]) tokens [] (maxTok - m)) := by
  refine ((returns_fill hm).mono fun r hr =>
    ⟨hr.1, [], _, by rw [hr.2.1, List.append_nil], hr.2.2 hlen, ?_⟩).later (Nat.sub_le _ _)
  have hnul : cStringAt 0 r.2.cmdBuf done.length = some [] := by
    rw [hr.2.1]
    have hnil := @cStringAt_word done [] [] (by simp)
    rwa [List.nil_append] at hnil
  rw [List.nil_append]
  induction maxTok - m with
  | zero => rfl
  | succ k ih => rw [List.replicate_succ, List.mapM_cons, hnul, ih, List.replicate_succ]; rfl

/-- A word in front of what was added. -/
lemma Added.cons {w : List UInt8} {ws : List (List UInt8)} {k : ℕ} {r : ℤ × Tokenizer}
    (h0 : (0 : UInt8) ∉ w)
    (h : Added (done ++ (w ++ [0])) (tokens ++ [done.length]) ws k r) :
    Added done tokens (w :: ws) k r := by
  obtain ⟨hrc, tail, offs, hbuf, htok, hstr⟩ := h
  refine ⟨hrc, w ++ 0 :: tail, done.length :: offs, by simpa using hbuf, by simpa using htok, ?_⟩
  have hw : cStringAt 0 r.2.cmdBuf done.length = some w := by
    rw [hbuf, List.append_assoc, List.append_assoc]
    exact cStringAt_word h0
  rw [List.mapM_cons, hw, hstr]
  rfl

/-- Blanks in front of what was added. -/
lemma Added.gap {gap : List UInt8} {ws : List (List UInt8)} {k : ℕ} {r : ℤ × Tokenizer}
    (h : Added (done ++ gap) tokens ws k r) : Added done tokens ws k r := by
  obtain ⟨hrc, tail, offs, hbuf, htok, hstr⟩ := h
  exact ⟨hrc, gap ++ tail, offs, by rw [hbuf, List.append_assoc], htok, hstr⟩

/-- The end of the line behind a word. -/
lemma returns_lastEnd {w : List UInt8} (hs : state ≠ .endOfLine) (hb : state ≠ .betweenTokens)
    (hm : m < maxTok) (h0 : (0 : UInt8) ∉ w) (hlen : tokens.length = m) :
    Returns (At state (done ++ w) [] (tokens ++ [done.length]) m) (turnsFor [])
      (Added done tokens [w] (maxTok - (m + 1))) := by
  have hend : Returns (At .endOfLine (done ++ w) [] (tokens ++ [done.length])
      (if state = .betweenTokens then m else m + 1)) maxTok
      (Added done tokens [w] (maxTok - (m + 1))) := by
    rw [if_neg hb]
    refine (returns_end (by simp [hlen]) hm).mono fun r hr => ?_
    rw [List.append_assoc] at hr
    exact hr.cons h0
  exact (Returns.turn (by exact hm) (step_end hs) hend).later (by
    simp only [turnsFor, List.length_nil]
    omega)

/-- The last word of a line, which may end in an open quote. -/
lemma returns_last {w : List UInt8} (hw : Word isspace isQuote w ∨ OpenWord isspace isQuote w)
    (hm : m < maxTok) (h0 : (0 : UInt8) ∉ w) (hr : ¬ EmbeddedReturn w)
    (hlen : tokens.length = m) :
    Returns (At .inToken done w (tokens ++ [done.length]) m) (turnsFor w)
      (Added done tokens [w] (maxTok - (m + 1))) := by
  rcases hw with hw | ⟨v, q, body, rfl, hv, hq, hbody⟩
  · have hword := @returns_word done [] (tokens ++ [done.length]) m _ w hw hm h0
      (by rwa [List.append_nil]) (returns_lastEnd (by decide) (by decide) hm h0 hlen)
    rwa [List.append_nil] at hword
  · have hr' : ¬ EmbeddedReturn (q :: body) := fun he => hr (he.append v)
    have hparts : (0 : UInt8) ∉ v ∧ (0 : UInt8) ∉ body := by
      simp only [List.mem_append, List.mem_cons, not_or] at h0
      exact ⟨h0.1, h0.2.2⟩
    have hquote : quoteState q ≠ .endOfLine ∧ quoteState q ≠ .betweenTokens := by
      rw [quoteState]
      split_ifs <;> decide
    refine returns_word hv hm hparts.1 hr (.char hm (EmbeddedReturn.head hr') ?_)
    rw [(switch_quote hq).1]
    have hend : Returns (At (quoteState q) (done ++ (v ++ q :: body)) []
        (tokens ++ [done.length]) m) (turnsFor [])
          (Added done tokens [v ++ q :: body] (maxTok - (m + 1))) :=
      returns_lastEnd hquote.1 hquote.2 hm h0 hlen
    have hdone : done ++ (v ++ q :: body) = done ++ v ++ [q] ++ body := by simp
    rw [hdone] at hend
    have hopen := @returns_body (done ++ v ++ [q]) [] (tokens ++ [done.length]) m _ q body hq hbody
      hm hparts.2 (by rw [List.append_nil]; exact fun he => hr' (he.append [q])) hend
    rwa [List.append_nil] at hopen

/-- The first character of a word is no blank. -/
lemma first_of_word {w : List UInt8} (hne : w ≠ [])
    (hw : Word isspace isQuote w ∨ OpenWord isspace isQuote w) :
    ∃ c v, w = c :: v ∧ isspace c = false := by
  have hquote : ∀ q : UInt8, isQuote q = true → isspace q = false := by
    intro q hq
    have hq' : q = 39 ∨ q = 34 := by simpa [isQuote] using hq
    rcases hq' with rfl | rfl <;> decide
  rcases hw with hw | ⟨v, q, body, rfl, hv, hq, -⟩
  · cases hw with
    | nil => exact absurd rfl hne
    | plain hb _ _ => exact ⟨_, _, rfl, hb⟩
    | quoted hq _ _ => exact ⟨_, _, rfl, hquote _ hq⟩
  · cases hv with
    | nil => exact ⟨_, _, rfl, hquote q hq⟩
    | plain hb _ _ => exact ⟨_, _, rfl, hb⟩
    | quoted hq' _ _ => exact ⟨_, _, rfl, hquote _ hq'⟩

/-- **A line from a place between words on.** -/
lemma returns_line {ws : List (List UInt8)} {ended : Bool} (hsplit : LineSplits rest ws ended)
    (hlen : tokens.length = m) (hm : m ≤ maxTok) (h0 : (0 : UInt8) ∉ rest)
    (hr : ¬ EmbeddedReturn rest) :
    Returns (At .betweenTokens done rest tokens m) (turnsFor rest) fun r =>
      (m + ws.length < maxTok ∨ m + ws.length = maxTok ∧ ended = true →
          Added done tokens ws (maxTok - (m + ws.length)) r) ∧
        (maxTok < m + ws.length → r.1 = -1) := by
  have hfull : ∀ {done rest tokens m} {Q : ℤ × Tokenizer → Prop}, ¬ m < maxTok →
      (∀ r : ℤ × Tokenizer, r.1 = -1 → Q r) →
      Returns (At .betweenTokens done rest tokens m) (turnsFor rest) Q :=
    fun hm hQ => .full hm (hQ _ rfl)
  induction hsplit generalizing done tokens m with
  | @blanks gap hgap =>
    by_cases hm' : m < maxTok
    swap
    · refine hfull hm' fun r hrc => ⟨?_, fun _ => hrc⟩
      rintro (h | ⟨-, h⟩)
      · exact absurd h hm'
      · exact absurd h (by decide)
    have hend : Returns (At .betweenTokens (done ++ gap) [] tokens m) (turnsFor [])
        (Added done tokens [] (maxTok - m)) := by
      have hnul : Returns (At .endOfLine (done ++ gap) [] tokens m) maxTok
          (Added done tokens [] (maxTok - m)) :=
        (returns_end hlen hm).mono fun r h => h.gap.gap
      exact (Returns.turn (by exact hm') (step_end (by decide)) hnul).later (by
        simp only [turnsFor, List.length_nil]
        omega)
    have hgap' := @returns_gap done [] tokens m _ gap hgap hm' (by rwa [List.append_nil]) hend
    rw [List.append_nil] at hgap'
    exact hgap'.mono fun r h => ⟨fun _ => h, fun hlt => absurd hlt (by simp; omega)⟩
  | @last gap w hgap hne hw =>
    by_cases hm' : m < maxTok
    swap
    · refine hfull hm' fun r hrc => ⟨fun h => ?_, fun _ => hrc⟩
      simp only [List.length_singleton] at h
      omega
    obtain ⟨c, v, hcv, hb⟩ := first_of_word hne hw
    have hw0 : (0 : UInt8) ∉ w := fun h => h0 (List.mem_append_right _ h)
    have hc0 : c ≠ 0 := by
      rintro rfl
      exact hw0 (by simp [hcv])
    have hlast := @returns_last (done ++ gap) tokens m w hw hm' hw0
      (fun he => hr (he.append gap)) hlen
    refine returns_gap hgap hm' hr ?_
    rw [hcv] at hlast ⊢
    refine (returns_start hb hc0 hm' hlen hlast).mono fun r h => ⟨fun _ => h.gap, fun hlt => ?_⟩
    simp only [List.length_singleton] at hlt
    omega
  | @cons gap w rest b ws ended hgap hne hw hb hrest ih =>
    by_cases hm' : m < maxTok
    swap
    · refine hfull hm' fun r hrc => ⟨fun h => ?_, fun _ => hrc⟩
      simp only [List.length_cons] at h
      omega
    have hparts : (0 : UInt8) ∉ w ∧ (0 : UInt8) ∉ rest := by
      simp only [List.mem_append, not_or] at h0
      exact ⟨h0.2.1, fun h => h0.2.2 (List.mem_cons_of_mem b h)⟩
    obtain ⟨c, v, rfl, hcb⟩ := first_of_word hne (.inl hw)
    have hc0 : c ≠ 0 := by
      rintro rfl
      exact hparts.1 (.head _)
    have hb0 : b ≠ 0 := by
      rintro rfl
      exact absurd hb (by decide)
    have hr₁ : ¬ EmbeddedReturn (c :: v ++ b :: rest) := fun he => hr (he.append gap)
    have hr₂ : ¬ EmbeddedReturn (b :: rest) := fun he => hr₁ (he.append (c :: v))
    have hih := @ih (done ++ gap ++ c :: v ++ [0]) (tokens ++ [(done ++ gap).length]) (m + 1)
      (by simp [hlen]) hm' hparts.2 fun he => hr₂ (he.append [b])
    have hblank : Returns (At .inToken (done ++ gap ++ c :: v) (b :: rest)
        (tokens ++ [(done ++ gap).length]) m) (turnsFor (b :: rest)) _ :=
      .char hm' (EmbeddedReturn.head hr₂) (by rw [blank_at hb0 hb]; exact hih)
    have hword := returns_word hw hm' hparts.1 hr₁ hblank
    refine returns_gap hgap hm' hr ?_
    refine (returns_start hcb hc0 hm' hlen hword).mono fun r h => ⟨fun hfit => ?_, fun hlt => ?_⟩
    · rw [List.length_cons] at hfit ⊢
      have hadded := h.1 (hfit.imp (fun h => by omega) fun h => ⟨by omega, h.2⟩)
      rw [List.append_assoc _ (c :: v) [0]] at hadded
      have hk : m + (ws.length + 1) = m + 1 + ws.length := by omega
      rw [hk]
      exact (hadded.cons hparts.1).gap
    · exact h.2 (by rw [List.length_cons] at hlt; omega)

end Tokenizer

/-! ### The result -/

/-- What the scanner returns is what the loop ends with. -/
lemma tokenize_returns (line : CText) {P : ℤ × Tokenizer → Prop}
    (h : Returns (At .betweenTokens [] line.bytes [] 0) (turnsFor line.bytes) P) :
    ∃ r, tokenize line = some r ∧ P r :=
  h _ le_rfl

/-- **Tokens.** Every line is split into its words or rejected. -/
theorem tokenize_line (line : CText) : Tokenized line := by
  obtain ⟨r, hr, hemb⟩ := tokenize_returns line (returns_at line.noNul (by decide))
  refine ⟨by rw [hr]; rfl, exists_splits line.bytes, fun ws ended hsplit hno hfit => ?_,
    fun ws ended hsplit hbad => ?_⟩
  · obtain ⟨r, hr, hfits, -⟩ := tokenize_returns line
      (returns_line hsplit rfl (Nat.zero_le _) line.noNul hno)
    rw [Nat.zero_add] at hfits
    obtain ⟨hrc, tail, offs, hbuf, htok, hstr⟩ := hfits hfit
    refine ⟨r.2, by rw [hr, ← hrc], ?_⟩
    rw [argv, htok, List.nil_append, hstr]
  · by_cases hret : EmbeddedReturn line.bytes
    · exact ⟨r.2, by rw [hr, ← hemb hret]⟩
    · obtain ⟨r, hr, -, hmany⟩ := tokenize_returns line
        (returns_line hsplit rfl (Nat.zero_le _) line.noNul hret)
      rw [Nat.zero_add] at hmany
      exact ⟨r.2, by rw [hr, ← hmany (hbad.resolve_left hret)]⟩

/-- A word without the quotes that group it; the quote that is open is given. -/
def unquoted : Option UInt8 → List UInt8 → List UInt8
  | _, [] => []
  | none, c :: w => if isQuote c then unquoted (some c) w else c :: unquoted none w
  | some q, c :: w => if c = q then unquoted none w else c :: unquoted (some q) w

/-- The quotes that group a word are not removed from it. -/
theorem tokenize_keeps_quotes : ¬ ∀ (line : CText) (ws : List (List UInt8)) (ended : Bool),
    LineSplits line.bytes ws ended → ws.length ≤ maxTok → ∃ t, tokenize line = some (0, t) ∧
      t.argv = some (ws.map (unquoted none) ++ List.replicate (maxTok - ws.length) []) := by
  intro hall
  have hword : Word isspace isQuote [39, 97, 32, 98, 39] :=
    @Word.quoted _ isspace isQuote 39 [97, 32, 98] [] (by decide) (by decide) .nil
  obtain ⟨t, ht, hargv⟩ := hall ⟨[39, 97, 32, 98, 39], by decide⟩ [[39, 97, 32, 98, 39]] true
    (@Splits.last _ _ _ [] _ (by simp) (by simp) (.inl hword)) (by decide)
  have hquoted : (tokenize ⟨[39, 97, 32, 98, 39], by decide⟩).bind (fun r => r.2.argv) =
      some ([39, 97, 32, 98, 39] :: List.replicate 19 []) := by decide
  rw [ht, Option.bind_some, hargv] at hquoted
  exact absurd hquoted (by decide)

end MachinekitHal
