import MachinekitHal.HalCommand.Tokenize

/-!
`halcmd.c`: the replacement of variables in a line.

* `strlimcpy`, `varName`, `replaceEnv`, `replaceIni`, `replaceVars`: the code, with an index into
  the source and one into the destination. There is no result when an access is outside.
* `VarError`: what can be wrong with a reference, with its return value.
* `reference`, `expand`: what a reference stands for, and the text with all references replaced,
  or the first error.
* `Replaced`: the code returns the text or the error.
* `replace_vars_expand`: it does unless the first error is an ini reference whose parenthesis is
  not closed.
-/

namespace MachinekitHal

open Buffers

/-- The characters of `words`. -/
def isWordChar (c : UInt8) : Bool :=
  (48 ≤ c && c ≤ 57) || (97 ≤ c && c ≤ 122) || (65 ≤ c && c ≤ 90) || c == 46 || c == 45 || c == 95

/-- Not one of `$` and `[`. -/
def isPlain (c : UInt8) : Bool := c != 36 && c != 91

/-- `getenv`, and `iniFind` for a tag and a section, or any section. -/
structure VarLookup where
  getenv : List UInt8 → Option CText
  iniFind : List UInt8 → Option (List UInt8) → Option CText

/-- The destination: `max_chars` bytes. -/
structure VarBuf where
  bytes : List UInt8
  nonempty : bytes ≠ []

/-- `sp`, `dp`, the destination and `buf_space`. -/
structure VarState where
  sp : ℕ
  dest : List UInt8
  dp : ℕ
  bufSpace : ℕ

/-- `strlimcpy` of the first bytes of a source. -/
def VarState.strlimcpy (s : VarState) (src : List UInt8) : Option (Except ℤ VarState) :=
  if s.bufSpace < src.length then some (.error (-6))
  else
    (writeAt s.dest s.dp (src ++ [0])).bind fun dest =>
    (cStringAt 0 dest s.dp).map fun copied =>
      .ok { s with
            dest := dest
            dp := s.dp + copied.length
            bufSpace := s.bufSpace - copied.length }

/-- The checks of the length of a name, which is the beginning of `text`; `sp` is where it
begins. -/
def nameChecks (text : List UInt8) (nextDelim sp : ℕ) : Except ℤ (List UInt8 × ℕ) :=
  if nextDelim = 0 then .error (-2)
  else if 127 < nextDelim then .error (-7)
  else .ok (text.take nextDelim, sp + nextDelim)

/-- The name of a variable at `sp`, and where `sp` is behind it. `noParen` is the test for a
parenthesis that is not closed, on `next_delim` and the length of the text. -/
def varName (src : List UInt8) (sp : ℕ) (noParen : ℕ → ℕ → Bool) :
    Option (Except ℤ (List UInt8 × ℕ)) :=
  (cStringAt 0 src sp).bind fun text =>
  if text.head? = some 40 then
    (cStringAt 0 src (sp + 1)).map fun text =>
      let nextDelim := (text.takeWhile (· ≠ 41)).length
      if noParen nextDelim text.length then .error (-1) else nameChecks text nextDelim (sp + 2)
  else some (nameChecks text (text.takeWhile isWordChar).length sp)

/-- The case `'$'`, with `sp` behind it. -/
def replaceEnv (look : VarLookup) (src : List UInt8) (s : VarState) :
    Option (Except ℤ VarState) :=
  (varName src s.sp fun nextDelim len => len ≤ nextDelim).bind fun
  | .error e => some (.error e)
  | .ok (var, sp) =>
    match look.getenv var with
    | none => some (.error (-4))
    | some v => (s.strlimcpy v.bytes).map (Except.map fun s => { s with sp := sp })

/-- The case `'['`, with `sp` behind it. -/
def replaceIni (look : VarLookup) (src : List UInt8) (s : VarState) :
    Option (Except ℤ VarState) :=
  (cStringAt 0 src s.sp).bind fun text =>
  let nextDelim := (text.takeWhile (· ≠ 93)).length
  if text.length ≤ nextDelim then some (.error (-3))
  else if 127 < nextDelim then some (.error (-7))
  else
    let sec := text.take nextDelim
    (varName src (s.sp + (nextDelim + 1)) fun nextDelim len => len < nextDelim).bind fun
    | .error e => some (.error e)
    | .ok (var, sp) =>
      match look.iniFind var (if sec = [] then none else some sec) with
      | none => some (.error (-5))
      | some v => (s.strlimcpy v.bytes).map (Except.map fun s => { s with sp := sp })

/-- The loop, with at most `fuel` turns. -/
def replaceVarsLoop (look : VarLookup) (src : List UInt8) : ℕ → VarState → Option (ℤ × VarState)
  | 0, _ => none
  | fuel + 1, s =>
    (cStringAt 0 src s.sp).bind fun text =>
    if text = [] then some (0, s) else
    let plain := text.takeWhile isPlain
    (s.strlimcpy plain).bind fun
    | .error e => some (e, s)
    | .ok s' =>
      if plain.length < text.length then
        src[s'.sp + plain.length]?.bind fun c =>
        let s' : VarState := { s' with sp := s'.sp + plain.length + 1 }
        (if c = 36 then replaceEnv look src s'
          else if c = 91 then replaceIni look src s' else some (.ok s')).bind fun
        | .error e => some (e, s')
        | .ok s' => replaceVarsLoop look src fuel s'
      else replaceVarsLoop look src fuel { s' with sp := s'.sp + plain.length }

/-- `replace_vars`; there are no more turns than characters. -/
def replaceVars (look : VarLookup) (source : CText) (dest : VarBuf) : Option (ℤ × VarState) :=
  (writeAt dest.bytes (dest.bytes.length - 1) [0]).bind fun bytes =>
  (writeAt bytes 0 [0]).bind fun bytes =>
  replaceVarsLoop look (source.bytes ++ [0]) (source.bytes.length + 1)
    ⟨0, bytes, 0, dest.bytes.length - 1⟩

/-! ### What it should do -/

/-- What can be wrong with a reference. -/
inductive VarError
  | envParen | iniParen | nullName | noBracket | envNotFound | iniNotFound | overflow | tooLong
  deriving DecidableEq

/-- The return values that `replace_vars` documents. -/
def VarError.code : VarError → ℤ
  | .envParen => -1
  | .iniParen => -1
  | .nullName => -2
  | .noBracket => -3
  | .envNotFound => -4
  | .iniNotFound => -5
  | .overflow => -6
  | .tooLong => -7

/-- A name that is not empty and not too long, with the text behind it. -/
def checkedName (name rest : List UInt8) : Except VarError (List UInt8 × List UInt8) :=
  if name = [] then .error .nullName
  else if 127 < name.length then .error .tooLong
  else .ok (name, rest)

/-- The name at the beginning of a text, with or without parentheses. -/
def nameAt (open_ : VarError) (text : List UInt8) : Except VarError (List UInt8 × List UInt8) :=
  if text.head? = some 40 then
    if 41 ∈ text.tail then
      checkedName (text.tail.takeWhile (· ≠ 41)) (text.tail.dropWhile (· ≠ 41)).tail
    else .error open_
  else checkedName (text.takeWhile isWordChar) (text.dropWhile isWordChar)

/-- The value of an environment variable; the text is behind the `$`. -/
def envReference (look : VarLookup) (text : List UInt8) :
    Except VarError (CText × List UInt8) :=
  match nameAt .envParen text with
  | .error e => .error e
  | .ok (name, rest) =>
    match look.getenv name with
    | none => .error .envNotFound
    | some v => .ok (v, rest)

/-- The value of an ini variable; the text is behind the `[`. -/
def iniReference (look : VarLookup) (text : List UInt8) :
    Except VarError (CText × List UInt8) :=
  if 93 ∈ text then
    let sec := text.takeWhile (· ≠ 93)
    if 127 < sec.length then .error .tooLong else
    match nameAt .iniParen (text.dropWhile (· ≠ 93)).tail with
    | .error e => .error e
    | .ok (name, rest) =>
      match look.iniFind name (if sec = [] then none else some sec) with
      | none => .error .iniNotFound
      | some v => .ok (v, rest)
  else .error .noBracket

/-- The value of the reference that begins with `c`, and the text behind it. -/
def reference (look : VarLookup) (c : UInt8) (text : List UInt8) :
    Except VarError (CText × List UInt8) :=
  if c = 36 then envReference look text else iniReference look text

section Shorter

variable {look : VarLookup} {c : UInt8} {open_ : VarError} {text name rest : List UInt8}
  {v : CText}

lemma checkedName_rest {name' rest' : List UInt8}
    (h : checkedName name' rest' = .ok (name, rest)) : name = name' ∧ rest = rest' := by
  unfold checkedName at h
  split_ifs at h
  cases h
  exact ⟨rfl, rfl⟩

lemma nameAt_shorter (h : nameAt open_ text = .ok (name, rest)) : rest.length ≤ text.length := by
  have hdrop : ∀ (p : UInt8 → Bool) (l : List UInt8), (l.dropWhile p).length ≤ l.length :=
    fun p l => (List.dropWhile_sublist p).length_le
  unfold nameAt at h
  split_ifs at h
  · have := hdrop (· ≠ 41) text.tail
    rw [(checkedName_rest h).2, List.length_tail]
    rw [List.length_tail] at this
    omega
  · rw [(checkedName_rest h).2]
    exact hdrop _ _

lemma envReference_shorter (h : envReference look text = .ok (v, rest)) :
    rest.length ≤ text.length := by
  unfold envReference at h
  split at h
  · cases h
  · split at h
    · cases h
    · cases h
      exact nameAt_shorter ‹_›

lemma iniReference_shorter (h : iniReference look text = .ok (v, rest)) :
    rest.length ≤ text.length := by
  have hdrop := (List.dropWhile_sublist (fun c => decide (c ≠ (93 : UInt8))) (l := text)).length_le
  rw [iniReference] at h
  by_cases hmem : 93 ∈ text
  swap
  · rw [if_neg hmem] at h
    cases h
  rw [if_pos hmem] at h
  dsimp only at h
  by_cases hlong : 127 < (text.takeWhile (· ≠ 93)).length
  · rw [if_pos hlong] at h
    cases h
  rw [if_neg hlong] at h
  split at h
  · cases h
  · split at h
    · cases h
    · cases h
      have hname := nameAt_shorter ‹_›
      rw [List.length_tail] at hname
      omega

lemma reference_shorter (h : reference look c text = .ok (v, rest)) :
    rest.length ≤ text.length := by
  unfold reference at h
  split_ifs at h
  · exact envReference_shorter h
  · exact iniReference_shorter h

end Shorter

/-- The text with its references replaced, in at most `space` bytes, or what is wrong first. -/
def expand (look : VarLookup) (space : ℕ) (text : List UInt8) : Except VarError (List UInt8) :=
  let plain := text.takeWhile isPlain
  if space < plain.length then .error .overflow else
  match _hrest : text.dropWhile isPlain with
  | [] => .ok plain
  | c :: text' =>
    match _hval : reference look c text' with
    | .error e => .error e
    | .ok (v, rest) =>
      if space - plain.length < v.bytes.length then .error .overflow
      else
        (expand look (space - plain.length - v.bytes.length) rest).map (plain ++ v.bytes ++ ·)
  termination_by text.length
  decreasing_by
    have hle := reference_shorter _hval
    have hdrop := (List.dropWhile_sublist isPlain (l := text)).length_le
    rw [_hrest, List.length_cons] at hdrop
    omega

/-- The code returns the expanded text, or the first error. -/
def Replaced (look : VarLookup) (source : CText) (dest : VarBuf) : Prop :=
  match expand look (dest.bytes.length - 1) source.bytes with
  | .ok text => ∃ s, replaceVars look source dest = some (0, s) ∧ cStringAt 0 s.dest 0 = some text
  | .error e => ∃ s, replaceVars look source dest = some (e.code, s)

/-! ### The places in the source and in the destination -/

/-- The source has `text` from `sp` up to its terminator. -/
structure TextAt (src : List UInt8) (sp : ℕ) (text : List UInt8) : Prop where
  noNul : (0 : UInt8) ∉ text
  place : ∃ done, src = done ++ (text ++ [0]) ∧ done.length = sp

namespace TextAt

variable {src pre post text : List UInt8} {sp : ℕ} {c : UInt8}

lemma start (text : CText) : TextAt (text.bytes ++ [0]) 0 text.bytes :=
  ⟨text.noNul, [], rfl, rfl⟩

lemma read (h : TextAt src sp text) : cStringAt 0 src sp = some text := by
  obtain ⟨h0, done, rfl, rfl⟩ := h
  rw [cStringAt_append, takeWhile_of_notMem h0]

lemma advance (h : TextAt src sp (pre ++ post)) : TextAt src (sp + pre.length) post := by
  obtain ⟨h0, done, rfl, rfl⟩ := h
  exact ⟨fun hm => h0 (List.mem_append_right _ hm), done ++ pre, by simp, by simp⟩

lemma advance_one (h : TextAt src sp (c :: post)) : TextAt src (sp + 1) post :=
  @advance src [c] post sp h

lemma head (h : TextAt src sp (c :: post)) : src[sp]? = some c := by
  obtain ⟨-, done, rfl, rfl⟩ := h
  simp

lemma advance_while (p : UInt8 → Bool) (h : TextAt src sp text) :
    TextAt src (sp + (text.takeWhile p).length) (text.dropWhile p) :=
  advance (by rw [List.takeWhile_append_dropWhile]; exact h)

lemma length (h : TextAt src sp text) : src.length = sp + text.length + 1 := by
  obtain ⟨-, done, rfl, rfl⟩ := h
  simp [Nat.add_assoc]

end TextAt

/-- Behind the source nothing can be read. -/
lemma cStringAt_past {src : List UInt8} {sp : ℕ} (h : src.length ≤ sp) :
    cStringAt 0 src sp = none := by
  rw [cStringAt, List.drop_eq_nil_of_le h, if_neg (by simp)]

/-- The destination has `out`, with a terminator and `bufSpace` bytes behind it. -/
def VarState.Holds (s : VarState) (out : List UInt8) : Prop :=
  (0 : UInt8) ∉ out ∧ s.dp = out.length ∧
    ∃ junk, s.dest = out ++ 0 :: junk ∧ junk.length = s.bufSpace

namespace VarState

variable {s : VarState} {out v : List UInt8}

lemma Holds.text (h : s.Holds out) : cStringAt 0 s.dest 0 = some out := by
  obtain ⟨h0, -, junk, hdest, -⟩ := h
  have hread := cStringAt_append 0 [] out junk
  rw [takeWhile_of_notMem h0] at hread
  rw [hdest]
  exact hread

lemma Holds.move (h : s.Holds out) (sp : ℕ) : { s with sp := sp }.Holds out := h

/-- A copy that does not fit. -/
lemma strlimcpy_overflow (h : s.bufSpace < v.length) : s.strlimcpy v = some (.error (-6)) :=
  if_pos h

lemma Holds.strlimcpy (h : s.Holds out) (hv : (0 : UInt8) ∉ v) (hfit : v.length ≤ s.bufSpace) :
    ∃ s', s.strlimcpy v = some (.ok s') ∧ s'.Holds (out ++ v) ∧ s'.sp = s.sp ∧
      s'.bufSpace = s.bufSpace - v.length := by
  obtain ⟨h0, hdp, junk, hdest, hlen⟩ := h
  have hwrite : writeAt s.dest s.dp (v ++ [0]) = some (out ++ (v ++ 0 :: junk.drop v.length)) := by
    rw [hdest, hdp, writeAt_append _ (by simp; omega)]
    simp
  have hread := cStringAt_append 0 out v (junk.drop v.length)
  rw [takeWhile_of_notMem hv] at hread
  refine ⟨{ s with
    dest := out ++ (v ++ 0 :: junk.drop v.length)
    dp := out.length + v.length
    bufSpace := s.bufSpace - v.length }, ?_, ?_, rfl, rfl⟩
  · rw [VarState.strlimcpy, if_neg (not_lt.2 hfit), hwrite, Option.bind_some, hdp, hread,
      Option.map_some]
  · refine ⟨by simp [h0, hv], by simp, junk.drop v.length, by simp, ?_⟩
    rw [List.length_drop, hlen]

end VarState

/-! ### References -/

/-- The code returns what it should, related by `P`. At an open parenthesis of an ini reference
it does not report that, and goes on with a value of which `Lost` holds, if it does. -/
def Follows {β γ : Type} (P : β → γ → Prop) (Lost : β → Prop) (r : Option (Except ℤ β)) :
    Except VarError γ → Prop
  | .ok x => ∃ y, r = some (.ok y) ∧ P y x
  | .error .iniParen => r ≠ some (.error (-1)) ∧ ∀ y, r = some (.ok y) → Lost y
  | .error e => r = some (.error e.code)

lemma Follows.error {β γ : Type} {P : β → γ → Prop} {Lost : β → Prop} {r : Option (Except ℤ β)}
    {e : VarError} (he : e ≠ .iniParen) (hr : r = some (.error e.code)) :
    Follows P Lost r (.error e) := by
  cases e with
  | iniParen => exact absurd rfl he
  | _ => exact hr

lemma Follows.of_error {β γ : Type} {P : β → γ → Prop} {Lost : β → Prop}
    {r : Option (Except ℤ β)} {e : VarError} (he : e ≠ .iniParen)
    (h : Follows P Lost r (.error e)) : r = some (.error e.code) := by
  cases e with
  | iniParen => exact absurd rfl he
  | _ => exact h

section References

variable {look : VarLookup} {src text rest name : List UInt8} {sp : ℕ} {open_ : VarError}
  {noParen : ℕ → ℕ → Bool} {s : VarState} {out : List UInt8}

/-- A name that is found, with the source behind it. -/
def NameFound (src : List UInt8) (found : List UInt8 × ℕ) (name : List UInt8 × List UInt8) :
    Prop :=
  found.1 = name.1 ∧ TextAt src found.2 name.2

/-- The source is left. -/
def NameLost (src : List UInt8) (found : List UInt8 × ℕ) : Prop := src.length ≤ found.2

lemma nameChecks_follows (Lost : List UInt8 × ℕ → Prop) {n : ℕ} (hname : text.take n = name)
    (hn : n = name.length) (hrest : TextAt src (sp + n) rest) :
    Follows (NameFound src) Lost (some (nameChecks text n sp)) (checkedName name rest) := by
  subst hn
  unfold nameChecks checkedName
  by_cases h0 : name = []
  · rw [if_pos (by simp [h0]), if_pos h0]
    rfl
  by_cases hlong : 127 < name.length
  · rw [if_neg (by simpa using h0), if_pos hlong, if_neg h0, if_pos hlong]
    rfl
  · rw [if_neg (by simpa using h0), if_neg hlong, if_neg h0, if_neg hlong]
    exact ⟨_, rfl, hname, hrest⟩

lemma take_takeWhile (p : UInt8 → Bool) (l : List UInt8) :
    l.take (l.takeWhile p).length = l.takeWhile p :=
  List.prefix_iff_eq_take.1 (List.takeWhile_prefix p) |>.symm

/-- Up to the delimiter the text is longer than the part in front of it. -/
lemma takeWhile_lt {d : UInt8} (h : d ∈ text) :
    (text.takeWhile (· ≠ d)).length < text.length := by
  by_contra hlt
  have heq := (List.takeWhile_prefix (· ≠ d)).eq_of_length_le (not_lt.1 hlt)
  exact notMem_takeWhile d text (by rw [heq]; exact h)

/-- The delimiter is the first character that is dropped up to. -/
lemma dropWhile_delimiter {d : UInt8} (h : d ∈ text) :
    text.dropWhile (· ≠ d) = d :: (text.dropWhile (· ≠ d)).tail := by
  obtain ⟨post, hpost⟩ : ∃ post, text.dropWhile (· ≠ d) = d :: post := by
    induction text with
    | nil => simp at h
    | cons c text ih =>
      by_cases hc : c = d
      · exact ⟨text, by simp [hc]⟩
      · rw [List.dropWhile_cons_of_pos (by simpa using hc)]
        exact ih ((List.mem_cons.1 h).resolve_left (Ne.symm hc))
  rw [hpost, List.tail_cons]

/-- **A name**, when the parenthesis is closed or the code looks for the right one. -/
lemma varName_follows (Lost : List UInt8 × ℕ → Prop) (h : TextAt src sp text)
    (hclosed : ∀ n len, n < len → noParen n len = false)
    (hopen : text.head? = some 40 → 41 ∉ text.tail → open_ ≠ .iniParen ∧ open_.code = -1 ∧
      ∀ n, noParen n n = true) :
    Follows (NameFound src) Lost (varName src sp noParen) (nameAt open_ text) := by
  unfold varName nameAt
  rw [h.read, Option.bind_some]
  by_cases hparen : text.head? = some 40
  swap
  · rw [if_neg hparen, if_neg hparen]
    exact nameChecks_follows Lost (take_takeWhile _ _) rfl (h.advance_while isWordChar)
  obtain ⟨text, rfl⟩ : ∃ t, text = 40 :: t := by
    cases text with
    | nil => simp at hparen
    | cons c t => exact ⟨t, by rw [Option.some.inj hparen]⟩
  have hat : TextAt src (sp + 1) text := h.advance_one
  rw [if_pos hparen, if_pos hparen, hat.read, Option.map_some, List.tail_cons]
  by_cases hmem : 41 ∈ text
  · dsimp only
    rw [if_pos hmem, hclosed _ _ (takeWhile_lt hmem), if_neg (by decide)]
    refine nameChecks_follows Lost (take_takeWhile _ _) rfl ?_
    have hbehind := hat.advance_while (· ≠ 41)
    rw [dropWhile_delimiter hmem] at hbehind
    have hone := hbehind.advance_one
    rwa [show sp + 1 + (text.takeWhile (· ≠ 41)).length + 1 =
      sp + 2 + (text.takeWhile (· ≠ 41)).length by omega] at hone
  · obtain ⟨hne, hcode, hno⟩ := hopen rfl hmem
    have hall : text.takeWhile (· ≠ 41) = text := takeWhile_of_notMem hmem
    dsimp only
    rw [if_neg hmem, hall, hno, if_pos rfl]
    exact .error hne (by rw [hcode])

/-- **The name of an ini variable**; an open parenthesis is passed over. -/
lemma iniName_follows (h : TextAt src sp text) :
    Follows (NameFound src) (NameLost src)
      (varName src sp fun nextDelim len => len < nextDelim) (nameAt .iniParen text) := by
  by_cases hopen : text.head? = some 40 ∧ 41 ∉ text.tail
  swap
  · refine varName_follows _ h (fun n len hn => ?_) fun h1 h2 => absurd ⟨h1, h2⟩ hopen
    simpa using hn.le
  obtain ⟨hparen, hmem⟩ := hopen
  obtain ⟨text, rfl⟩ : ∃ t, text = 40 :: t := by
    cases text with
    | nil => simp at hparen
    | cons c t => exact ⟨t, by rw [Option.some.inj hparen]⟩
  rw [List.tail_cons] at hmem
  have hat : TextAt src (sp + 1) text := h.advance_one
  have hall : text.takeWhile (· ≠ 41) = text := takeWhile_of_notMem hmem
  rw [nameAt, if_pos hparen, List.tail_cons, if_neg hmem, varName, h.read, Option.bind_some,
    if_pos hparen, hat.read, Option.map_some]
  dsimp only
  rw [hall, if_neg (by simp), nameChecks]
  refine ⟨by split_ifs <;> simp, fun y hy => ?_⟩
  split_ifs at hy
  · cases hy
  · cases hy
  · cases hy
    have hlen := hat.length
    change src.length ≤ sp + 2 + text.length
    omega

/-- A value that fits. -/
def copied (space : ℕ) (r : CText × List UInt8) : Except VarError (CText × List UInt8) :=
  if space < r.1.bytes.length then .error .overflow else .ok r

/-- A value that is copied behind `out`, with the source behind the reference. -/
structure Copied (src : List UInt8) (s : VarState) (out : List UInt8) (s' : VarState)
    (r : CText × List UInt8) : Prop where
  holds : s'.Holds (out ++ r.1.bytes)
  behind : TextAt src s'.sp r.2
  space : s'.bufSpace = s.bufSpace - r.1.bytes.length

/-- The source is left. -/
def Lost (src : List UInt8) (s : VarState) : Prop := src.length ≤ s.sp

/-- The end of a reference: the value, if there is one, is copied. -/
def copyReplacement (s : VarState) (missing : VarError) (sp : ℕ) :
    Option CText → Option (Except ℤ VarState)
  | none => some (.error missing.code)
  | some v => (s.strlimcpy v.bytes).map (Except.map fun s => { s with sp := sp })

lemma copyReplacement_follows {missing : VarError} (hm : missing ≠ .iniParen) (hs : s.Holds out)
    (hrest : TextAt src sp rest) (value : Option CText) :
    Follows (Copied src s out) (Lost src) (copyReplacement s missing sp value)
      (match value with
        | none => .error missing
        | some v => copied s.bufSpace (v, rest)) := by
  cases value with
  | none => exact .error hm rfl
  | some v =>
    dsimp only
    rw [copied, copyReplacement]
    by_cases hfit : s.bufSpace < v.bytes.length
    · rw [if_pos hfit, VarState.strlimcpy_overflow hfit]
      rfl
    · obtain ⟨s', hcopy, hs', -, hspace⟩ := hs.strlimcpy v.noNul (not_lt.1 hfit)
      rw [if_neg hfit, hcopy]
      exact ⟨_, rfl, hs'.move sp, hrest, hspace⟩

/-- What is copied at a place outside the source. -/
lemma copyReplacement_lost {missing : VarError} (hm : missing.code ≠ -1) (hs : s.Holds out)
    (hlost : src.length ≤ sp) (value : Option CText) :
    copyReplacement s missing sp value ≠ some (.error (-1)) ∧
      ∀ s', copyReplacement s missing sp value = some (.ok s') → Lost src s' := by
  cases value with
  | none => exact ⟨fun h => hm (by simpa [copyReplacement] using h), fun s' h => by cases h⟩
  | some v =>
    rw [copyReplacement]
    by_cases hfit : s.bufSpace < v.bytes.length
    · rw [VarState.strlimcpy_overflow hfit]
      exact ⟨fun h => by simp [Except.map] at h, fun s' h => by cases h⟩
    · obtain ⟨s', hcopy, -⟩ := hs.strlimcpy v.noNul (not_lt.1 hfit)
      rw [hcopy]
      refine ⟨fun h => by simp [Except.map] at h, fun s'' h => ?_⟩
      cases h
      exact hlost

/-- **An environment variable.** -/
lemma replaceEnv_follows (hs : s.Holds out) (h : TextAt src s.sp text) :
    Follows (Copied src s out) (Lost src) (replaceEnv look src s)
      ((envReference look text).bind (copied s.bufSpace)) := by
  have hname : Follows (NameFound src) (fun _ => False)
      (varName src s.sp fun nextDelim len => len ≤ nextDelim) (nameAt .envParen text) :=
    varName_follows _ h (fun n len hn => by simpa using hn)
      fun _ _ => ⟨by decide, rfl, fun n => by simp⟩
  rw [replaceEnv, envReference]
  cases hat : nameAt .envParen text with
  | error e =>
    have he : e ≠ .iniParen := by
      rintro rfl
      unfold nameAt checkedName at hat
      split_ifs at hat <;> cases hat
    rw [hat] at hname
    rw [hname.of_error he]
    exact .error he rfl
  | ok found =>
    rw [hat] at hname
    obtain ⟨⟨var, sp⟩, hvar, hfound, hrest⟩ := hname
    obtain ⟨name, rest⟩ := found
    obtain rfl : var = name := hfound
    have hcopy := copyReplacement_follows (by decide : VarError.envNotFound ≠ .iniParen) hs hrest
      (look.getenv var)
    rw [hvar, Option.bind_some]
    dsimp only
    cases hvalue : look.getenv var with
    | none => rfl
    | some v =>
      rw [hvalue] at hcopy
      exact hcopy

/-- **An ini variable**; at an open parenthesis the code loses its place. -/
lemma replaceIni_follows (hs : s.Holds out) (h : TextAt src s.sp text) :
    Follows (Copied src s out) (Lost src) (replaceIni look src s)
      ((iniReference look text).bind (copied s.bufSpace)) := by
  rw [replaceIni, iniReference, h.read, Option.bind_some]
  by_cases hmem : 93 ∈ text
  swap
  · rw [if_neg hmem, takeWhile_of_notMem hmem]
    dsimp only
    rw [if_pos le_rfl]
    rfl
  have hlt := takeWhile_lt hmem
  have htake := take_takeWhile (· ≠ 93) text
  dsimp only
  rw [if_pos hmem, if_neg (not_le.2 hlt), htake]
  by_cases hlong : 127 < (text.takeWhile (· ≠ 93)).length
  · rw [if_pos hlong, if_pos hlong]
    rfl
  rw [if_neg hlong, if_neg hlong]
  have hbehind : TextAt src (s.sp + ((text.takeWhile (· ≠ 93)).length + 1))
      (text.dropWhile (· ≠ 93)).tail := by
    have hdrop := h.advance_while (· ≠ 93)
    rw [dropWhile_delimiter hmem] at hdrop
    exact hdrop.advance_one
  have hname := iniName_follows hbehind
  generalize (text.takeWhile (· ≠ 93)) = sec at *
  cases hat : nameAt .iniParen (text.dropWhile (· ≠ 93)).tail with
  | ok found =>
    rw [hat] at hname
    obtain ⟨⟨var, sp⟩, hvar, hfound, hrest⟩ := hname
    obtain ⟨name, rest⟩ := found
    obtain rfl : var = name := hfound
    have hcopy := copyReplacement_follows (by decide : VarError.iniNotFound ≠ .iniParen) hs hrest
      (look.iniFind var (if sec = [] then none else some sec))
    rw [hvar, Option.bind_some]
    dsimp only
    cases hvalue : look.iniFind var (if sec = [] then none else some sec) with
    | none => rfl
    | some v =>
      rw [hvalue] at hcopy
      exact hcopy
  | error e =>
    rw [hat] at hname
    by_cases he : e = .iniParen
    swap
    · rw [hname.of_error he]
      exact .error he rfl
    subst he
    obtain ⟨hcode, hlost⟩ := hname
    cases hvar : varName src (s.sp + (sec.length + 1)) fun nextDelim len => len < nextDelim with
    | none => exact ⟨by simp, by simp⟩
    | some r =>
      cases r with
      | error e =>
        have he : e ≠ -1 := by simpa [hvar] using hcode
        exact ⟨by simpa using he, fun y h => by cases h⟩
      | ok found =>
        exact copyReplacement_lost (by decide : VarError.iniNotFound.code ≠ -1) hs
          (hlost found hvar) (look.iniFind found.1 (if sec = [] then none else some sec))

variable (look) in
/-- A reference, at one of the two delimiters. -/
lemma reference_follows {c : UInt8} (hc : isPlain c = false) (hs : s.Holds out)
    (h : TextAt src s.sp text) :
    Follows (Copied src s out) (Lost src)
      (if c = 36 then replaceEnv look src s
        else if c = 91 then replaceIni look src s else some (.ok s))
      ((reference look c text).bind (copied s.bufSpace)) := by
  unfold reference
  by_cases henv : c = 36
  · rw [if_pos henv, if_pos henv]
    exact replaceEnv_follows hs h
  · have hini : c = 91 := by
      by_contra h91
      simp [isPlain, henv, h91] at hc
    rw [if_neg henv, if_pos hini, if_neg henv]
    exact replaceIni_follows hs h

end References

/-! ### The whole text -/

section Expand

variable {look : VarLookup} {src text text' : List UInt8} {space : ℕ} {c : UInt8}

lemma expand_plain (h : text.dropWhile isPlain = []) : expand look space text =
    if space < (text.takeWhile isPlain).length then .error .overflow
    else .ok (text.takeWhile isPlain) := by
  rw [expand]
  by_cases hfit : space < (text.takeWhile isPlain).length
  · rw [if_pos hfit, if_pos hfit]
  · rw [if_neg hfit, if_neg hfit]
    split
    · rfl
    · next heq => cases h.symm.trans heq

/-- Up to the end of the first reference, and the rest. -/
lemma expand_reference (h : text.dropWhile isPlain = c :: text') : expand look space text =
    if space < (text.takeWhile isPlain).length then .error .overflow
    else
      ((reference look c text').bind (copied (space - (text.takeWhile isPlain).length))).bind
        fun r =>
          (expand look (space - (text.takeWhile isPlain).length - r.1.bytes.length) r.2).map
            (text.takeWhile isPlain ++ r.1.bytes ++ ·) := by
  rw [expand]
  by_cases hfit : space < (text.takeWhile isPlain).length
  · rw [if_pos hfit, if_pos hfit]
  rw [if_neg hfit, if_neg hfit]
  split
  · next heq => cases h.symm.trans heq
  · next c' text'' heq =>
      obtain ⟨rfl, rfl⟩ := List.cons.inj (h.symm.trans heq)
      split
      · next e href => rw [href]; rfl
      · next v rest href =>
          rw [href]
          change _ = Except.bind (copied _ (v, rest)) _
          rw [copied]
          split_ifs <;> rfl

/-- The delimiter that the plain text ends with. -/
lemma isPlain_delimiter (h : text.dropWhile isPlain = c :: text') : isPlain c = false := by
  have hhead := List.head?_dropWhile_not isPlain text
  rw [h] at hhead
  simpa using hhead

/-- What the loop ends with: the text behind `out`, or the error. -/
def Ends (r : Option (ℤ × VarState)) (out : List UInt8) :
    Except VarError (List UInt8) → Prop
  | .ok text => ∃ s, r = some (0, s) ∧ s.Holds (out ++ text)
  | .error .iniParen => ∀ s, r ≠ some (-1, s)
  | .error e => ∃ s, r = some (e.code, s)

lemma Ends.error {r : Option (ℤ × VarState)} {out : List UInt8} {e : VarError}
    (he : e ≠ .iniParen) (h : ∃ s, r = some (e.code, s)) : Ends r out (.error e) := by
  cases e with
  | iniParen => exact absurd rfl he
  | _ => exact h

/-- What is expanded behind `pre`. -/
lemma Ends.append {r : Option (ℤ × VarState)} {out pre : List UInt8}
    {e : Except VarError (List UInt8)} (h : Ends r (out ++ pre) e) :
    Ends r out (e.map (pre ++ ·)) := by
  cases e with
  | ok text =>
    obtain ⟨s, hr, hs⟩ := h
    exact ⟨s, hr, by rwa [← List.append_assoc]⟩
  | error e => cases e <;> exact h

/-- The loop has no result where the source is left. -/
lemma replaceVarsLoop_lost {s : VarState} (h : Lost src s) (fuel : ℕ) :
    replaceVarsLoop look src fuel s = none := by
  cases fuel with
  | zero => rfl
  | succ fuel => rw [replaceVarsLoop, cStringAt_past h, Option.bind_none]

lemma of_copied {e : Except VarError (CText × List UInt8)} {r : CText × List UInt8}
    (h : e.bind (copied space) = .ok r) : e = .ok r := by
  cases e with
  | error e => cases h
  | ok r' =>
    change copied space r' = .ok r at h
    unfold copied at h
    split_ifs at h
    exact h

/-- The rest of a turn, behind a reference. -/
lemma Follows.ends {γ : Type} {P : VarState → γ → Prop} {r : Option (Except ℤ VarState)}
    {spec : Except VarError γ} {g : γ → Except VarError (List UInt8)} {fuel : ℕ} {s : VarState}
    {out : List UInt8} (h : Follows P (Lost src) r spec)
    (hok : ∀ s' x, P s' x → spec = .ok x → Ends (replaceVarsLoop look src fuel s') out (g x)) :
    Ends (r.bind fun
      | .error e => some (e, s)
      | .ok s' => replaceVarsLoop look src fuel s') out (spec.bind g) := by
  cases spec with
  | ok x =>
    obtain ⟨s', rfl, hP⟩ := h
    exact hok s' x hP rfl
  | error e =>
    by_cases he : e = .iniParen
    swap
    · rw [h.of_error he]
      exact .error he ⟨_, rfl⟩
    subst he
    obtain ⟨hne, hlost⟩ := h
    intro s'
    cases r with
    | none => simp
    | some r =>
      cases r with
      | error e =>
        have he : e ≠ -1 := by simpa using hne
        simp [he]
      | ok s'' =>
        change replaceVarsLoop look src fuel s'' ≠ _
        rw [replaceVarsLoop_lost (hlost s'' rfl)]
        simp

/-- **The loop** replaces what is in front of it, by induction on the turns. -/
lemma replaceVarsLoop_ends {fuel : ℕ} {s : VarState} {out : List UInt8} (hs : s.Holds out)
    (h : TextAt src s.sp text) (hfuel : text.length < fuel) :
    Ends (replaceVarsLoop look src fuel s) out (expand look s.bufSpace text) := by
  induction fuel generalizing s out text with
  | zero => omega
  | succ fuel ih =>
    rw [replaceVarsLoop, h.read, Option.bind_some]
    by_cases hnil : text = []
    · subst hnil
      rw [if_pos rfl, expand_plain rfl, List.takeWhile_nil, if_neg (by simp)]
      exact ⟨s, rfl, by rwa [List.append_nil]⟩
    rw [if_neg hnil]
    dsimp only
    have hbehind := h.advance_while isPlain
    have hsplit := List.takeWhile_append_dropWhile (p := isPlain) (l := text)
    have hplain : (0 : UInt8) ∉ text.takeWhile isPlain :=
      fun hm => h.noNul ((List.takeWhile_prefix isPlain).subset hm)
    generalize hp : text.takeWhile isPlain = plain at *
    by_cases hfit : s.bufSpace < plain.length
    · rw [VarState.strlimcpy_overflow hfit]
      cases hd : text.dropWhile isPlain with
      | nil =>
        rw [expand_plain hd, hp, if_pos hfit]
        exact ⟨s, rfl⟩
      | cons c text' =>
        rw [expand_reference hd, hp, if_pos hfit]
        exact ⟨s, rfl⟩
    obtain ⟨s', hcopy, hs', hsp, hspace⟩ := hs.strlimcpy hplain (not_lt.1 hfit)
    rw [hcopy, Option.bind_some]
    dsimp only
    rw [hsp]
    cases hd : text.dropWhile isPlain with
    | nil =>
      have htext : text = plain := by rw [← hsplit, hd, List.append_nil]
      rw [expand_plain hd, hp, if_neg hfit, if_neg (by rw [htext]; simp)]
      rw [hd] at hbehind
      have hend := ih (hs'.move (s.sp + plain.length)) hbehind (by
        have := List.length_pos_iff.2 hnil
        simp only [List.length_nil]
        omega)
      rw [expand_plain rfl, List.takeWhile_nil, if_neg (by simp)] at hend
      obtain ⟨s'', hloop, hholds⟩ := hend
      exact ⟨s'', hloop, by rwa [List.append_nil] at hholds⟩
    | cons c text' =>
      rw [hd] at hbehind
      have hlen : plain.length + (text'.length + 1) = text.length := by
        rw [← hsplit, hd, List.length_append, List.length_cons]
      rw [expand_reference hd, hp, if_neg hfit, if_pos (by omega), hbehind.head,
        Option.bind_some, ← hspace]
      have href := reference_follows look (isPlain_delimiter hd)
        (hs'.move (s.sp + plain.length + 1)) (@TextAt.advance_one src _ _ c hbehind)
      refine href.ends fun s'' found hcopied hval => ?_
      obtain ⟨v, rest⟩ := found
      obtain ⟨hholds, hrest, hspace'⟩ := hcopied
      have hshorter := reference_shorter (of_copied hval)
      have hend := ih hholds hrest (by dsimp only at hshorter ⊢; omega)
      rw [hspace', List.append_assoc] at hend
      exact hend.append

end Expand

/-! ### Every source -/

/-- The destination at the beginning. -/
lemma VarBuf.holds (dest : VarBuf) : ∃ bytes bytes' : List UInt8,
    writeAt dest.bytes (dest.bytes.length - 1) [0] = some bytes ∧
      writeAt bytes 0 [0] = some bytes' ∧
      VarState.Holds ⟨0, bytes', 0, dest.bytes.length - 1⟩ [] := by
  have hpos : 0 < dest.bytes.length := List.length_pos_iff.2 dest.nonempty
  obtain ⟨bytes, hlast⟩ : ∃ bytes, writeAt dest.bytes (dest.bytes.length - 1) [0] = some bytes :=
    ⟨_, if_pos (by simp; omega)⟩
  have hlen : bytes.length = dest.bytes.length := writeAt_length hlast
  obtain ⟨c, junk, rfl⟩ := List.exists_cons_of_ne_nil (List.length_pos_iff.1 (hlen ▸ hpos))
  refine ⟨_, 0 :: junk, hlast, if_pos (by simp), by simp, rfl, junk, rfl, ?_⟩
  rw [← hlen]
  simp

/-- **Variables are replaced**: the code returns the text with the references replaced, or the
first error, unless that is an ini reference whose parenthesis is not closed. -/
theorem replace_vars_expand (look : VarLookup) (source : CText) (dest : VarBuf) :
    Replaced look source dest ↔
      expand look (dest.bytes.length - 1) source.bytes ≠ .error .iniParen := by
  obtain ⟨bytes, bytes', hlast, hfirst, hholds⟩ := dest.holds
  have hends : Ends (replaceVars look source dest) []
      (expand look (dest.bytes.length - 1) source.bytes) := by
    rw [replaceVars, hlast, Option.bind_some, hfirst, Option.bind_some]
    exact replaceVarsLoop_ends hholds (TextAt.start source) (Nat.lt_succ_self _)
  unfold Replaced
  cases hexp : expand look (dest.bytes.length - 1) source.bytes with
  | ok text =>
      rw [hexp] at hends
      obtain ⟨s, hs, htext⟩ := hends
      exact ⟨fun _ => by simp, fun _ => ⟨s, hs, htext.text⟩⟩
  | error e =>
      rw [hexp] at hends
      by_cases he : e = .iniParen
      · subst he
        refine ⟨fun ⟨s, hs⟩ => absurd hs (hends s), fun h => absurd rfl h⟩
      · refine ⟨fun _ => by simpa using he, fun _ => ?_⟩
        cases e with
        | iniParen => exact absurd rfl he
        | _ => exact hends

/-- `[S](V` at the end of the line: the code goes on behind the line. -/
theorem replace_vars_leaves_source : ¬ ∀ look source dest, Replaced look source dest := by
  intro h
  let look : VarLookup := ⟨fun _ => none, fun _ _ => some ⟨[49], by decide⟩⟩
  let source : CText := ⟨[91, 83, 93, 40, 86], by decide⟩
  let dest : VarBuf := ⟨[0, 0, 0, 0, 0, 0, 0, 0], by decide⟩
  have hexp : expand look (dest.bytes.length - 1) source.bytes = .error .iniParen := by
    rw [@expand_reference look source.bytes [83, 93, 40, 86] _ 91 rfl]
    rfl
  have hr := h look source dest
  rw [Replaced, hexp] at hr
  obtain ⟨s, hs⟩ := hr
  have hnone : replaceVars look source dest = none := by decide
  rw [hnone] at hs
  cases hs

end MachinekitHal
