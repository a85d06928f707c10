import MachinekitHal.HalCommand.SetCommon
import MachinekitHal.Hal.ChangeTracking
import MachinekitHal.Hal.Ring
import MachinekitHal.Hal.Thread

/-!
`halcmd_commands.c`: the options of `addf`, `newpin`, `newthread`, `newg`, `newm` and `newring`.

Some loops stop at an option that is reported (`none`), others note it (`printed`) and go on.

* `options`: the arguments a loop looks at.
* `addfOption`, `newthreadOption`: one round of a loop that goes on.
* `newpinOption`, `newgOption`, `newmOption`, `newringOption`: one round of a loop that stops.
* `addfOptions_eq`, `newthreadOptions_eq`: what the loops that go on leave.
* `newpinOption_isSome`: which options a loop that stops takes.
-/

namespace MachinekitHal

open Numerals

/-- The characters of a word. -/
def ascii (word : String) : List UInt8 := word.toList.map fun c => UInt8.ofNat c.toNat

/-- The arguments in front of the first that is empty. -/
def options (args : List CText) : List (List UInt8) := (args.map CText.bytes).takeWhile (· ≠ [])

/-- `strcasecmp` finds no difference from `word`. -/
def isWord (word : String) (s : List UInt8) : Bool := sameText (ascii word) s

/-- `strncasecmp` finds no difference from the whole of `key`. -/
def hasKey (key : String) (s : List UInt8) : Bool :=
  sameText (ascii key) (s.take (ascii key).length)

/-- `strchr(s, '=') + 1`. -/
def afterEq (s : List UInt8) : List UInt8 := (s.dropWhile (· ≠ 61)).tail

/-- A converted value in an `int`. -/
def Converted.int (c : Converted) : BitVec 32 := c.value.setWidth 32

/-- What is behind a decimal number at the beginning of a text. -/
def decimalEnd (text : List UInt8) : List UInt8 :=
  (scanDecimal isspace text).elim text Prod.snd

/-! ### `addf` -/

/-- The variables of `do_addf_cmd`; `printed` if an option was reported. -/
structure AddfOptions where
  position : ℤ
  rmb : Bool
  wmb : Bool
  printed : Bool

/-- One round of the loop. -/
def addfOption (a : AddfOptions) (s : List UInt8) : AddfOptions :=
  if isWord "rmb" s then { a with rmb := true }
  else if isWord "wmb" s then { a with wmb := true }
  else
    let c := strtoll s
    { a with position := c.int.toInt, printed := a.printed || !atEnd c.rest }

/-- An option that is read as a position. -/
def addfNumber (s : List UInt8) : Bool := !isWord "rmb" s && !isWord "wmb" s

/-- The last position, `-1` without any. -/
def addfPosition (opts : List (List UInt8)) : ℤ :=
  (opts.filter addfNumber).getLast?.elim (-1) fun s => (strtoll s).int.toInt

/-- A position that is reported. -/
def addfInvalid (s : List UInt8) : Bool := addfNumber s && !atEnd (numberEnd s)

/-! ### `newpin` -/

/-- The type of a name. -/
def pinType (typeName : List UInt8) : Option HalType :=
  if isWord "bit" typeName then some .halBit
  else if isWord "float" typeName then some .halFloat
  else if isWord "u32" typeName then some .halU32
  else if isWord "s32" typeName then some .halS32
  else if isWord "u64" typeName then some .halU64
  else if isWord "s64" typeName then some .halS64
  else none

/-- One round of the loop, as far as the direction is concerned; flags are decimal. -/
def newpinOption (type : HalType) (dir : HalPinDir) (s : List UInt8) : Option HalPinDir :=
  if isWord "in" s then some .halIn
  else if isWord "out" s then some .halOut
  else if isWord "inout" s ∨ isWord "io" s then some .halIo
  else if hasKey "eps=" s then
    if type ≠ .halFloat then none
    else if atEnd (strtoull (afterEq s)).rest then some dir else none
  else if hasKey "flags=" s then
    if atEnd (decimalEnd (afterEq s)) then some dir else none
  else none

/-- An option that is reported. -/
def newpinInvalid (type : HalType) (s : List UInt8) : Bool :=
  !(isWord "in" s || isWord "out" s || isWord "inout" s || isWord "io" s) &&
    if hasKey "eps=" s then type != .halFloat || !atEnd (numberEnd (afterEq s))
    else !hasKey "flags=" s || !atEnd (decimalEnd (afterEq s))

/-! ### `newthread` -/

/-- The variables of `do_newthread_cmd`; `fits` while the name of a control group fits into its
buffer. -/
structure NewthreadOptions where
  useFp : Bool
  per : ℤ
  fits : Bool
  printed : Bool

/-- What follows `key`, if `s` begins with it. -/
def keyText (key : String) (s : List UInt8) : Option (List UInt8) :=
  if (ascii key).isPrefixOf s then some (s.drop (ascii key).length) else none

/-- `sscanf(s, "cpu=%d", &cpu) == 1`. -/
def isCpu (s : List UInt8) : Bool := (keyText "cpu=" s).any fun t => (scanDecimal isspace t).isSome

/-- The word `sscanf(s, "cgname=%s", cgname)` stores. -/
def cgname (s : List UInt8) : List UInt8 :=
  (keyText "cgname=" s).elim [] fun t => (t.dropWhile isspace).takeWhile fun c => !isspace c

/-- `RTAPI_LINELEN`. -/
def rtapiLinelen : ℕ := 255

/-- A keyword of `newthread`, or the number of a CPU. -/
def newthreadWord (s : List UInt8) : Bool :=
  isCpu s || s == ascii "fp" || s == ascii "nofp" || s == ascii "posix" || s == ascii "nowait"

/-- One round of the loop. The flags of the task are left out. -/
def newthreadOption (a : NewthreadOptions) (s : List UInt8) : NewthreadOptions :=
  if isCpu s then a
  else if s = ascii "fp" then { a with useFp := true }
  else if s = ascii "nofp" then { a with useFp := false }
  else if s = ascii "posix" then a
  else if s = ascii "nowait" then a
  else if cgname s ≠ [] then
    { a with fits := a.fits && decide ((cgname s).length < rtapiLinelen) }
  else
    let c := strtoll s
    { a with per := c.int.toInt, printed := a.printed || !atEnd c.rest }

/-- An option that is read as a period. -/
def newthreadNumber (s : List UInt8) : Bool := !newthreadWord s && cgname s == []

/-- The last period, `1000000` without any. -/
def newthreadPeriod (opts : List (List UInt8)) : ℤ :=
  (opts.filter newthreadNumber).getLast?.elim 1000000 fun s => (strtoll s).int.toInt

/-- A period that is reported. -/
def newthreadInvalid (s : List UInt8) : Bool := newthreadNumber s && !atEnd (numberEnd s)

/-- The name of a control group that does not fit into its buffer. -/
def cgnameOverflows (s : List UInt8) : Bool :=
  !newthreadWord s && !decide ((cgname s).length < rtapiLinelen)

/-! ### `newg` and `newm` -/

/-- `strtok_r` with the delimiter `=`: the token, and what is left of the text. -/
def strtok (s : List UInt8) : Option (List UInt8 × List UInt8) :=
  let t := s.dropWhile (· = 61)
  if t = [] then none else some (t.takeWhile (· ≠ 61), (t.dropWhile (· ≠ 61)).tail)

/-- A keyword or a number; `arg` holds the flags. -/
def keyword (flags : List (String × (BitVec 32 → BitVec 32))) (arg : BitVec 32)
    (s : List UInt8) : Option (BitVec 32) :=
  match flags.find? fun f => s == ascii f.1 with
  | some f => some (f.2 arg)
  | none =>
    -- try to convert from integer
    let c := strtoll s
    if atEnd c.rest then some c.int else none

/-- The keywords of `newg`. -/
def newgKeywords : List (String × (BitVec 32 → BitVec 32)) :=
  [("onchange", (· ||| groupReportOnChange)),
   ("always", (· &&& ~~~groupReportOnChange)),
   ("monitorall", (· ||| groupMonitorAllMembers)),
   ("reportchanged", (· ||| groupReportChangedMembers)),
   ("reportall", (· &&& ~~~groupReportChangedMembers))]

/-- One round of the loop of `newg` on `arg1` and `arg2`. -/
def newgOption (a : BitVec 32 × BitVec 32) (s : List UInt8) : Option (BitVec 32 × BitVec 32) :=
  match strtok s with
  | none => some a
  | some (s1, rest) =>
    match strtok rest with
    | some (s2, _) =>
      if s1 = ascii "timer" then
        let c := strtoll s2
        if atEnd c.rest then some (c.int, a.2) else none
      else none
    | none => (keyword newgKeywords a.2 s1).map fun arg2 => (a.1, arg2)

/-- The keywords of `newm`. -/
def newmKeywords : List (String × (BitVec 32 → BitVec 32)) :=
  [("nomonitor", (· &&& ~~~memberMonitorChange))]

/-- One round of the loop of `newm` on `arg1` and `eps_index`. -/
def newmOption (sig : Option (Obj Sig)) (a : BitVec 32 × BitVec 32) (s : List UInt8) :
    Option (BitVec 32 × BitVec 32) :=
  match strtok s with
  | none => some a
  | some (s1, rest) =>
    match strtok rest with
    | some (s2, _) =>
      if s1 = ascii "epsilon" then
        let c := strtoull s2
        if atEnd c.rest = false then none
        else if sig.any fun g => g.body.type ≠ .halFloat then none
        else some (a.1, c.int)
      else none
    | none => (keyword newmKeywords a.1 s1).map fun arg1 => (arg1, a.2)

/-! ### `newring` -/

/-- The flags of the mode by their names: `USE_RMUTEX`, `USE_WMUTEX`, `ALLOC_HALMEM`,
`RINGTYPE_STREAM`, `RINGTYPE_MULTIPART`. -/
def newringFlags : List (String × ℕ) :=
  [("rmutex", 4), ("wmutex", 8), ("halmem", allocHalmem),
    ("record", 0), ("stream", 2), ("multi", 1)]

/-- `MAX_SPSIZE`. -/
def maxSpsize : ℤ := 1024 * 1024

/-- One round of the loop on `mode` and `spsize`. -/
def newringOption (a : ℕ × ℤ) (s : List UInt8) : Option (ℕ × ℤ) :=
  match newringFlags.find? fun f => isWord f.1 s with
  | some f => some (a.1 ||| f.2, a.2)
  | none =>
    if hasKey "scratchpad=" s then
      let c := strtoll (afterEq s)
      if atEnd c.rest = false then none
      else if c.int.toInt < 0 ∨ maxSpsize < c.int.toInt then none
      else some (a.1, c.int.toInt)
    else none

/-! ### The loops -/

/-- The options that `newpin` takes. -/
lemma newpinOption_isSome (type : HalType) (dir : HalPinDir) (s : List UInt8) :
    (newpinOption type dir s).isSome = !newpinInvalid type s := by
  rw [newpinOption, newpinInvalid, strtoull_rest]
  by_cases hin : isWord "in" s = true
  · simp [hin]
  by_cases hout : isWord "out" s = true
  · simp [hin, hout]
  by_cases hio : isWord "inout" s = true ∨ isWord "io" s = true
  · simp only [if_neg hin, if_neg hout, if_pos hio]
    rcases hio with hio | hio <;> simp [hio]
  rw [if_neg hin, if_neg hout, if_neg hio]
  obtain ⟨hio, hio'⟩ := not_or.1 hio
  by_cases heps : hasKey "eps=" s = true
  · by_cases ht : type = .halFloat
    · cases hend : atEnd (numberEnd (afterEq s)) <;> simp [hin, hout, hio, hio', heps, ht]
    · simp [hin, hout, hio, hio', heps, ht]
  by_cases hfl : hasKey "flags=" s = true
  · cases hend : atEnd (decimalEnd (afterEq s)) <;> simp [hin, hout, hio, hio', heps, hfl]
  · simp [hin, hout, hio, hio', heps, hfl]

/-- What the loop of `addf` leaves. -/
lemma addfOptions_eq (opts : List (List UInt8)) :
    (opts.foldl addfOption ⟨-1, false, false, false⟩).position = addfPosition opts ∧
      (opts.foldl addfOption ⟨-1, false, false, false⟩).printed = opts.any addfInvalid := by
  induction opts using List.reverseRecOn with
  | nil => exact ⟨rfl, rfl⟩
  | append_singleton opts s ih =>
    obtain ⟨hpos, hpr⟩ := ih
    rw [List.foldl_concat, addfPosition, List.filter_append, List.any_append, addfOption]
    by_cases hr : isWord "rmb" s = true
    · simp [hr, addfNumber, addfInvalid, ← hpr, hpos, addfPosition]
    by_cases hw : isWord "wmb" s = true
    · simp [hr, hw, addfNumber, addfInvalid, ← hpr, hpos, addfPosition]
    · simp [hr, hw, addfNumber, addfInvalid, ← hpr, strtoll_rest]

/-- A keyword changes neither the period nor what was noted. -/
lemma newthreadOption_word (a : NewthreadOptions) {s : List UInt8} (h : newthreadWord s = true) :
    ∃ fp, newthreadOption a s = { a with useFp := fp } := by
  rw [newthreadOption]
  by_cases hcpu : isCpu s = true
  · exact ⟨a.useFp, if_pos hcpu⟩
  rw [if_neg hcpu]
  by_cases hfp : s = ascii "fp"
  · exact ⟨true, if_pos hfp⟩
  rw [if_neg hfp]
  by_cases hno : s = ascii "nofp"
  · exact ⟨false, if_pos hno⟩
  rw [if_neg hno]
  refine ⟨a.useFp, ?_⟩
  by_cases hpx : s = ascii "posix"
  · exact if_pos hpx
  rw [if_neg hpx]
  by_cases hnw : s = ascii "nowait"
  · exact if_pos hnw
  · simp [newthreadWord, hcpu, hfp, hno, hpx, hnw] at h

/-- What is no keyword names a control group or is read as a period. -/
lemma newthreadOption_other (a : NewthreadOptions) {s : List UInt8}
    (h : newthreadWord s = false) : newthreadOption a s =
      if cgname s ≠ [] then
        { a with fits := a.fits && decide ((cgname s).length < rtapiLinelen) }
      else { a with
        per := (strtoll s).int.toInt, printed := a.printed || !atEnd (numberEnd s) } := by
  simp only [newthreadWord, Bool.or_eq_false_iff, beq_eq_false_iff_ne] at h
  obtain ⟨⟨⟨⟨hcpu, hfp⟩, hno⟩, hpx⟩, hnw⟩ := h
  rw [newthreadOption, if_neg (by simp [hcpu]), if_neg hfp, if_neg hno, if_neg hpx, if_neg hnw,
    ← strtoll_rest]

/-- What the loop of `newthread` leaves. -/
lemma newthreadOptions_eq (opts : List (List UInt8)) :
    let a := opts.foldl newthreadOption ⟨false, 1000000, true, false⟩
    a.per = newthreadPeriod opts ∧ a.printed = opts.any newthreadInvalid ∧
      a.fits = !opts.any cgnameOverflows := by
  induction opts using List.reverseRecOn with
  | nil => exact ⟨rfl, rfl, rfl⟩
  | append_singleton opts s ih =>
    obtain ⟨hper, hpr, hfits⟩ := ih
    simp only [List.foldl_concat, newthreadPeriod, List.filter_append, List.any_append]
    cases hw : newthreadWord s with
    | true =>
      obtain ⟨fp, hs⟩ := newthreadOption_word
        (opts.foldl newthreadOption ⟨false, 1000000, true, false⟩) hw
      rw [hs]
      simp [newthreadNumber, newthreadInvalid, cgnameOverflows, hw, hper, hpr, hfits,
        newthreadPeriod]
    | false =>
      rw [newthreadOption_other _ hw]
      by_cases hc : cgname s = []
      · simp [newthreadNumber, newthreadInvalid, cgnameOverflows, hw, hc, hpr, hfits,
          rtapiLinelen]
      · simp [newthreadNumber, newthreadInvalid, cgnameOverflows, hw, hc, hper, hpr, hfits,
          newthreadPeriod]

end MachinekitHal
