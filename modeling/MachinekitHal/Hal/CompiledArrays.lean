import Mathlib.Data.List.ReduceOption
import MachinekitHal.Lib.Bitmap
import MachinekitHal.Hal.Values

/-!
What `hal_rcomp.c` and `hal_group.c` share: the arrays of a compiled component or group, and
the loop that compares values with them.

Objects are compared with the array of tracking values, which has a place for every monitored
object, and flagged in a bitmap, which has a bit for every object. An access outside an array has
no result.

* `Watched`: a pin or a signal as the `switch` of the loop sees it; `MatchState.compare` is one
  pass of it.
* `paired`: the objects with their tracking values; `matchLoop_eq` is the result of the loop in
  terms of the pairs.
* `Reporting`, `reportLoop`: the calls of a report callback; `reportLoop_eq`.

Whether a float differs by more than its epsilon is a parameter.
-/

namespace MachinekitHal

/-- What `malloc` answers for the structure and its arrays, in the order of the requests. -/
structure Mallocs where
  struct : Bool
  objs : Bool
  tracking : Bool
  changed : Bool

/-- Every `malloc` succeeds. -/
def enough : Mallocs := ⟨true, true, true, true⟩

/-- The type, the epsilon index and the value of a pin or signal. -/
structure Watched where
  type : HalType
  eps : BitVec 8
  value : HalDataU
  deriving DecidableEq

/-- The variables of the loop: `nchanged`, the bitmap and the tracking values. -/
structure MatchState where
  nchanged : ℕ
  changed : Bitmap.Words 64
  tracking : List HalDataU
  deriving DecidableEq

/-- The types that the `switch` has a case for. -/
def matchTypes : HalType → Bool
  | .halBit | .halFloat | .halS32 | .halU32 => true
  | _ => false

section

variable (exceeds : BitVec 8 → HalDataU → HalDataU → Bool)

namespace Watched

/-- Whether the value differs from the tracking value. -/
def differs (o : Watched) (t : HalDataU) : Bool :=
  match o.type with
  | .halBit => getBitValue t ≠ getBitValue o.value
  | .halFloat => exceeds o.eps o.value t
  | .halS32 | .halU32 => get32Value t ≠ get32Value o.value
  | _ => false

/-- The tracking value after the value was stored in it. -/
def takeOver (o : Watched) (t : HalDataU) : HalDataU :=
  match o.type with
  | .halBit => setBitValue t o.value
  | .halS32 | .halU32 => set32Value t o.value
  | _ => o.value

/-- The tracking value after a match. -/
def matched (o : Watched) (t : HalDataU) : HalDataU :=
  if o.differs exceeds t then o.takeOver t else t

end Watched

/-- One pass of the `switch`: compare with `tracking[m]`, flag at `i`. The error is that of the
`default` case. -/
def MatchState.compare (o : Watched) (i m : ℕ) (s : MatchState) :
    Option (Option Errno × MatchState) :=
  if matchTypes o.type then
    s.tracking[m]?.bind fun t =>
      if o.differs exceeds t then
        (Bitmap.set s.changed i).bind fun changed =>
          (store s.tracking m (o.takeOver t)).map fun tracking =>
            (none, ⟨s.nchanged + 1, changed, tracking⟩)
      else some (none, s)
  else some (some .EINVAL, s)

/-- The loop over `n` objects from `i` on, where `m` tracking values were used. `entry` is what
is found at an index: nothing that can be read, an object that is not monitored, or one that
is. -/
def matchLoop (entry : ℕ → Option (Option Watched)) :
    ℕ → ℕ → ℕ → MatchState → Option (Option Errno × MatchState)
  | 0, _, _, s => some (none, s)
  | n + 1, i, m, s =>
    match entry i with
    | none => none
    | some none => matchLoop entry n (i + 1) m s
    | some (some o) =>
      match s.compare exceeds o i m with
      | none => none
      | some (some e, s) => some (some e, s)
      | some (none, s) => matchLoop entry n (i + 1) (m + 1) s

/-- The value a match returns. -/
def matchRc (e : Option Errno) (s : MatchState) : Except Errno ℕ :=
  match e with
  | none => .ok s.nchanged
  | some e => .error e

/-! ### The pairs -/

/-- The objects with their tracking values. -/
def paired : List (Option Watched) → List HalDataU → List (Option (Watched × HalDataU))
  | none :: es, ts => none :: paired es ts
  | some o :: es, t :: ts => some (o, t) :: paired es ts
  | _, _ => []

/-- A monitored object whose value differs. -/
def flagged (p : Option (Watched × HalDataU)) : Bool := p.any fun q => q.1.differs exceeds q.2

/-- The tracking values after a match. -/
def matchedValues (ps : List (Option (Watched × HalDataU))) : List HalDataU :=
  ps.filterMap fun p => p.map fun q => q.1.matched exceeds q.2

end

/-- The number of monitored objects. -/
def monitored (es : List (Option Watched)) : ℕ := es.countP Option.isSome

/-- There is one tracking value for every monitored object. -/
inductive Aligned : List (Option Watched) → List HalDataU → Prop where
  | nil : Aligned [] []
  | skip {es ts} (h : Aligned es ts) : Aligned (none :: es) ts
  | watch {es ts} (o : Watched) (t : HalDataU) (h : Aligned es ts) :
      Aligned (some o :: es) (t :: ts)

variable {exceeds : BitVec 8 → HalDataU → HalDataU → Bool} {es : List (Option Watched)}
  {ts : List HalDataU} {o : Watched} {i j m : ℕ}

@[simp] lemma flagged_none : flagged exceeds none = false := rfl

@[simp] lemma flagged_some (o : Watched) (t : HalDataU) :
    flagged exceeds (some (o, t)) = o.differs exceeds t := rfl

/-- After a match a value does not differ, if the test for floats says so of equal values. -/
lemma Watched.differs_matched (hrefl : ∀ e v, exceeds e v v = false) (o : Watched)
    (t : HalDataU) : o.differs exceeds (o.matched exceeds t) = false := by
  rw [matched]
  split_ifs with hd
  · cases ht : o.type <;> simp [differs, takeOver, ht, hrefl]
  · simpa using hd

lemma aligned_of_length (h : ts.length = monitored es) : Aligned es ts := by
  induction es generalizing ts with
  | nil => exact List.length_eq_zero_iff.1 h ▸ .nil
  | cons e es ih =>
    cases e with
    | none => exact .skip (ih (by simpa [monitored] using h))
    | some o =>
      cases ts with
      | nil => simp [monitored] at h
      | cons t ts => exact .watch o t (ih (by simpa [monitored] using h))

namespace Aligned

lemma length_eq (h : Aligned es ts) : ts.length = monitored es := by
  induction h with
  | nil => rfl
  | skip _ ih => simpa [monitored] using ih
  | watch o t _ ih => simpa [monitored] using ih

lemma length_paired (h : Aligned es ts) : (paired es ts).length = es.length := by
  induction h with
  | nil => rfl
  | skip _ ih => simpa [paired] using ih
  | watch o t _ ih => simpa [paired] using ih

variable (exceeds) in
/-- A match keeps the tracking values in line. -/
lemma matched (h : Aligned es ts) : Aligned es (matchedValues exceeds (paired es ts)) := by
  induction h with
  | nil => exact .nil
  | skip _ ih => exact .skip (by simpa [paired, matchedValues] using ih)
  | watch o t _ ih => exact .watch o _ (by simpa [matchedValues] using ih)

/-- The pairs after a match are those before it, with the tracking values matched. -/
lemma paired_matched (h : Aligned es ts) :
    paired es (matchedValues exceeds (paired es ts)) =
      (paired es ts).map fun p => p.map fun q => (q.1, q.1.matched exceeds q.2) := by
  induction h with
  | nil => rfl
  | skip _ ih => simpa [paired, matchedValues] using ih
  | watch o t _ ih => simpa [paired, matchedValues] using ih

/-- A monitored object is paired with the tracking value at the number of monitored objects
before it. -/
lemma paired_some (h : Aligned es ts) (hj : es[j]? = some (some o)) :
    ∃ t, ts[monitored (es.take j)]? = some t ∧ (paired es ts)[j]? = some (some (o, t)) := by
  induction h generalizing j with
  | nil => simp at hj
  | skip _ ih =>
    cases j with
    | zero => simp at hj
    | succ j =>
      obtain ⟨t, ht, hp⟩ := ih (by simpa using hj)
      exact ⟨t, by simpa [monitored] using ht, by simpa [paired] using hp⟩
  | watch o' t _ ih =>
    cases j with
    | zero =>
      obtain rfl : o' = o := by simpa using hj
      exact ⟨t, by simp [monitored], by simp [paired]⟩
    | succ j =>
      obtain ⟨t', ht, hp⟩ := ih (by simpa using hj)
      exact ⟨t', by simpa [monitored] using ht, by simpa [paired] using hp⟩

variable (exceeds) in
/-- What a match does to a monitored object: its pair, and its tracking value afterwards. -/
lemma matched_at {t : HalDataU} (h : Aligned es ts) (hj : es[j]? = some (some o))
    (ht : ts[monitored (es.take j)]? = some t) :
    (paired es ts)[j]? = some (some (o, t)) ∧
      (matchedValues exceeds (paired es ts))[monitored (es.take j)]? =
        some (o.matched exceeds t) := by
  obtain ⟨t', ht', hp⟩ := h.paired_some hj
  obtain rfl : t' = t := Option.some.inj (ht'.symm.trans ht)
  obtain ⟨t'', ht'', hp'⟩ := (h.matched exceeds).paired_some hj
  rw [h.paired_matched, List.getElem?_map, hp] at hp'
  have heq : o.matched exceeds t' = t'' := by simpa using hp'
  exact ⟨hp, by rw [ht'', heq]⟩

/-- An object that is not monitored is paired with nothing. -/
lemma paired_none (h : Aligned es ts) (hj : es[j]? = some none) :
    (paired es ts)[j]? = some none := by
  induction h generalizing j with
  | nil => simp at hj
  | skip _ ih =>
    cases j with
    | zero => rfl
    | succ j => simpa [paired] using ih (by simpa using hj)
  | watch o' t _ ih =>
    cases j with
    | zero => simp at hj
    | succ j => simpa [paired] using ih (by simpa using hj)

/-- After a match nothing differs. -/
lemma countP_matched (hrefl : ∀ e v, exceeds e v v = false) (h : Aligned es ts) :
    (paired es (matchedValues exceeds (paired es ts))).countP (flagged exceeds) = 0 := by
  rw [h.paired_matched, List.countP_map, List.countP_eq_zero]
  rintro (_ | ⟨o, t⟩) -
  · simp
  · simp [o.differs_matched hrefl t]

end Aligned

/-! ### The loop -/

variable (exceeds) in
/-- One pass on a type that has a case. -/
lemma compare_eq (done ts : List HalDataU) (t : HalDataU) (c : ℕ) {b : Bitmap.Words 64}
    (ht : matchTypes o.type = true) (hi : i / 64 < b.length) :
    ∃ b', MatchState.compare exceeds o i done.length ⟨c, b, done ++ t :: ts⟩ =
        some (none, ⟨c + (if o.differs exceeds t then 1 else 0), b',
          done ++ o.matched exceeds t :: ts⟩) ∧
      b'.length = b.length ∧
      ∀ j, Bitmap.bit b' j = (Bitmap.bit b j || decide (j = i) && o.differs exceeds t) := by
  by_cases hd : o.differs exceeds t = true
  · obtain ⟨b', hset, hlen, hbits⟩ := Bitmap.set_eq (by decide : 0 < 64) hi
    refine ⟨b', ?_, hlen, fun j => ?_⟩
    · simp [MatchState.compare, ht, hd, hset, store, Watched.matched]
    · rw [hbits, hd, Bool.and_true, Bool.or_comm]
  · refine ⟨b, ?_, rfl, fun j => ?_⟩
    · simp [MatchState.compare, ht, hd, Watched.matched]
    · simp [hd]

/-- A flag of a list from `i` on: that of its head, or one of its tail. -/
lemma any_cons {α : Type} (f : α → Bool) (p : α) (ps : List α) (i j : ℕ) :
    (decide (i ≤ j) && ((p :: ps)[j - i]?).any f) =
      ((decide (j = i) && f p) || (decide (i + 1 ≤ j) && (ps[j - (i + 1)]?).any f)) := by
  rcases lt_trichotomy j i with hlt | rfl | hlt
  · simp [not_le.2 hlt, hlt.ne, show ¬ i + 1 ≤ j by omega]
  · simp
  · obtain ⟨k, rfl⟩ : ∃ k, j = i + 1 + k := ⟨j - (i + 1), by omega⟩
    have hne : i + 1 + k ≠ i := by omega
    have hle : i ≤ i + 1 + k := by omega
    simp [show i + 1 + k - i = k + 1 by omega, hne, hle]

variable (exceeds) in
/-- **The loop** on what is left of the objects: it ends without an error and without an access
outside the arrays, counts and flags the objects that differ, and takes over their values. -/
lemma matchLoop_suffix {entry : ℕ → Option (Option Watched)} (i : ℕ) (done : List HalDataU)
    (c : ℕ) (b : Bitmap.Words 64) (h : Aligned es ts)
    (hentry : ∀ k, k < es.length → entry (i + k) = es[k]?)
    (hty : ∀ o, some o ∈ es → matchTypes o.type = true)
    (hb : ∀ k, k < es.length → (i + k) / 64 < b.length) :
    ∃ b', matchLoop exceeds entry es.length i done.length ⟨c, b, done ++ ts⟩ =
        some (none, ⟨c + (paired es ts).countP (flagged exceeds), b',
          done ++ matchedValues exceeds (paired es ts)⟩) ∧
      b'.length = b.length ∧
      ∀ j, Bitmap.bit b' j = (Bitmap.bit b j ||
        decide (i ≤ j) && ((paired es ts)[j - i]?).any (flagged exceeds)) := by
  induction h generalizing i done c b with
  | nil => exact ⟨b, by simp [matchLoop, paired, matchedValues], rfl, by simp [paired]⟩
  | @skip es ts h ih =>
    have hhead : entry i = some none := by simpa using hentry 0 (by simp)
    obtain ⟨b', hloop, hl, hbits⟩ := ih (i + 1) done c b
      (fun k hk => by simpa [add_assoc, add_comm 1 k] using hentry (k + 1) (by simpa using hk))
      (fun o ho => hty o (.tail _ ho))
      (fun k hk => by simpa [add_assoc, add_comm 1 k] using hb (k + 1) (by simpa using hk))
    refine ⟨b', ?_, hl, fun j => ?_⟩
    · simpa [matchLoop, hhead, paired, matchedValues, flagged] using hloop
    · rw [hbits, paired, any_cons]
      simp
  | @watch es ts o t h ih =>
    have hhead : entry i = some (some o) := by simpa using hentry 0 (by simp)
    obtain ⟨b₁, hcmp, hl₁, hbits₁⟩ := compare_eq exceeds done ts t c
      (hty o (.head _)) (by simpa using hb 0 (by simp))
    obtain ⟨b', hloop, hl, hbits⟩ := ih (i + 1) (done ++ [o.matched exceeds t])
      (c + (if o.differs exceeds t then 1 else 0)) b₁
      (fun k hk => by simpa [add_assoc, add_comm 1 k] using hentry (k + 1) (by simpa using hk))
      (fun o ho => hty o (.tail _ ho))
      (fun k hk => by
        simpa [hl₁, add_assoc, add_comm 1 k] using hb (k + 1) (by simpa using hk))
    refine ⟨b', ?_, hl.trans hl₁, fun j => ?_⟩
    · rw [List.length_cons, matchLoop, hhead]
      simp only [hcmp]
      simp only [List.length_append, List.length_cons, List.length_nil, zero_add,
        List.append_assoc, List.singleton_append] at hloop
      rw [hloop]
      have hcount : (paired (some o :: es) (t :: ts)).countP (flagged exceeds) =
          (if o.differs exceeds t then 1 else 0) + (paired es ts).countP (flagged exceeds) := by
        rw [paired, List.countP_cons, flagged_some, add_comm]
      rw [hcount, ← add_assoc]
      simp [paired, matchedValues]
    · rw [hbits, hbits₁, paired, any_cons, Bool.or_assoc]
      simp

variable (exceeds) in
/-- **The loop** over all objects, from an empty bitmap. -/
theorem matchLoop_eq (entry : ℕ → Option (Option Watched)) (h : Aligned es ts)
    (hentry : ∀ k, k < es.length → entry k = es[k]?)
    (hty : ∀ o, some o ∈ es → matchTypes o.type = true) :
    ∃ b, matchLoop exceeds entry es.length 0 0 ⟨0, Bitmap.zero 64 es.length, ts⟩ =
        some (none, ⟨(paired es ts).countP (flagged exceeds), b,
          matchedValues exceeds (paired es ts)⟩) ∧
      b.length = Bitmap.size 64 es.length ∧
      ∀ j, Bitmap.bit b j = ((paired es ts)[j]?).any (flagged exceeds) := by
  have hwords : ∀ k, k < es.length → (0 + k) / 64 < (Bitmap.zero 64 es.length).length := by
    intro k hk
    rw [zero_add, Bitmap.length_zero]
    exact Bitmap.word_lt (by decide) hk
  obtain ⟨b, hloop, hlen, hbits⟩ := matchLoop_suffix exceeds 0 [] 0 _ h
    (by simpa using hentry) hty hwords
  refine ⟨b, by simpa using hloop, by simpa using hlen, fun j => ?_⟩
  rw [hbits]
  simp

/-- The count is the number of the bits set. -/
lemma count_bits {b : Bitmap.Words 64} (h : Aligned es ts)
    (hbits : ∀ j, Bitmap.bit b j = ((paired es ts)[j]?).any (flagged exceeds)) :
    (paired es ts).countP (flagged exceeds) =
      (List.range es.length).countP fun j => Bitmap.bit b j := by
  rw [countP_index, h.length_paired]
  exact List.countP_congr fun j _ => by rw [hbits]

/-! ### Reports -/

section Report

variable {α : Type}

/-- Of an array that is filled, all is left. -/
lemma reduceOption_map_some (l : List α) : (l.map some).reduceOption = l := by
  induction l with
  | nil => rfl
  | cons x l ih => rw [List.map_cons, List.reduceOption_cons_of_some, ih]

/-- The calls of a report callback, by phase. -/
inductive ReportCall (α : Type) where
  | reportBegin | reportItem (x : α) | reportEnd
  deriving DecidableEq

/-- The part of a report after `REPORT_BEGIN`, for `n` objects from `i` on, after the calls
`calls`. `cb` is the answer to the last call after those before it. -/
def reportLoop (cb : List (ReportCall α) → ℤ) (flag : ℕ → Option Bool) (obj : ℕ → Option α) :
    ℕ → ℕ → List (ReportCall α) → Option (ℤ × List (ReportCall α))
  | 0, _, calls => some (cb (calls ++ [.reportEnd]), calls ++ [.reportEnd])
  | n + 1, i, calls =>
    match flag i with
    | none => none
    | some false => reportLoop cb flag obj n (i + 1) calls
    | some true =>
      match obj i with
      | none => none
      | some x =>
        if cb (calls ++ [.reportItem x]) < 0 then
          some (cb (calls ++ [.reportItem x]), calls ++ [.reportItem x])
        else reportLoop cb flag obj n (i + 1) (calls ++ [.reportItem x])

/-- A report, which needs a callback. -/
def report (cb : Option (List (ReportCall α) → ℤ)) (flag : ℕ → Option Bool) (obj : ℕ → Option α)
    (n : ℕ) : Option (ℤ × List (ReportCall α)) :=
  match cb with
  | none => some (0, [])
  | some cb =>
    if cb [.reportBegin] < 0 then some (cb [.reportBegin], [.reportBegin])
    else reportLoop cb flag obj n 0 [.reportBegin]

/-- The calls of a report on some objects, when every call is answered with success. -/
def reportCalls (xs : List α) : List (ReportCall α) :=
  .reportBegin :: xs.map .reportItem ++ [.reportEnd]

/-- The calls made and the result: all calls, or those up to the first that fails. -/
structure Told (cb : List (ReportCall α) → ℤ) (full : List (ReportCall α))
    (r : ℤ × List (ReportCall α)) : Prop where
  pre : r.2 <+: full
  result : r.1 = cb r.2
  ends : r.2 = full ∨ r.1 < 0
  before : ∀ p, p ≠ [] → p <+: r.2 → p ≠ r.2 → 0 ≤ cb p

variable {cb : List (ReportCall α) → ℤ} {flag : ℕ → Option Bool} {obj : ℕ → Option α}

/-- A report whose calls all succeed makes all of them. -/
lemma Told.all {full : List (ReportCall α)} {r : ℤ × List (ReportCall α)} (h : Told cb full r)
    (hcb : ∀ p, 0 ≤ cb p) : r = (cb full, full) := by
  rcases h.ends with he | he
  · exact Prod.ext (by rw [h.result, he]) he
  · rw [h.result] at he
    exact absurd he (hcb _).not_gt

/-- The proper prefixes of one more call are those of the calls before. -/
lemma ok_concat {calls : List (ReportCall α)} {c : ReportCall α}
    (hok : ∀ p, p ≠ [] → p <+: calls → 0 ≤ cb p) :
    ∀ p, p ≠ [] → p <+: calls ++ [c] → p ≠ calls ++ [c] → 0 ≤ cb p := by
  intro p hp hpre hne
  rcases List.prefix_concat_iff.1 hpre with he | he
  · exact absurd he hne
  · exact hok p hp he

/-- **A report** on what is left: `ps` are the objects with their flags. -/
lemma reportLoop_told {ps : List (α × Bool)} {i : ℕ} {calls : List (ReportCall α)}
    (hflag : ∀ k, k < ps.length → flag (i + k) = (ps[k]?).map Prod.snd)
    (hobj : ∀ k, k < ps.length → obj (i + k) = (ps[k]?).map Prod.fst)
    (hok : ∀ p, p ≠ [] → p <+: calls → 0 ≤ cb p) :
    ∃ r, reportLoop cb flag obj ps.length i calls = some r ∧
      Told cb (calls ++ ((ps.filter Prod.snd).map Prod.fst).map .reportItem ++ [.reportEnd]) r := by
  induction ps generalizing i calls with
  | nil => exact ⟨_, rfl, by simp, rfl, .inl (by simp), by simpa using ok_concat hok⟩
  | cons p ps ih =>
    obtain ⟨x, f⟩ := p
    have hf : flag i = some f := by simpa using hflag 0 (by simp)
    have hx : obj i = some x := by simpa using hobj 0 (by simp)
    have hflag' : ∀ k, k < ps.length → flag (i + 1 + k) = (ps[k]?).map Prod.snd := fun k hk => by
      simpa [add_assoc, add_comm 1 k] using hflag (k + 1) (by simpa using hk)
    have hobj' : ∀ k, k < ps.length → obj (i + 1 + k) = (ps[k]?).map Prod.fst := fun k hk => by
      simpa [add_assoc, add_comm 1 k] using hobj (k + 1) (by simpa using hk)
    cases f with
    | false => simpa [reportLoop, hf] using ih hflag' hobj' hok
    | true =>
      rw [List.length_cons, reportLoop, hf]
      simp only [hx]
      split_ifs with hneg
      · refine ⟨_, rfl, ⟨((ps.filter Prod.snd).map Prod.fst).map .reportItem ++ [.reportEnd], ?_⟩,
          rfl, .inr hneg, ok_concat hok⟩
        simp
      · have hok' : ∀ p, p ≠ [] → p <+: calls ++ [.reportItem x] → 0 ≤ cb p := by
          intro p hp hpre
          by_cases he : p = calls ++ [.reportItem x]
          · exact he ▸ not_lt.1 hneg
          · exact ok_concat hok p hp hpre he
        simpa using ih hflag' hobj' hok'

variable (cb flag obj) in
/-- **A report** of the objects that are flagged. -/
theorem report_told {ps : List (α × Bool)}
    (hflag : ∀ k, k < ps.length → flag k = (ps[k]?).map Prod.snd)
    (hobj : ∀ k, k < ps.length → obj k = (ps[k]?).map Prod.fst) :
    ∃ r, report (some cb) flag obj ps.length = some r ∧
      Told cb (reportCalls ((ps.filter Prod.snd).map Prod.fst)) r := by
  have hfirst : ∀ p : List (ReportCall α), p ≠ [] → p <+: [.reportBegin] → p = [.reportBegin] := by
    intro p hp hpre
    have hcat : p <+: [] ++ [ReportCall.reportBegin] := hpre
    exact (List.prefix_concat_iff.1 hcat).resolve_right fun he => hp (List.prefix_nil.1 he)
  rw [report]
  split_ifs with hneg
  · exact ⟨_, rfl, ⟨_, rfl⟩, rfl, .inr hneg, fun p hp hpre hne => absurd (hfirst p hp hpre) hne⟩
  · have hok : ∀ p, p ≠ [] → p <+: [ReportCall.reportBegin] → 0 ≤ cb p := by
      intro p hp hpre
      rw [hfirst p hp hpre]
      exact not_lt.1 hneg
    simpa [reportCalls] using reportLoop_told (i := 0) (by simpa using hflag)
      (by simpa using hobj) hok

end Report

end MachinekitHal
