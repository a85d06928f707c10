import MachinekitHal.Hal.CompiledArrays
import MachinekitHal.Hal.ChangeTracking
import MachinekitHal.Hal.Component
import MachinekitHal.Hal.SignalLinkage

/-!
`hal_rcomp.c`: compiled components.

* `CompiledComp`: `hal_compiled_comp_t`, in the memory of a process.
* `halgCompileComp`: sizes and fills the arrays; `halgCompileComp_cases` says with what.
* `halCcompMatch`, `halCcompReport`: the match and the report.
* `matchEntries_arrays`: the match of `ChangeTracking.lean` has the same result.
* `CcompMatched`: what a match and the report after it should do.
* `ccomp_match_exact`: they do, for the types the match has a case for; `ccomp_match_fails`: the
  report leaves the bitmap as it is, and the 64-bit integer types have no case.

A pin is compiled as its descriptor; what changes in it later is given with the call (`PinEnv`).
-/

namespace MachinekitHal

open Store

/-- `hal_compiled_comp_t`; `comp` is the offset of the component, a place of `pin` may be NULL. -/
structure CompiledComp where
  magic : Bool
  comp : ℕ
  nPins : ℕ
  pin : List (Option (Obj Pin))
  changed : Bitmap.Words 64
  tracking : List HalDataU
  deriving DecidableEq

/-- What is read from the pins, by offset: `eps_index`, and the value the data pointer is at. -/
structure PinEnv where
  epsIndex : ℕ → BitVec 8
  value : ℕ → HalDataU

/-- A pin as the match sees it. -/
def PinEnv.watch (v : PinEnv) (hp : Obj Pin) : Watched :=
  ⟨hp.body.type, v.epsIndex hp.off, v.value hp.off⟩

/-! ### Compiling -/

section Compile

variable (flags : ℕ → BitVec 32)

/-- Whether changes of a pin are tracked, by the `flags` of the pin at an offset. -/
def tracked (o : Obj Pin) : Bool := flags o.off &&& pinDoNotTrack = 0

/-- `count_pins_and_tracked_pins`. -/
def countPinsAndTrackedPins (args : ℕ × ℕ) (o : Obj Pin) : ℕ × ℕ :=
  (args.1 + 1, if tracked flags o then args.2 + 1 else args.2)

/-- `fill_pin_array`: the array and the index in it. -/
def fillPinArray (tc : List (Option (Obj Pin)) × ℕ) (o : Obj Pin) :
    Option (List (Option (Obj Pin)) × ℕ) :=
  if tracked flags o then (store tc.1 tc.2 (some o)).map fun pin => (pin, tc.2 + 1) else some tc

/-- The pins of a component, in the order `halg_foreach` visits them. -/
def Hal.compPins (h : Hal) (comp : Obj Comp) : List (Obj Pin) :=
  h.pins.filter fun o => o.hdr.valid && ownedBy comp.hdr.id.toInt o

/-- `halg_compile_comp`; there is no result when an access is outside an array or the assertion
fails. -/
def Hal.halgCompileComp (e : Mallocs) (name : String) (h : Hal) :
    Option (Except Errno CompiledComp) :=
  if halNameLen < name.length then some (.error .EINVAL) else
  match findByName name h.comps with
  | none => some (.error .EINVAL)
  | some comp =>
    let n := ((h.compPins comp).foldl (countPinsAndTrackedPins flags) (0, 0)).2
    if n = 0 then some (.error .EINVAL) else
    if ¬ (e.struct ∧ e.objs ∧ e.tracking ∧ e.changed) then some (.error .ENOMEM) else
    ((h.compPins comp).foldlM (fillPinArray flags) (List.replicate n none, 0)).bind fun tc =>
      if tc.2 = n then
        some (.ok { magic := true, comp := comp.off, nPins := n, pin := tc.1
                    changed := Bitmap.zero 64 n, tracking := List.replicate n 0 })
      else none

end Compile

/-! ### Matching and reporting -/

section Match

variable (exceeds : BitVec 8 → HalDataU → HalDataU → Bool)

/-- The loop of `hal_ccomp_match`, over `n` pins from `i` on. -/
def ccompMatchLoop (v : PinEnv) (pin : List (Option (Obj Pin))) :
    ℕ → ℕ → MatchState → Option (Option Errno × MatchState)
  | 0, _, s => some (none, s)
  | n + 1, i, s =>
    match pin[i]?.join with
    | none => none
    | some hp =>
      match s.compare exceeds (v.watch hp) i i with
      | none => none
      | some (some e, s) => some (some e, s)
      | some (none, s) => ccompMatchLoop v pin n (i + 1) s

/-- `hal_ccomp_match`. -/
def halCcompMatch (v : PinEnv) (cc : CompiledComp) : Option (Except Errno ℕ × CompiledComp) :=
  if cc.magic = false then none else
  (Bitmap.clear cc.changed cc.nPins).bind fun changed =>
    (ccompMatchLoop exceeds v cc.pin cc.nPins 0 ⟨0, changed, cc.tracking⟩).map fun r =>
      (matchRc r.1 r.2, { cc with changed := r.2.changed, tracking := r.2.tracking })

end Match

/-- `hal_ccomp_report`, with the calls made; a callback gets a pin and its value. -/
def halCcompReport (v : PinEnv) (cc : CompiledComp)
    (reportCb : Option (List (ReportCall (Obj Pin × HalDataU)) → ℤ)) (reportAll : Bool) :
    Option ((ℤ × List (ReportCall (Obj Pin × HalDataU))) × CompiledComp) :=
  (report reportCb (fun i => if reportAll then some true else Bitmap.test cc.changed i)
    (fun i => cc.pin[i]?.join.map fun hp => (hp, v.value hp.off)) cc.nPins).map fun r => (r, cc)

/-- The pins a report is about. -/
def CompiledComp.reported (cc : CompiledComp) (v : PinEnv) (reportAll : Bool) :
    List (Obj Pin × HalDataU) :=
  (cc.pin.reduceOption.zipIdx.filter fun p => reportAll || Bitmap.bit cc.changed p.2).map fun p =>
    (p.1, v.value p.1.off)

/-- **A match** that found `n` changes is exact: the pins that differ from their tracking values
are flagged and counted, their values are taken over and no others, and the same match finds
nothing, if no float differs from itself; and the report after it has every flagged pin once, or
all. -/
structure CcompMatched (exceeds : BitVec 8 → HalDataU → HalDataU → Bool) (v : PinEnv)
    (cc : CompiledComp) (n : ℕ) (cc' : CompiledComp) : Prop where
  pin : cc'.pin = cc.pin
  count : n = (List.range cc.nPins).countP fun i => Bitmap.bit cc'.changed i
  places : ∀ i hp t, cc.pin[i]? = some (some hp) → cc.tracking[i]? = some t →
    Bitmap.bit cc'.changed i = (v.watch hp).differs exceeds t ∧
      cc'.tracking[i]? = some ((v.watch hp).matched exceeds t)
  again : (∀ eps u, exceeds eps u u = false) →
    ∃ cc'', halCcompMatch exceeds v cc' = some (.ok 0, cc'')
  report : ∀ v' cb reportAll, ∃ r, halCcompReport v' cc' (some cb) reportAll = some (r, cc') ∧
    Told cb (reportCalls (cc'.reported v' reportAll)) r

/-! ### Elements and arrays -/

section Elements

variable (exceeds : BitVec 8 → HalDataU → HalDataU → Bool) (eps : ℤ → BitVec 8)
  (value : ℤ → HalDataU) {es : List Compiled}

/-- An element as the loop on the arrays sees it. -/
def Compiled.watched (e : Compiled) : Option Watched :=
  if e.monitored then some ⟨e.type, eps e.handle, value e.handle⟩ else none

/-- The array of the tracking values. -/
def trackings (es : List Compiled) : List HalDataU :=
  es.filterMap fun e => if e.monitored then some e.tracking else none

lemma aligned_watched (es : List Compiled) :
    Aligned (es.map (Compiled.watched eps value)) (trackings es) := by
  induction es with
  | nil => exact .nil
  | cons e es ih =>
    rw [trackings, List.filterMap_cons, List.map_cons, Compiled.watched]
    split_ifs
    · exact ih.watch _ _
    · exact ih.skip

lemma paired_watched (es : List Compiled) :
    paired (es.map (Compiled.watched eps value)) (trackings es) =
      es.map fun e => (e.watched eps value).map fun o => (o, e.tracking) := by
  induction es with
  | nil => rfl
  | cons e es ih =>
    simp only [trackings] at ih
    cases hm : e.monitored <;> simp [paired, Compiled.watched, trackings, hm, ih]

/-- What the match does to one element. -/
lemma Compiled.watched_matched {e : Compiled}
    (hty : e.monitored = true → (toPb e.type 0).isSome = true) :
    e.changes (fun i => exceeds (eps i)) value =
        (e.watched eps value).any (fun o => o.differs exceeds e.tracking) ∧
      ∀ o, e.watched eps value = some o →
        (e.matched (fun i => exceeds (eps i)) value).tracking = o.matched exceeds e.tracking := by
  cases hm : e.monitored with
  | false => simp [changes, watched, hm]
  | true =>
    have hsome := hty hm
    cases ht : e.type <;>
      simp_all [changes, watched, matched, differs, takeOver, clear, Watched.matched,
        Watched.differs, Watched.takeOver, toPb, apply_ite Compiled.tracking]

/-- **The match on elements and that on arrays** count, flag and take over the same. -/
theorem matchEntries_arrays
    (hty : ∀ e ∈ es, e.monitored = true → (toPb e.type 0).isSome = true) :
    ∃ n es' b, matchEntries (fun i => exceeds (eps i)) value es = (some n, es') ∧
      matchLoop exceeds (fun k => (es.map (Compiled.watched eps value))[k]?) es.length 0 0
        ⟨0, Bitmap.zero 64 es.length, trackings es⟩ = some (none, ⟨n, b, trackings es'⟩) ∧
      ∀ j, Bitmap.bit b j = (es'[j]?).any Compiled.changed := by
  have hflag : ∀ e ∈ es, flagged exceeds ((e.watched eps value).map fun o => (o, e.tracking)) =
      e.changes (fun i => exceeds (eps i)) value := fun e he => by
    rw [(e.watched_matched exceeds eps value (hty e he)).1, flagged, Option.any_map]
  have hty' : ∀ o, some o ∈ es.map (Compiled.watched eps value) → matchTypes o.type = true := by
    intro o ho
    obtain ⟨e, he, heq⟩ := List.mem_map.1 ho
    obtain ⟨hm, rfl⟩ : e.monitored = true ∧ _ = o := by simpa [Compiled.watched] using heq
    have hsome := hty e he hm
    cases ht : e.type <;> simp_all [matchTypes, toPb]
  obtain ⟨b, hloop, -, hbits⟩ := matchLoop_eq exceeds _ (aligned_watched eps value es)
    (fun _ _ => rfl) hty'
  rw [paired_watched] at hloop hbits
  refine ⟨_, _, b, matchEntries_eq hty, ?_, fun j => ?_⟩
  · have hvalues : matchedValues exceeds
          (es.map fun e => (e.watched eps value).map fun o => (o, e.tracking)) =
        trackings (es.map (·.matched (fun i => exceeds (eps i)) value)) := by
      rw [matchedValues, trackings, List.filterMap_map, List.filterMap_map]
      refine List.filterMap_congr fun e he => ?_
      have htrack := (e.watched_matched exceeds eps value (hty e he)).2
      cases hm : e.monitored <;> simp_all [Compiled.watched]
    rw [List.length_map, hvalues, List.countP_map] at hloop
    rw [hloop, List.countP_congr fun e he => by rw [Function.comp_apply, hflag e he]]
  · rw [hbits, List.getElem?_map, List.getElem?_map]
    cases he : es[j]? with
    | none => rfl
    | some e => simp [hflag e (List.mem_of_getElem? he)]

end Elements

/-! ### What is compiled -/

variable {flags : ℕ → BitVec 32} {exceeds : BitVec 8 → HalDataU → HalDataU → Bool} {h : Hal}
  {e : Mallocs} {name : String} {cc : CompiledComp} {v : PinEnv}

lemma count_tracked (pins : List (Obj Pin)) (args : ℕ × ℕ) :
    (pins.foldl (countPinsAndTrackedPins flags) args).2 =
      args.2 + (pins.filter (tracked flags)).length := by
  induction pins generalizing args with
  | nil => rfl
  | cons o pins ih =>
    rw [List.foldl_cons, ih]
    by_cases ht : tracked flags o = true
    · simp [countPinsAndTrackedPins, ht]
      omega
    · simp [countPinsAndTrackedPins, ht]

lemma foldlM_fillPinArray (pins : List (Obj Pin)) (tc : List (Option (Obj Pin)) × ℕ) :
    pins.foldlM (fillPinArray flags) tc =
      fill tc.1 tc.2 ((pins.filter (tracked flags)).map some) := by
  induction pins generalizing tc with
  | nil => rfl
  | cons o pins ih =>
    rw [List.foldlM_cons]
    by_cases ht : tracked flags o = true
    · cases hs : store tc.1 tc.2 (some o) with
      | none => simp [fillPinArray, ht, hs, fill]
      | some pin => simp [fillPinArray, ht, hs, fill, ih]
    · simp [fillPinArray, ht, ih]

variable (flags) in
/-- `halg_compile_comp` of a component that is there: it has the tracked pins, at least one, all
with the tracking value 0. -/
lemma halgCompileComp_of_find (e : Mallocs) {h : Hal} {name : String} {comp : Obj Comp}
    {pins : List (Obj Pin)} (hlen : ¬ halNameLen < name.length)
    (hcomp : findByName name h.comps = some comp)
    (hpins : (h.compPins comp).filter (tracked flags) = pins) :
    h.halgCompileComp flags e name = some
      (if pins.length = 0 then .error .EINVAL
      else if ¬ (e.struct ∧ e.objs ∧ e.tracking ∧ e.changed) then .error .ENOMEM
      else .ok { magic := true, comp := comp.off, nPins := pins.length, pin := pins.map some
                 changed := Bitmap.zero 64 pins.length
                 tracking := List.replicate pins.length 0 }) := by
  have hcount : ((h.compPins comp).foldl (countPinsAndTrackedPins flags) (0, 0)).2 =
      pins.length := by
    rw [count_tracked, zero_add, hpins]
  have hfill : (h.compPins comp).foldlM (fillPinArray flags) (List.replicate pins.length none, 0) =
      some (pins.map some, pins.length) := by
    rw [foldlM_fillPinArray, fill_eq (by simp [hpins]), hpins, List.length_map]
  rw [Hal.halgCompileComp, if_neg hlen, hcomp]
  simp only [hcount, hfill, Option.bind_some, if_true]
  split_ifs <;> rfl

variable (flags) in
/-- **`halg_compile_comp`** fails with an error, or has the tracked pins of the component, at
least one, all with the tracking value 0. -/
lemma halgCompileComp_cases (e : Mallocs) (name : String) (h : Hal) :
    (∃ err, h.halgCompileComp flags e name = some (.error err)) ∨
    ∃ comp pins, findByName name h.comps = some comp ∧
      pins = (h.compPins comp).filter (tracked flags) ∧ pins ≠ [] ∧
      h.halgCompileComp flags e name = some (.ok
        { magic := true, comp := comp.off, nPins := pins.length, pin := pins.map some
          changed := Bitmap.zero 64 pins.length, tracking := List.replicate pins.length 0 }) := by
  by_cases hlen : halNameLen < name.length
  · exact .inl ⟨_, if_pos hlen⟩
  cases hcomp : findByName name h.comps with
  | none =>
    rw [Hal.halgCompileComp, if_neg hlen, hcomp]
    exact .inl ⟨_, rfl⟩
  | some comp =>
  have hcompile := halgCompileComp_of_find flags e hlen hcomp rfl
  split_ifs at hcompile with hzero hmem
  · exact .inl ⟨_, hcompile⟩
  · exact .inr ⟨comp, _, rfl, rfl, fun hnil => hzero (List.length_eq_zero_iff.2 hnil), hcompile⟩
  · exact .inl ⟨_, hcompile⟩

/-! ### What is matched -/

/-- The pins of a compiled component, its bitmap and its tracking values have one size. -/
structure CompiledComp.Sized (cc : CompiledComp) (pins : List (Obj Pin)) : Prop where
  magic : cc.magic = true
  nPins : cc.nPins = pins.length
  pin : cc.pin = pins.map some
  changed : cc.changed.length = Bitmap.size 64 pins.length
  tracking : cc.tracking.length = pins.length

/-- The loop has one index only, since every pin is monitored. -/
lemma ccompMatchLoop_eq (pin : List (Option (Obj Pin))) (n i : ℕ) (s : MatchState) :
    ccompMatchLoop exceeds v pin n i s =
      matchLoop exceeds (fun i => pin[i]?.join.map fun hp => some (v.watch hp)) n i i s := by
  induction n generalizing i s with
  | zero => rfl
  | succ n ih =>
    rw [ccompMatchLoop, matchLoop]
    cases pin[i]?.join with
    | none => rfl
    | some hp =>
      simp only [Option.map_some]
      split <;> simp_all

lemma monitored_map_some (os : List Watched) : monitored (os.map some) = os.length := by
  simp [monitored]

namespace CompiledComp.Sized

variable {pins : List (Obj Pin)}

/-- The pins as the loop finds them. -/
def entries (v : PinEnv) (pins : List (Obj Pin)) : List (Option Watched) :=
  (pins.map v.watch).map some

lemma aligned (hs : cc.Sized pins) (v : PinEnv) : Aligned (entries v pins) cc.tracking :=
  aligned_of_length (by rw [entries, monitored_map_some, List.length_map, hs.tracking])

variable (exceeds) in
/-- **The match** in terms of the pairs of pins and tracking values. -/
lemma match_eq (hs : cc.Sized pins) (hty : ∀ hp ∈ pins, matchTypes hp.body.type = true)
    (v : PinEnv) : ∃ b, halCcompMatch exceeds v cc =
      some (.ok ((paired (entries v pins) cc.tracking).countP (flagged exceeds)),
        { cc with changed := b
                  tracking := matchedValues exceeds (paired (entries v pins) cc.tracking) }) ∧
      b.length = Bitmap.size 64 pins.length ∧
      ∀ j, Bitmap.bit b j = ((paired (entries v pins) cc.tracking)[j]?).any (flagged exceeds) := by
  have hlen : (entries v pins).length = pins.length := by simp [entries]
  obtain ⟨b, hloop, hb, hbits⟩ := matchLoop_eq exceeds
    (fun i => cc.pin[i]?.join.map fun hp => some (v.watch hp)) (hs.aligned v)
    (fun k hk => by
      have hk' : k < pins.length := hlen ▸ hk
      simp [hs.pin, entries, List.getElem?_eq_getElem hk'])
    (fun o ho => by
      obtain ⟨hp, hmem, rfl⟩ : ∃ hp ∈ pins, v.watch hp = o := by simpa [entries] using ho
      exact hty hp hmem)
  rw [hlen] at hloop hb
  refine ⟨b, ?_, hb, hbits⟩
  rw [halCcompMatch, hs.magic, if_neg (by simp), hs.nPins, Bitmap.clear_eq hs.changed,
    Option.bind_some, ccompMatchLoop_eq, hloop]
  rfl

variable (exceeds) in
lemma matched (hs : cc.Sized pins) (v : PinEnv) {b : Bitmap.Words 64}
    (hb : b.length = Bitmap.size 64 pins.length) :
    CompiledComp.Sized
      { cc with changed := b
                tracking := matchedValues exceeds (paired (entries v pins) cc.tracking) } pins := by
  refine ⟨hs.magic, hs.nPins, hs.pin, hb, ?_⟩
  rw [((hs.aligned v).matched exceeds).length_eq, entries, monitored_map_some, List.length_map]

lemma report_eq (hs : cc.Sized pins) (v : PinEnv)
    (cb : List (ReportCall (Obj Pin × HalDataU)) → ℤ) (reportAll : Bool) :
    ∃ r, halCcompReport v cc (some cb) reportAll = some (r, cc) ∧
      Told cb (reportCalls (cc.reported v reportAll)) r := by
  set ps := pins.zipIdx.map fun p =>
    ((p.1, v.value p.1.off), reportAll || Bitmap.bit cc.changed p.2) with hps
  have hlen : ps.length = pins.length := by simp [hps]
  have hget : ∀ k (hk : k < pins.length),
      ps[k]? = some ((pins[k], v.value pins[k].off), reportAll || Bitmap.bit cc.changed k) := by
    intro k hk
    simp [hps, List.getElem?_eq_getElem hk]
  obtain ⟨r, hr, htold⟩ := report_told cb
    (fun i => if reportAll then some true else Bitmap.test cc.changed i)
    (fun i => cc.pin[i]?.join.map fun hp => (hp, v.value hp.off))
    (fun k (hk : k < ps.length) => by
      have hk' : k < pins.length := hlen ▸ hk
      rw [hget k hk']
      cases reportAll with
      | true => rfl
      | false =>
        have hw : k / 64 < cc.changed.length := by
          rw [hs.changed]
          exact Bitmap.word_lt (by decide) hk'
        simp [Bitmap.test_eq (by decide : 0 < 64) hw])
    (fun k hk => by
      have hk' : k < pins.length := hlen ▸ hk
      rw [hget k hk']
      simp [hs.pin, List.getElem?_eq_getElem hk'])
  refine ⟨r, ?_, ?_⟩
  · rw [halCcompReport, hs.nPins, ← hlen, hr]
    rfl
  · have hrep : (ps.filter Prod.snd).map Prod.fst = cc.reported v reportAll := by
      rw [CompiledComp.reported, hs.pin, reduceOption_map_some, hps, List.filter_map, List.map_map]
      rfl
    exact hrep ▸ htold

/-- Every pin has the tracking value at its own index. -/
lemma monitored_take {i : ℕ} (hi : i ≤ pins.length) : monitored ((entries v pins).take i) = i := by
  rw [entries, ← List.map_take, monitored_map_some, List.length_take, List.length_map]
  omega

end CompiledComp.Sized

/-! ### The result -/

/-- **`hal_ccomp_match` is exact** for every compiled component, whatever its tracking values and
the values of its pins, if the match has a case for their types. -/
theorem ccomp_match_exact (hc : h.halgCompileComp flags e name = some (.ok cc))
    (hty : ∀ hp, some hp ∈ cc.pin → matchTypes hp.body.type = true)
    {changed : Bitmap.Words 64} {tracking : List HalDataU} (hb : changed.length = cc.changed.length)
    (ht : tracking.length = cc.tracking.length) (v : PinEnv) :
    ∃ n cc', halCcompMatch exceeds v { cc with changed := changed, tracking := tracking } =
        some (.ok n, cc') ∧
      CcompMatched exceeds v { cc with changed := changed, tracking := tracking } n cc' := by
  rcases halgCompileComp_cases flags e name h with
    ⟨err, herr⟩ | ⟨comp, pins, -, -, -, hok⟩
  · rw [herr] at hc
    simp at hc
  rw [hok, Option.some.injEq, Except.ok.injEq] at hc
  subst hc
  set cc : CompiledComp :=
    { magic := true, comp := comp.off, nPins := pins.length, pin := pins.map some
      changed := changed, tracking := tracking } with hcc
  have hs : cc.Sized pins := ⟨rfl, rfl, rfl, by simpa using hb, by simpa using ht⟩
  have hty' : ∀ hp ∈ pins, matchTypes hp.body.type = true :=
    fun hp hmem => hty hp (List.mem_map_of_mem hmem)
  obtain ⟨b, hmatch, hblen, hbits⟩ := hs.match_eq exceeds hty' v
  have hs' := hs.matched exceeds v hblen
  refine ⟨_, _, hmatch, rfl, ?_, ?_, ?_, fun v' cb reportAll => hs'.report_eq v' cb reportAll⟩
  · rw [count_bits (hs.aligned v) hbits]
    simp [CompiledComp.Sized.entries, hs.nPins]
  · intro i hp t hpin htr
    have hpi : pins[i]? = some hp := by simpa [hcc] using hpin
    have hi : i < pins.length := (List.getElem?_eq_some_iff.1 hpi).1
    have hent : (CompiledComp.Sized.entries v pins)[i]? = some (some (v.watch hp)) := by
      simp [CompiledComp.Sized.entries, hpi]
    have htake := CompiledComp.Sized.monitored_take (v := v) hi.le
    obtain ⟨hpair, htaken⟩ := (hs.aligned v).matched_at exceeds hent
      (by rw [htake]; exact htr)
    rw [htake] at htaken
    exact ⟨by simp [hbits, hpair], htaken⟩
  · intro hrefl
    obtain ⟨b', hagain, -⟩ := hs'.match_eq exceeds hty' v
    rw [(hs.aligned v).countP_matched hrefl] at hagain
    exact ⟨_, hagain⟩

/-- A pin that is 1 after a while. -/
def outPin (type : HalType) : Obj Pin :=
  ⟨128, ⟨2, 1, "comp.out", 0, false, true, false, false⟩,
    ⟨none, .dummysig 128, 0, 0, type, .halOut⟩⟩

/-- And another one. -/
def inPin : Obj Pin :=
  ⟨192, ⟨3, 1, "comp.in", 0, false, true, false, false⟩,
    ⟨none, .dummysig 192, 0, 0, .halS32, .halIn⟩⟩

/-- A component with these pins. -/
def twoPins (type : HalType) : Hal := { oneComp with pins := [outPin type, inPin] }

/-- The component compiled. -/
def compiledPins (type : HalType) : CompiledComp :=
  ⟨true, 64, 2, [some (outPin type), some inPin], [0], [0, 0]⟩

lemma compiledPins_type {type : HalType} {hp : Obj Pin} (h : some hp ∈ (compiledPins type).pin) :
    hp.body.type = type ∨ hp.body.type = .halS32 := by
  simp only [compiledPins, List.mem_cons, Option.some.injEq, List.not_mem_nil, or_false] at h
  exact h.imp (congrArg fun o : Obj Pin => o.body.type) (congrArg fun o : Obj Pin => o.body.type)

/-- All pins are 1. -/
def ones : PinEnv := ⟨fun _ => 0, fun _ => 1⟩

lemma compile_bit : (twoPins .halBit).halgCompileComp (fun _ => 0) enough "comp" =
    some (.ok (compiledPins .halBit)) := by decide

lemma compile_s64 : (twoPins .halS64).halgCompileComp (fun _ => 0) enough "comp" =
    some (.ok (compiledPins .halS64)) := by decide

/-- A scan of bit pins. -/
theorem ccomp_match_exact_bit : ∃ n cc',
    halCcompMatch (fun _ _ _ => false) ones (compiledPins .halBit) = some (.ok n, cc') ∧
    CcompMatched (fun _ _ _ => false) ones (compiledPins .halBit) n cc' :=
  ccomp_match_exact compile_bit
    (fun _ hmem => by obtain h | h := compiledPins_type hmem <;> rw [h] <;> rfl)
    (rfl : ([0] : Bitmap.Words 64).length = 1) (rfl : ([0, 0] : List HalDataU).length = 2) ones

/-- The report leaves the flag of the pin that it reported; and a pin of a 64-bit integer type
makes the match fail. -/
theorem ccomp_match_fails :
    (¬ ∀ (h : Hal) (cc cc' cc'' : CompiledComp) (n : ℕ) (v : PinEnv)
        (r : ℤ × List (ReportCall (Obj Pin × HalDataU))),
      h.halgCompileComp (fun _ => 0) enough "comp" = some (.ok cc) →
      halCcompMatch (fun _ _ _ => false) v cc = some (.ok n, cc') →
      halCcompReport v cc' (some fun _ => 0) false = some (r, cc'') →
      ∀ i < cc''.nPins, Bitmap.bit cc''.changed i = false) ∧
    ¬ ∀ (h : Hal) (cc : CompiledComp) (v : PinEnv),
      h.halgCompileComp (fun _ => 0) enough "comp" = some (.ok cc) →
      (∀ hp, some hp ∈ cc.pin → halValidType hp.body.type = true) →
      ∃ n cc', halCcompMatch (fun _ _ _ => false) v cc = some (.ok n, cc') := by
  constructor
  · intro hall
    have hmatch : halCcompMatch (fun _ _ _ => false) ones (compiledPins .halBit) =
        some (.ok 2, { compiledPins .halBit with changed := [3], tracking := [1, 1] }) := by
      decide
    have hbit := hall _ _ _ _ _ _ _ compile_bit hmatch rfl 0 (by decide)
    exact absurd hbit (by decide)
  · intro hall
    obtain ⟨n, cc', hmatch⟩ := hall _ _ ones compile_s64
      fun _ hmem => by obtain h | h := compiledPins_type hmem <;> rw [h] <;> rfl
    have herr : halCcompMatch (fun _ _ _ => false) ones (compiledPins .halS64) =
        some (.error .EINVAL, compiledPins .halS64) := by decide
    rw [herr] at hmatch
    simp at hmatch

end MachinekitHal
