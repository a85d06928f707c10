import MachinekitHal.Hal.Signal
import MachinekitHal.Hal.Barriers
import MachinekitHal.Hal.Wiring

/-!
`halcmd_commands.c`: the command `net`.

* `preflightPin`, `preflightNetCmd`: the checks that are made in front of any change. `NetError`
  is what their messages say.
* `linkPins`, `doNetCmd`: the command.
* `Obj.admits`: what `halg_link` demands of a pin; `halgLink_admits` is its result.
* `LinkView`: what a new link changes.
* `Hal.joins`: a list of pins fits on a signal; `linkPins_iff`: then, and only then, all links
  are made.
-/

namespace MachinekitHal

/-- `signal_of`, as an offset. -/
def signalOf (pin : Obj Pin) : Option ℕ :=
  if pin.body.signal ≠ 0 then some pin.body.signal else none

/-- The messages of `preflight_net_cmd`, with what they name. -/
inductive NetError where
  /-- Pin '%s' does not exist -/
  | noPin (pin : String)
  /-- Pin '%s' was already linked to signal '%s' -/
  | linked (pin : String) (sig : Option String)
  /-- Signal '%s' of type '%s' cannot add pin '%s' of type '%s' -/
  | type (signal : String) (type : HalType) (pin : String) (pinType : HalType)
  /-- Signal '%s' can not add %s pin '%s', it already has %s pin '%s' -/
  | dir (signal : String) (dir : HalPinDir) (pin : String) (has : HalPinDir)
      (other : Option String)
  /-- 'net' requires at least one pin, none given -/
  | noPins
  deriving DecidableEq

/-- What is returned with the message. -/
def NetError.errno : NetError → Errno
  | .noPin _ => .ENOENT
  | _ => .EINVAL

/-- The variables of `preflight_net_cmd`; no type is the type `-1`. -/
structure NetCheck where
  type : Option HalType
  writers : ℤ
  bidirs : ℤ
  pincnt : ℕ
  writerName : Option String
  bidirName : Option String

/-- The names up to the first one that is empty. -/
def netPins (pins : List String) : List String := pins.takeWhile (· ≠ "")

namespace Hal

variable (h : Hal)

/-- `halg_foreach` with `find_modifier`: the name of the first pin of direction `dir` on the
signal at `sig`. -/
def findModifier (sig : ℕ) (dir : HalPinDir) : Option String :=
  (h.pins.find? fun p => p.hdr.valid && (signalOf p == some sig && p.body.dir == dir)).map
    fun p => p.hdr.name

/-- The variables in front of the loop: if the signal already exists, its info is used. -/
def netStart : Option (Obj Sig) → NetCheck
  | none => ⟨none, 0, 0, 0, none, none⟩
  | some sig =>
    if sig.body.writers ≠ 0 ∨ sig.body.bidirs ≠ 0 then
      let bidir := h.findModifier sig.off .halIo
      ⟨some sig.body.type, sig.body.writers, sig.body.bidirs, 0,
        bidir.or (h.findModifier sig.off .halOut), bidir⟩
    else ⟨some sig.body.type, sig.body.writers, sig.body.bidirs, 0, none, none⟩

/-- The message at `dir_error`. -/
def dirError (signal : String) (pin : Obj Pin) (c : NetCheck) : NetError :=
  .dir signal pin.body.dir pin.hdr.name (if c.bidirName.isSome then .halIo else .halOut)
    (c.bidirName.or c.writerName)

/-- One round of the loop of `preflight_net_cmd`. -/
def preflightPin (signal : String) (sig : Option (Obj Sig)) (c : NetCheck) (name : String) :
    Except NetError NetCheck :=
  match findByName name h.pins with
  | none => .error (.noPin name)
  | some pin =>
  -- already on this signal
  if signalOf pin = sig.map Obj.off then .ok { c with pincnt := c.pincnt + 1 } else
  if pinIsLinked pin then
    .error (.linked pin.hdr.name ((h.sigAt pin.body.signal).map fun g => g.hdr.name))
  else
  -- without a type use this pin's type
  let type := c.type.getD pin.body.type
  if type ≠ pin.body.type then .error (.type signal type pin.hdr.name pin.body.type) else
  if pin.body.dir = .halOut ∧ (c.writers ≠ 0 ∨ c.bidirs ≠ 0) then
    .error (dirError signal pin c)
  else
  if pin.body.dir = .halIo ∧ c.writers ≠ 0 then .error (dirError signal pin c) else
  .ok { type := some type
        writers := if pin.body.dir = .halOut then c.writers + 1 else c.writers
        bidirs := if pin.body.dir = .halIo then c.bidirs + 1 else c.bidirs
        pincnt := c.pincnt + 1
        writerName := if pin.body.dir = .halOut then some pin.hdr.name else c.writerName
        bidirName := if pin.body.dir = .halIo then some pin.hdr.name else c.bidirName }

/-- The loop. -/
def preflightPins (signal : String) (sig : Option (Obj Sig)) :
    NetCheck → List String → Except NetError NetCheck
  | c, [] => .ok c
  | c, name :: names =>
    match h.preflightPin signal sig c name with
    | .error e => .error e
    | .ok c => preflightPins signal sig c names

/-- `preflight_net_cmd`. -/
def preflightNetCmd (signal : String) (sig : Option (Obj Sig)) (pins : List String) :
    Except NetError Unit :=
  match h.preflightPins signal sig (h.netStart sig) (netPins pins) with
  | .error e => .error e
  | .ok c => if c.pincnt ≠ 0 then .ok () else .error .noPins

end Hal

/-- Add pins to the signal with `do_linkps_cmd`, up to the first error. -/
def linkPins (signal : String) : Hal → List String → Option Errno × Hal
  | h, [] => (none, h)
  | h, name :: names =>
    match h.halgLink name signal with
    | (some e, h) => (some e, h)
    | (none, h) => linkPins signal h names

/-- `do_net_cmd`. -/
def Hal.doNetCmd (h : Hal) (mem : Option Alloc) (signal : String) (pins : List String) :
    Option Errno × Hal :=
  -- see if signal already exists
  let sig := findByName signal h.sigs
  -- verify that everything matches up (pin types, etc)
  match h.preflightNetCmd signal sig pins with
  | .error e => (some e.errno, h)
  | .ok () =>
  if (findByName signal h.pins).isSome then (some .ENOENT, h) else
  match sig with
  | none =>
    -- create the signal with the type of the first pin
    match pins.head?.bind fun name => findByName name h.pins with
    | none => (some .ENOENT, h)
    | some pin =>
      match h.halgSignalNew mem signal pin.body.type with
      | (some e, h) => (some e, h)
      | (none, h) => linkPins signal h (netPins pins)
  | some _ => linkPins signal h (netPins pins)

end MachinekitHal

namespace MachinekitHal

open Store

/-! ### One link -/

/-- Two pins of these directions exclude each other on a signal. -/
def HalPinDir.clash (d d' : HalPinDir) : Bool :=
  (d = .halOut ∧ (d' = .halOut ∨ d' = .halIo)) ∨ (d = .halIo ∧ d' = .halOut)

lemma HalPinDir.clash_comm (d d' : HalPinDir) : d.clash d' = d'.clash d := by
  cases d <;> cases d' <;> rfl

/-- The pin is on the signal, or may be linked to it. -/
def Obj.admits (g : Obj Sig) (p : Obj Pin) : Prop :=
  p.body.signal = g.off ∨ (pinIsLinked p = false ∧ p.body.type = g.body.type ∧
    (p.body.dir = .halOut → g.body.writers ≤ 0 ∧ g.body.bidirs ≤ 0) ∧
    (p.body.dir = .halIo → g.body.writers ≤ 0))

/-- What a new link of the pin `p` to the signal `g` changes. -/
structure LinkView (h h' : Hal) (p : Obj Pin) (g : Obj Sig) : Prop where
  lock : h'.lock = h.lock
  pins : ∃ T : Obj Pin → Obj Pin, h'.pins = h.pins.map T ∧
    (∀ o, (T o).off = o.off ∧ (T o).hdr.name = o.hdr.name ∧ (T o).hdr.valid = o.hdr.valid ∧
      (T o).body.type = o.body.type ∧ (T o).body.dir = o.body.dir) ∧
    (∀ o, o.off = p.off → (T o).body.signal = g.off) ∧
    (∀ o, o.off ≠ p.off → (T o).body.signal = o.body.signal ∧ pinIsLinked (T o) = pinIsLinked o)
  sigs : ∃ v, h'.sigs = modify Obj.off g.off
    (fun o => { o with body := { o.body.count p.body.dir with value := v } }) h.sigs

section

variable {h h' : Hal} {p : Obj Pin} {g : Obj Sig} {name signal : String}

/-- `halg_link` of a pin that passes the checks. -/
lemma linkPin_view (hL : Linkage h.asV2) (hg : g ∈ h.sigs) (hgv : g.hdr.valid = true)
    (htype : p.body.type = g.body.type) :
    (h.linkPin p g).1 = none ∧ LinkView h (h.linkPin p g).2 p g := by
  have hkeys := hL.pinKeys_asV2
  rw [Hal.linkPin]
  cases hval : (if p.body.dir = .halOut ∨ g.body.readers + g.body.writers + g.body.bidirs = 0 then
      copyValue p.body.type g.body.value
        (((h.setCell p (.value g.off)).modifyPin p.off
          fun q => { q with dataPtr := .value g.off }).pinValue p)
      else some g.body.value) with
  | none =>
    -- a valid signal has a type with a case in the copy
    split_ifs at hval
    have ht := (hL.sigs g hg hgv).type
    rw [← htype, copyValue_isSome p.body.type 0 0 g.body.value _, hval] at ht
    cases ht
  | some v =>
    refine ⟨rfl, ?_⟩
    simp only
    rw [modifyPin_modifyPin]
    let f : Sig → Sig := fun g' => { g'.count p.body.dir with value := v }
    let F : Pin → Pin := fun q => { q with dataPtr := .value g.off, signal := g.off }
    obtain ⟨s, hs⟩ : ∃ s, s = h.repoint p (.value g.off) g.off f F := ⟨_, rfl⟩
    change LinkView h ((h.repoint p (.value g.off) g.off f F).propagateBarriers g) p g
    rw [← hs]
    have hpins : s.pins = _ := hs ▸ repoint_pins
    have hsigs : s.sigs = _ := hs ▸ repoint_sigs
    have hlock : s.lock = h.lock := by
      rw [hs]
      show (h.setCell p _).lock = h.lock
      rw [Hal.setCell]
      split <;> rfl
    have hnd : (s.pins.map Obj.off).Nodup := by
      rw [hs, repoint_pinKeys]
      exact hkeys
    obtain ⟨pins, hprop⟩ := propagateBarriers_eq (h := s) g
    have hmap := propagateBarriers_pins hnd g
    have hinh : ∀ o : Obj Pin, (inheritedFrom g o).off = o.off ∧
        (inheritedFrom g o).body = o.body ∧ (inheritedFrom g o).hdr.name = o.hdr.name ∧
        (inheritedFrom g o).hdr.valid = o.hdr.valid := by
      intro o
      rw [inheritedFrom]
      split
      · cases hd : o.body.dir <;> simp [Halhdr.inherit]
      · exact ⟨rfl, rfl, rfl, rfl⟩
    refine ⟨?_, ⟨fun o => inheritedFrom g (if o.off = p.off then { o with body := F o.body }
      else o), ?_, ?_, ?_, ?_⟩, v, ?_⟩
    · rw [hprop]
      exact hlock
    · rw [hmap, hpins, Store.modify, List.map_map]
      rfl
    · intro o
      obtain ⟨ho, hb, hn, hv⟩ := hinh (if o.off = p.off then { o with body := F o.body } else o)
      rw [ho, hb, hn, hv]
      split_ifs <;> exact ⟨rfl, rfl, rfl, rfl, rfl⟩
    · intro o hoff
      rw [(hinh _).2.1, if_pos hoff]
    · intro o hoff
      simp only [if_neg hoff, pinIsLinked, (hinh _).1, (hinh _).2.1, and_self]
    · rw [hprop]
      exact hsigs

/-- The pins after a new link. -/
lemma LinkView.pin (hv : LinkView h h' p g) {q : Obj Pin} (hq : findByName name h.pins = some q) :
    ∃ q', findByName name h'.pins = some q' ∧ q'.off = q.off ∧ q'.body.type = q.body.type ∧
      q'.body.dir = q.body.dir ∧ (q.off = p.off → q'.body.signal = g.off) ∧
      (q.off ≠ p.off → q'.body.signal = q.body.signal ∧ pinIsLinked q' = pinIsLinked q) := by
  obtain ⟨T, hpins, hT, hself, hother⟩ := hv.pins
  refine ⟨T q, ?_, (hT q).1, (hT q).2.2.2.1, (hT q).2.2.2.2, hself q, hother q⟩
  rw [hpins, findByName_map (fun o => (hT o).2.1) (fun o => (hT o).2.2.1), hq]
  rfl

lemma LinkView.noPin (hv : LinkView h h' p g) (hq : findByName name h.pins = none) :
    findByName name h'.pins = none := by
  obtain ⟨T, hpins, hT, -⟩ := hv.pins
  rw [hpins, findByName_map (fun o => (hT o).2.1) (fun o => (hT o).2.2.1), hq]
  rfl

/-- The signal after a new link. -/
lemma LinkView.sig (hv : LinkView h h' p g) (hg : findByName signal h.sigs = some g) :
    ∃ g', findByName signal h'.sigs = some g' ∧ g'.off = g.off ∧ g'.body.type = g.body.type ∧
      g'.body.writers = (if p.body.dir = .halOut then g.body.writers + 1 else g.body.writers) ∧
      g'.body.bidirs = (if p.body.dir = .halIo then g.body.bidirs + 1 else g.body.bidirs) := by
  obtain ⟨v, hsigs⟩ := hv.sigs
  refine ⟨{ g with body := { g.body.count p.body.dir with value := v } }, ?_, rfl, rfl, rfl, rfl⟩
  rw [hsigs, Store.modify, findByName_map (fun o => ?_) (fun o => ?_), hg, Option.map_some,
    if_pos rfl]
  · split_ifs <;> rfl
  · split_ifs <;> rfl

/-- `halg_link` makes the link, or nothing. -/
lemma halgLink_admits (hL : Linkage h.asV2) (hlock : h.locked halLockConfig = false)
    (hlen : signal.length ≤ halNameLen) (hg : findByName signal h.sigs = some g) (name : String) :
    (name.length ≤ halNameLen ∧ ∃ p, findByName name h.pins = some p ∧ g.admits p ∧
      (h.halgLink name signal).1 = none ∧
      ((p.body.signal = g.off ∧ (h.halgLink name signal).2 = h) ∨
        (p.body.signal ≠ g.off ∧ LinkView h (h.halgLink name signal).2 p g))) ∨
    ((name.length ≤ halNameLen → ∀ p, findByName name h.pins = some p → ¬ g.admits p) ∧
      h.halgLink name signal = (some .EINVAL, h)) := by
  rw [Hal.halgLink, if_neg (by simp [hlock])]
  by_cases hn : halNameLen < name.length
  · rw [if_pos hn]
    exact .inr ⟨fun h => absurd hn (not_lt.2 h), rfl⟩
  rw [if_neg hn, if_neg (not_lt.2 hlen), hg]
  cases hp : findByName name h.pins with
  | none => exact .inr ⟨fun _ _ hp => (Option.some_ne_none _ hp.symm).elim, rfl⟩
  | some p =>
    simp only
    by_cases hon : p.body.signal = g.off
    · rw [if_pos (by simp [pinLinkedTo, hon])]
      exact .inl ⟨not_lt.1 hn, p, rfl, .inl hon, rfl, .inl ⟨hon, rfl⟩⟩
    rw [if_neg (by simp [pinLinkedTo, hon])]
    by_cases hfit : pinIsLinked p = false ∧ p.body.type = g.body.type ∧
        (p.body.dir = .halOut → g.body.writers ≤ 0 ∧ g.body.bidirs ≤ 0) ∧
        (p.body.dir = .halIo → g.body.writers ≤ 0)
    · obtain ⟨hun, htype, hout, hio⟩ := hfit
      obtain ⟨hmem, hgv⟩ := findByName_mem hg
      obtain ⟨hok, hview⟩ := linkPin_view hL hmem hgv htype
      rw [if_neg (by simp [hun]), if_neg (not_not.2 htype), if_neg fun hc => ?_,
        if_neg fun hc => absurd hc.2 (not_lt.2 (hio hc.1))]
      · exact .inl ⟨not_lt.1 hn, p, rfl, .inr ⟨hun, htype, hout, hio⟩, hok, .inr ⟨hon, hview⟩⟩
      · have hle := hout hc.1
        omega
    · refine .inr ⟨fun _ q hq => ?_, ?_⟩
      · cases hq
        exact fun hf => hf.elim hon hfit
      · split_ifs with h1 h2 h3 h4
        · rfl
        · rfl
        · rfl
        · rfl
        · refine absurd ⟨Bool.eq_false_of_not_eq_true h1, not_not.1 h2, fun hd => ?_,
            fun hd => ?_⟩ hfit
          · simp only [hd, true_and, not_or, not_lt] at h3
            exact h3
          · simp only [hd, true_and, not_lt] at h4
            exact h4

/-! ### All links -/

/-- The pins fit on the signal, each for itself and all of them together. -/
def Hal.joins (h : Hal) (g : Obj Sig) (names : List String) : Prop :=
  (∀ n ∈ names, n.length ≤ halNameLen ∧ ∃ p, findByName n h.pins = some p ∧ g.admits p) ∧
  ∀ a ∈ names, ∀ b ∈ names, ∀ p q, findByName a h.pins = some p → findByName b h.pins = some q →
    p.body.signal ≠ g.off → q.body.signal ≠ g.off → p = q ∨ p.body.dir.clash q.body.dir = false

variable {g' : Obj Sig} {q q' : Obj Pin} {names : List String}

/-- The counts of a signal are not negative. -/
lemma Linkage.counts_nonneg (hL : Linkage h.asV2) (hg : findByName signal h.sigs = some g) :
    0 ≤ g.body.writers ∧ 0 ≤ g.body.bidirs := by
  obtain ⟨hmem, hgv⟩ := findByName_mem hg
  have hok := hL.sigs g hmem hgv
  rw [hok.writers, hok.bidirs]
  exact ⟨Int.natCast_nonneg _, Int.natCast_nonneg _⟩

/-- What a new link means for another pin. -/
lemma LinkView.admits_iff (hv : LinkView h h' p g) (hg : findByName signal h.sigs = some g)
    (hg' : findByName signal h'.sigs = some g') (h0 : 0 ≤ g.body.writers ∧ 0 ≤ g.body.bidirs)
    (hadm : g.admits p) (hon : p.body.signal ≠ g.off) (hq : findByName name h.pins = some q)
    (hq' : findByName name h'.pins = some q') (hne : q.off ≠ p.off) :
    g'.admits q' ↔ g.admits q ∧ (q.body.signal = g.off ∨ p.body.dir.clash q.body.dir = false) := by
  obtain ⟨g1, hg1, hoff, htype, hw, hb⟩ := hv.sig hg
  obtain rfl : g1 = g' := Option.some.inj (hg1.symm.trans hg')
  obtain ⟨q1, hq1, -, hqt, hqd, -, hqs⟩ := hv.pin hq
  obtain rfl : q1 = q' := Option.some.inj (hq1.symm.trans hq')
  obtain ⟨hsig, hlinked⟩ := hqs hne
  obtain ⟨-, -, hout, hio⟩ := hadm.resolve_left hon
  rw [Obj.admits, Obj.admits, hoff, htype, hw, hb, hqt, hqd, hsig, hlinked]
  by_cases hqon : q.body.signal = g.off
  · simp [hqon]
  -- a writer excludes the writers and bidirs that come later, a bidir the writers
  simp only [hqon, false_or]
  cases hpd : p.body.dir <;> cases hqd' : q.body.dir <;>
    simp [HalPinDir.clash, hpd] at hout hio ⊢ <;> omega

lemma LinkView.sig_off (hv : LinkView h h' p g) (hg : findByName signal h.sigs = some g)
    (hg' : findByName signal h'.sigs = some g') : g'.off = g.off := by
  obtain ⟨g1, hg1, hoff, -⟩ := hv.sig hg
  obtain rfl : g1 = g' := Option.some.inj (hg1.symm.trans hg')
  exact hoff

/-- The pins that fit with the first one fit behind its link. -/
lemma LinkView.joins_after (hL : Linkage h.asV2) (hv : LinkView h h' p g)
    (hg : findByName signal h.sigs = some g) (hg' : findByName signal h'.sigs = some g')
    (hp : findByName name h.pins = some p) (hadm : g.admits p) (hon : p.body.signal ≠ g.off)
    (hj : h.joins g (name :: names)) : h'.joins g' names := by
  obtain ⟨heach, hpair⟩ := hj
  have hoff := hv.sig_off hg hg'
  refine ⟨fun n hn => ?_, fun a ha b hb qa qb hqa hqb hna hnb => ?_⟩
  · obtain ⟨hl, q, hq, hadq⟩ := heach n (.tail _ hn)
    obtain ⟨q', hq', -, -, -, hself, -⟩ := hv.pin hq
    refine ⟨hl, q', hq', ?_⟩
    by_cases ho : q.off = p.off
    · exact .inl ((hself ho).trans hoff.symm)
    · refine (hv.admits_iff hg hg' (hL.counts_nonneg hg) hadm hon hq hq' ho).2
        ⟨hadq, or_iff_not_imp_left.2 fun hnq => ?_⟩
      exact (hpair name (.head _) n (.tail _ hn) p q hp hq hon
        hnq).resolve_left fun he => ho (congrArg Obj.off he).symm
  · have hback : ∀ {n r}, findByName n h'.pins = some r → r.body.signal ≠ g'.off →
        ∀ {q}, findByName n h.pins = some q → q.body.signal ≠ g.off ∧
          r.body.dir = q.body.dir := by
      intro n r hr hnr q hq
      obtain ⟨q', hq', -, -, hdir, hself, hother⟩ := hv.pin hq
      cases hq'.symm.trans hr
      by_cases ho : q.off = p.off
      · exact absurd ((hself ho).trans hoff.symm) hnr
      · rw [← (hother ho).1, ← hoff]
        exact ⟨hnr, hdir⟩
    obtain ⟨-, q, hq, -⟩ := heach a (.tail _ ha)
    obtain ⟨-, r, hr, -⟩ := heach b (.tail _ hb)
    obtain ⟨hnq, hqd⟩ := hback hqa hna hq
    obtain ⟨hnr, hrd⟩ := hback hqb hnb hr
    rw [hqd, hrd]
    refine (hpair a (.tail _ ha) b (.tail _ hb) q r hq hr hnq
      hnr).imp_left ?_
    rintro rfl
    obtain rfl : a = b := (findByName_name hq).symm.trans (findByName_name hr)
    exact Option.some.inj (hqa.symm.trans hqb)

/-- The pins that fit behind the link of the first one fit with it. -/
lemma LinkView.joins_before (hL : Linkage h.asV2) (hv : LinkView h h' p g)
    (hg : findByName signal h.sigs = some g) (hg' : findByName signal h'.sigs = some g')
    (hp : findByName name h.pins = some p) (hlen : name.length ≤ halNameLen) (hadm : g.admits p)
    (hon : p.body.signal ≠ g.off) (hj : h'.joins g' names) : h.joins g (name :: names) := by
  obtain ⟨heach, hpair⟩ := hj
  have hkeys := hL.pinKeys_asV2
  have hoff := hv.sig_off hg hg'
  have hsame : ∀ {n q}, findByName n h.pins = some q → q.off = p.off → q = p := fun hq ho =>
    eq_of_key hkeys (findByName_mem hq).1 (findByName_mem hp).1 ho
  -- the pins behind the names are there before the link
  have hfind : ∀ n ∈ names, n.length ≤ halNameLen ∧ ∃ q q', findByName n h.pins = some q ∧
      findByName n h'.pins = some q' ∧ g'.admits q' := by
    intro n hn
    obtain ⟨hl, q', hq', hadq⟩ := heach n hn
    cases hq : findByName n h.pins with
    | none =>
      rw [hv.noPin hq] at hq'
      cases hq'
    | some q => exact ⟨hl, q, q', rfl, hq', hadq⟩
  have hnot : ∀ n ∈ names, ∀ q, findByName n h.pins = some q → q.off ≠ p.off →
      g.admits q ∧ (q.body.signal = g.off ∨ p.body.dir.clash q.body.dir = false) := by
    intro n hn q hq ho
    obtain ⟨-, q1, q', hq1, hq', hadq⟩ := hfind n hn
    cases hq1.symm.trans hq
    exact (hv.admits_iff hg hg' (hL.counts_nonneg hg) hadm hon hq1 hq' ho).1 hadq
  refine ⟨fun n hn => ?_, fun a ha b hb q r hq hr hnq hnr => ?_⟩
  · rcases List.mem_cons.1 hn with rfl | hn
    · exact ⟨hlen, p, hp, hadm⟩
    · obtain ⟨hl, q, -, hq, -⟩ := hfind n hn
      refine ⟨hl, q, hq, ?_⟩
      by_cases ho : q.off = p.off
      · rw [hsame hq ho]
        exact hadm
      · exact (hnot n hn q hq ho).1
  · have hmem : ∀ n ∈ name :: names, ∀ q, findByName n h.pins = some q → q.off ≠ p.off →
        n ∈ names := by
      intro n hn q hq ho
      rcases List.mem_cons.1 hn with rfl | hn
      · cases hq.symm.trans hp
        exact absurd rfl ho
      · exact hn
    by_cases hoq : q.off = p.off
    · by_cases hor : r.off = p.off
      · exact .inl ((hsame hq hoq).trans (hsame hr hor).symm)
      · rw [hsame hq hoq]
        exact .inr ((hnot b (hmem b hb r hr hor) r hr hor).2.resolve_left hnr)
    · have ha' := hmem a ha q hq hoq
      by_cases hor : r.off = p.off
      · rw [hsame hr hor, HalPinDir.clash_comm]
        exact .inr ((hnot a ha' q hq hoq).2.resolve_left hnq)
      · have hb' := hmem b hb r hr hor
        obtain ⟨q', hq', hqo, -, hqd, -, hqs⟩ := hv.pin hq
        obtain ⟨r', hr', hro, -, hrd, -, hrs⟩ := hv.pin hr
        have hpq := hpair a ha' b hb' q' r' hq' hr' (by rw [(hqs hoq).1, hoff]; exact hnq)
          (by rw [(hrs hor).1, hoff]; exact hnr)
        rw [hqd, hrd] at hpq
        refine hpq.imp_left fun he => ?_
        refine eq_of_key hkeys (findByName_mem hq).1 (findByName_mem hr).1 ?_
        rw [← hqo, ← hro, he]

/-- A list of pins fits if the first pin can be linked and the others fit then. -/
lemma LinkView.joins_iff (hL : Linkage h.asV2) (hv : LinkView h h' p g)
    (hg : findByName signal h.sigs = some g) (hg' : findByName signal h'.sigs = some g')
    (hp : findByName name h.pins = some p) (hlen : name.length ≤ halNameLen) (hadm : g.admits p)
    (hon : p.body.signal ≠ g.off) : h.joins g (name :: names) ↔ h'.joins g' names :=
  ⟨hv.joins_after hL hg hg' hp hadm hon, hv.joins_before hL hg hg' hp hlen hadm hon⟩

/-- A pin that is on the signal fits. -/
lemma joins_cons (hp : findByName name h.pins = some p) (hlen : name.length ≤ halNameLen)
    (hon : p.body.signal = g.off) : h.joins g (name :: names) ↔ h.joins g names := by
  refine ⟨fun hj => ⟨fun n hn => hj.1 n (.tail _ hn), fun a ha b hb =>
    hj.2 a (.tail _ ha) b (.tail _ hb)⟩, fun hj => ⟨fun n hn => ?_,
      fun a ha b hb q r hq hr hnq hnr => ?_⟩⟩
  · rcases List.mem_cons.1 hn with rfl | hn
    · exact ⟨hlen, p, hp, .inl hon⟩
    · exact hj.1 n hn
  · rcases List.mem_cons.1 ha with rfl | ha
    · cases hq.symm.trans hp
      exact absurd hon hnq
    rcases List.mem_cons.1 hb with rfl | hb
    · cases hr.symm.trans hp
      exact absurd hon hnr
    exact hj.2 a ha b hb q r hq hr hnq hnr

/-- What the links of a run of `linkPins` leave: the signals by offset, and what is on the
signal at `off`. -/
structure Grown (signal : String) (off : ℕ) (h h' : Hal) : Prop where
  linkage : Linkage h'.asV2
  lock : h'.lock = h.lock
  keys : h'.sigs.map Obj.off = h.sigs.map Obj.off
  sig : ∃ g, findByName signal h'.sigs = some g ∧ g.off = off
  pin : ∀ n p, findByName n h.pins = some p → ∃ p', findByName n h'.pins = some p' ∧
    (p.body.signal = off → p'.body.signal = off)

lemma Grown.refl (hL : Linkage h.asV2) (hg : findByName signal h.sigs = some g) :
    Grown signal g.off h h :=
  ⟨hL, rfl, rfl, ⟨g, hg, rfl⟩, fun _ p hp => ⟨p, hp, id⟩⟩

lemma Grown.trans {off : ℕ} {h₁ h₂ h₃ : Hal} (h12 : Grown signal off h₁ h₂)
    (h23 : Grown signal off h₂ h₃) : Grown signal off h₁ h₃ := by
  refine ⟨h23.linkage, h23.lock.trans h12.lock, h23.keys.trans h12.keys, h23.sig,
    fun n p hp => ?_⟩
  obtain ⟨p', hp', hon'⟩ := h12.pin n p hp
  obtain ⟨p'', hp'', hon''⟩ := h23.pin n p' hp'
  exact ⟨p'', hp'', fun hon => hon'' (hon' hon)⟩

lemma LinkView.grown (hv : LinkView h h' p g) (hL' : Linkage h'.asV2)
    (hg : findByName signal h.sigs = some g) : Grown signal g.off h h' := by
  obtain ⟨g', hg', hoff, -⟩ := hv.sig hg
  refine ⟨hL', hv.lock, ?_, ⟨g', hg', hoff⟩, fun n q hq => ?_⟩
  · obtain ⟨v, hsigs⟩ := hv.sigs
    rw [hsigs]
    exact keys_modify fun _ => rfl
  · obtain ⟨q', hq', -, -, -, hself, hother⟩ := hv.pin hq
    refine ⟨q', hq', fun hon => ?_⟩
    by_cases ho : q.off = p.off
    · exact hself ho
    · rw [(hother ho).1, hon]

/-- All links are made if the pins fit, and only then; the pins are on the signal then. -/
lemma linkPins_iff (hL : Linkage h.asV2) (hlock : h.locked halLockConfig = false)
    (hlen : signal.length ≤ halNameLen) (hg : findByName signal h.sigs = some g)
    (names : List String) :
    ((linkPins signal h names).1 = none ↔ h.joins g names) ∧
      Grown signal g.off h (linkPins signal h names).2 ∧
      ((linkPins signal h names).1 = none → ∀ n ∈ names, ∃ p,
        findByName n (linkPins signal h names).2.pins = some p ∧ p.body.signal = g.off) := by
  induction names generalizing h g with
  | nil => exact ⟨by simp [linkPins, Hal.joins], .refl hL hg, by simp⟩
  | cons name names ih =>
    have hL' : Linkage (h.halgLink name signal).2.asV2 := by
      rw [Hal.asV2_halgLink]
      exact hL.halgLink name signal
    rcases halgLink_admits hL hlock hlen hg name with
      ⟨hshort, p, hp, hadm, hok, hlink⟩ | ⟨hno, herr⟩
    · have hrun : linkPins signal h (name :: names) =
          linkPins signal (h.halgLink name signal).2 names := by
        rw [linkPins]
        cases hres : h.halgLink name signal with
        | mk rc t =>
          rw [hres] at hok
          cases hok
          rfl
      rw [hrun]
      rcases hlink with ⟨hon, hsame⟩ | ⟨hon, hv⟩
      · -- already on the signal
        rw [hsame]
        obtain ⟨hiff, hgrown, hall⟩ := ih hL hlock hg
        refine ⟨hiff.trans (joins_cons hp hshort hon).symm, hgrown, fun hnone n hn => ?_⟩
        rcases List.mem_cons.1 hn with rfl | hn
        · obtain ⟨p', hp', hon'⟩ := hgrown.pin n p hp
          exact ⟨p', hp', hon' hon⟩
        · exact hall hnone n hn
      · obtain ⟨g', hg', hoff, -⟩ := hv.sig hg
        have hlock' : (h.halgLink name signal).2.locked halLockConfig = false := by
          rw [Hal.locked, hv.lock]
          exact hlock
        obtain ⟨hiff, hgrown, hall⟩ := ih hL' hlock' hg'
        rw [hoff] at hgrown hall
        refine ⟨hiff.trans (hv.joins_iff hL hg hg' hp hshort hadm hon).symm,
          (hv.grown hL' hg).trans hgrown, fun hnone n hn => ?_⟩
        rcases List.mem_cons.1 hn with rfl | hn
        · obtain ⟨p1, hp1, -, -, -, hself, -⟩ := hv.pin hp
          obtain ⟨p', hp', hon'⟩ := hgrown.pin n p1 hp1
          exact ⟨p', hp', hon' (hself rfl)⟩
        · exact hall hnone n hn
    · have hrun : linkPins signal h (name :: names) = (some .EINVAL, h) := by
        rw [linkPins, herr]
      rw [hrun]
      refine ⟨⟨fun hc => absurd hc (Option.some_ne_none _), fun hj => ?_⟩, .refl hL hg,
        fun hc => absurd hc (Option.some_ne_none _)⟩
      obtain ⟨hl, p, hp, hadm⟩ := hj.1 name (.head _)
      exact absurd hadm (hno hl p hp)

end

end MachinekitHal
