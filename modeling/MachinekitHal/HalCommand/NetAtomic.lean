import Mathlib.Data.List.TakeWhile
import MachinekitHal.Hal.ObjectNames
import MachinekitHal.HalCommand.Net

/-!
`net` is all or nothing, or not.

* `NetAtomic`: all pins are on the signal, or nothing has changed.
* `NetFits`: the checks refuse the pins, or `halg_link` accepts them all. The checks do not know
  the length `halg_link` allows for a name, and without a signal they find every pin without
  a link to be on it already.
* `net_atomic`: the one holds exactly if the other does.
-/

namespace MachinekitHal

open Store Runs

/-! ### The statement -/

/-- All pins are on the signal, or an error is returned and no signal, link, count or value has
changed. -/
def NetAtomic (h : Hal) (signal : String) (pins : List String) (r : Option Errno × Hal) : Prop :=
  (r.1 = none ∧ ∃ g, findByName signal r.2.sigs = some g ∧ ∀ n ∈ netPins pins, ∃ p,
    findByName n r.2.pins = some p ∧ pinLinkedTo g.off p = true) ∨
  (r.1 ≠ none ∧ r.2.sigs = h.sigs ∧ r.2.pins = h.pins ∧ r.2.cells = h.cells)

/-- `halg_signal_new` has a case for the type. -/
def HalType.hasSignal : HalType → Bool
  | .halBit | .halS32 | .halU32 | .halFloat => true
  | _ => false

/-- Names that `halg_link` allows. -/
def shortNames (names : List String) : Prop := ∀ n ∈ names, n.length ≤ halNameLen
  deriving Decidable

namespace Hal

variable (h : Hal)

/-- The pins of these names. -/
def named (names : List String) : List (Obj Pin) := names.filterMap (findByName · h.pins)

/-- On a signal that exists: if a name is too long, the pins in front of it are on the signal
already. -/
def fitsOld (g : Obj Sig) (names : List String) : Prop :=
  shortNames names ∨ ∀ p ∈ h.named (names.takeWhile fun n => decide (n.length ≤ halNameLen)),
    pinLinkedTo g.off p = true

/-- For a new signal: there is no signal of the type of the first pin, or the names are not too
long, and the pins have one type and directions that do not exclude each other. -/
def fitsNew (names : List String) : Prop :=
  (∃ p ∈ (h.named names).head?, p.body.type.hasSignal = false) ∨
  (shortNames names ∧ ∀ p ∈ h.named names, ∀ q ∈ h.named names,
    p.body.type = q.body.type ∧ (p = q ∨ p.body.dir.clash q.body.dir = false))

/-- The command is refused before any change, or the pins fit. -/
def netFits (signal : String) (pins : List String) : Prop :=
  (h.preflightNetCmd signal (findByName signal h.sigs) pins).isOk = false ∨
  (findByName signal h.pins).isSome = true ∨ h.locked halLockConfig = true ∨
  halNameLen < signal.length ∨
  match findByName signal h.sigs with
  | some g => h.fitsOld g (netPins pins)
  | none => h.fitsNew (netPins pins)

variable {h} in
lemma mem_named {names : List String} {p : Obj Pin} :
    p ∈ h.named names ↔ ∃ n ∈ names, findByName n h.pins = some p := List.mem_filterMap

end Hal

/-! ### The checks -/

section

variable {h : Hal} {g : Obj Sig} {signal : String} {c c' : NetCheck} {names : List String}

/-- The loop of the checks counts the pins. -/
lemma preflightPins_pincnt {sig : Option (Obj Sig)} :
    ∀ {names : List String} {c c' : NetCheck}, h.preflightPins signal sig c names = .ok c' →
      c'.pincnt = c.pincnt + names.length
  | [], c, c', hok => by
      cases hok
      rfl
  | name :: names, c, c', hok => by
      rw [Hal.preflightPins] at hok
      cases hpin : h.preflightPin signal sig c name with
      | error e =>
        rw [hpin] at hok
        cases hok
      | ok c1 =>
        rw [hpin] at hok
        rw [preflightPins_pincnt hok]
        have hcnt : c1.pincnt = c.pincnt + 1 := by
          rw [Hal.preflightPin] at hpin
          cases hf : findByName name h.pins with
          | none =>
            rw [hf] at hpin
            cases hpin
          | some pin =>
            rw [hf] at hpin
            simp only at hpin
            split_ifs at hpin <;> cases hpin <;> rfl
        rw [hcnt, List.length_cons]
        omega

/-- One round for a signal that exists. -/
lemma preflightPin_some (h0 : g.off ≠ 0) {name : String}
    (hok : h.preflightPin signal (some g) c name = .ok c') : ∃ p, findByName name h.pins = some p ∧
      ((p.body.signal = g.off ∧ c' = { c with pincnt := c.pincnt + 1 }) ∨
        (p.body.signal ≠ g.off ∧ pinIsLinked p = false ∧ c.type.getD p.body.type = p.body.type ∧
          (p.body.dir = .halOut → c.writers = 0 ∧ c.bidirs = 0) ∧
          (p.body.dir = .halIo → c.writers = 0) ∧ c'.type = some p.body.type ∧
          c'.writers = (if p.body.dir = .halOut then c.writers + 1 else c.writers) ∧
          c'.bidirs = (if p.body.dir = .halIo then c.bidirs + 1 else c.bidirs))) := by
  rw [Hal.preflightPin] at hok
  cases hf : findByName name h.pins with
  | none =>
    rw [hf] at hok
    cases hok
  | some p =>
    rw [hf] at hok
    refine ⟨p, rfl, ?_⟩
    have hon : signalOf p = (some g).map Obj.off ↔ p.body.signal = g.off := by
      rw [signalOf, Option.map_some]
      split_ifs with hs
      · rw [Option.some_inj]
      · rw [not_not] at hs
        simp [hs, h0.symm]
    simp only [hon] at hok
    by_cases h1 : p.body.signal = g.off
    · rw [if_pos h1] at hok
      exact .inl ⟨h1, (Except.ok.inj hok).symm⟩
    rw [if_neg h1] at hok
    by_cases h2 : pinIsLinked p = true
    · rw [if_pos h2] at hok
      cases hok
    rw [if_neg h2] at hok
    by_cases h3 : c.type.getD p.body.type = p.body.type
    · rw [if_neg (not_not.2 h3)] at hok
      by_cases h4 : p.body.dir = .halOut ∧ (c.writers ≠ 0 ∨ c.bidirs ≠ 0)
      · rw [if_pos h4] at hok
        cases hok
      rw [if_neg h4] at hok
      by_cases h5 : p.body.dir = .halIo ∧ c.writers ≠ 0
      · rw [if_pos h5] at hok
        cases hok
      rw [if_neg h5] at hok
      cases hok
      refine .inr ⟨h1, Bool.eq_false_of_not_eq_true h2, h3, fun hd => ?_, fun hd => ?_,
        congrArg some h3, rfl, rfl⟩
      · by_contra hc
        exact h4 ⟨hd, by omega⟩
      · by_contra hc
        exact h5 ⟨hd, hc⟩
    · rw [if_pos h3] at hok
      cases hok

/-- The pins that pass the checks for a signal that exists fit on it, but for the lengths of
their names. -/
lemma preflightPins_some (h0 : g.off ≠ 0) :
    ∀ {names : List String} {c c' : NetCheck}, c.type = some g.body.type → 0 ≤ c.writers →
      0 ≤ c.bidirs → h.preflightPins signal (some g) c names = .ok c' →
      (∀ n ∈ names, ∃ p, findByName n h.pins = some p ∧ (p.body.signal = g.off ∨
        (pinIsLinked p = false ∧ p.body.type = g.body.type ∧
          (p.body.dir = .halOut → c.writers = 0 ∧ c.bidirs = 0) ∧
          (p.body.dir = .halIo → c.writers = 0)))) ∧
      ∀ a ∈ names, ∀ b ∈ names, ∀ p q, findByName a h.pins = some p →
        findByName b h.pins = some q → p.body.signal ≠ g.off → q.body.signal ≠ g.off →
        p = q ∨ p.body.dir.clash q.body.dir = false
  | [], c, c', _, _, _, _ => ⟨fun n hn => absurd hn List.not_mem_nil,
      fun a ha => absurd ha List.not_mem_nil⟩
  | name :: names, c, c', htype, hw, hb, hok => by
      rw [Hal.preflightPins] at hok
      cases hpin : h.preflightPin signal (some g) c name with
      | error e =>
        rw [hpin] at hok
        cases hok
      | ok c1 =>
        rw [hpin] at hok
        obtain ⟨p, hp, ⟨hon, rfl⟩ | ⟨hon, hun, hpt, hout, hio, ht1, hw1, hb1⟩⟩ :=
          preflightPin_some h0 hpin
        · obtain ⟨heach, hpair⟩ := preflightPins_some (c := { c with pincnt := c.pincnt + 1 }) h0
            htype hw hb hok
          refine ⟨fun n hn => ?_, fun a ha b hb q r hq hr hnq hnr => ?_⟩
          · rcases List.mem_cons.1 hn with rfl | hn
            · exact ⟨p, hp, .inl hon⟩
            · exact heach n hn
          · rcases List.mem_cons.1 ha with rfl | ha
            · obtain rfl := Option.some.inj (hq.symm.trans hp)
              exact absurd hon hnq
            rcases List.mem_cons.1 hb with rfl | hb
            · obtain rfl := Option.some.inj (hr.symm.trans hp)
              exact absurd hon hnr
            exact hpair a ha b hb q r hq hr hnq hnr
        · have hpt' : p.body.type = g.body.type := by
            rw [htype] at hpt
            exact hpt.symm
          have hle : c.writers ≤ c1.writers ∧ c.bidirs ≤ c1.bidirs := by
            rw [hw1, hb1]
            constructor <;> split_ifs <;> omega
          obtain ⟨heach, hpair⟩ := preflightPins_some h0 (ht1.trans (congrArg some hpt'))
            (hw.trans hle.1) (hb.trans hle.2) hok
          -- a later pin is checked against the counts with the first one
          have hlater : ∀ n ∈ names, ∀ q, findByName n h.pins = some q →
              q.body.signal ≠ g.off → p.body.dir.clash q.body.dir = false := by
            intro n hn q hq hnq
            obtain ⟨q1, hq1, hcase⟩ := heach n hn
            obtain rfl := Option.some.inj (hq1.symm.trans hq)
            obtain ⟨-, -, hqo, hqi⟩ := hcase.resolve_left hnq
            rw [hw1, hb1] at hqo
            rw [hw1] at hqi
            cases hpd : p.body.dir <;> cases hqd : q1.body.dir <;>
              simp [HalPinDir.clash, hpd, hqd] at hqo hqi ⊢ <;> omega
          refine ⟨fun n hn => ?_, fun a ha b hb q r hq hr hnq hnr => ?_⟩
          · rcases List.mem_cons.1 hn with rfl | hn
            · exact ⟨p, hp, .inr ⟨hun, hpt', hout, hio⟩⟩
            · obtain ⟨q, hq, hcase⟩ := heach n hn
              refine ⟨q, hq, hcase.imp_right fun hfit => ⟨hfit.1, hfit.2.1, fun hd => ?_,
                fun hd => ?_⟩⟩
              · have hout' := hfit.2.2.1 hd
                omega
              · have hio' := hfit.2.2.2 hd
                omega
          · rcases List.mem_cons.1 ha with rfl | ha'
            · obtain rfl := Option.some.inj (hq.symm.trans hp)
              rcases List.mem_cons.1 hb with rfl | hb'
              · exact .inl (Option.some.inj (hq.symm.trans hr))
              · exact .inr (hlater b hb' r hr hnr)
            rcases List.mem_cons.1 hb with rfl | hb'
            · obtain rfl := Option.some.inj (hr.symm.trans hp)
              rw [HalPinDir.clash_comm]
              exact .inr (hlater a ha' q hq hnq)
            exact hpair a ha' b hb' q r hq hr hnq hnr

/-- For a new signal the checks only find out that the pins exist and are linked to none. -/
lemma preflightPins_none (hL : Linkage h.asV2) :
    ∀ {names : List String} {c c' : NetCheck}, h.preflightPins signal none c names = .ok c' →
      ∀ n ∈ names, ∃ p, findByName n h.pins = some p ∧ p.body.signal = 0 ∧ pinIsLinked p = false
  | [], c, c', _ => fun n hn => absurd hn List.not_mem_nil
  | name :: names, c, c', hok => by
      rw [Hal.preflightPins] at hok
      cases hpin : h.preflightPin signal none c name with
      | error e =>
        rw [hpin] at hok
        cases hok
      | ok c1 =>
        rw [hpin] at hok
        intro n hn
        rcases List.mem_cons.1 hn with rfl | hn
        · rw [Hal.preflightPin] at hpin
          cases hf : findByName n h.pins with
          | none =>
            rw [hf] at hpin
            cases hpin
          | some p =>
            rw [hf] at hpin
            obtain ⟨hp, hpv⟩ := findByName_mem hf
            have hiff := hL.pinIsLinked_asV2 hp hpv
            by_cases hl : pinIsLinked p = true
            · have hs : ¬ signalOf p = Option.map Obj.off (none : Option (Obj Sig)) := by
                rw [signalOf, if_pos (hiff.1 hl)]
                exact Option.some_ne_none _
              simp only [if_neg hs, if_pos hl] at hpin
              cases hpin
            · exact ⟨p, rfl, not_not.1 fun hs => hl (hiff.2 hs),
                Bool.eq_false_of_not_eq_true hl⟩
        · exact preflightPins_none hL hok n hn

lemma preflightNetCmd_ok {sig : Option (Obj Sig)} {pins : List String} {u : Unit}
    (hok : h.preflightNetCmd signal sig pins = .ok u) :
    ∃ c, h.preflightPins signal sig (h.netStart sig) (netPins pins) = .ok c ∧
      netPins pins ≠ [] := by
  rw [Hal.preflightNetCmd] at hok
  cases hrun : h.preflightPins signal sig (h.netStart sig) (netPins pins) with
  | error e =>
    rw [hrun] at hok
    cases hok
  | ok c =>
    rw [hrun] at hok
    refine ⟨c, rfl, fun hnil => ?_⟩
    have hcnt := preflightPins_pincnt hrun
    have h0 : (h.netStart sig).pincnt = 0 := by
      cases sig with
      | none => rfl
      | some sig =>
        rw [Hal.netStart]
        split <;> rfl
    rw [h0, hnil] at hcnt
    simp only at hok
    rw [if_neg fun hc => hc hcnt] at hok
    cases hok

/-- Pins that pass the checks for a signal that exists fit on it, if their names are short. -/
lemma joins_of_checks (hL : Linkage h.asV2) (hg : findByName signal h.sigs = some g)
    (hok : h.preflightPins signal (some g) (h.netStart (some g)) names = .ok c) {l : List String}
    (hl : ∀ n ∈ l, n ∈ names) (hshort : shortNames l) : h.joins g l := by
  have hstart : (h.netStart (some g)).type = some g.body.type ∧
      (h.netStart (some g)).writers = g.body.writers ∧
      (h.netStart (some g)).bidirs = g.body.bidirs := by
    rw [Hal.netStart]
    split <;> exact ⟨rfl, rfl, rfl⟩
  obtain ⟨htype, hw, hb⟩ := hstart
  obtain ⟨hw0, hb0⟩ := hL.counts_nonneg hg
  obtain ⟨heach, hpair⟩ := preflightPins_some (hL.sigNe g (findByName_mem hg).1) htype
    (hw0.trans_eq hw.symm) (hb0.trans_eq hb.symm) hok
  rw [hw, hb] at heach
  refine ⟨fun n hn => ⟨hshort n hn, ?_⟩, fun a ha b hb => hpair a (hl a ha) b (hl b hb)⟩
  obtain ⟨p, hp, hcase⟩ := heach n (hl n hn)
  refine ⟨p, hp, hcase.imp_right fun hfit => ⟨hfit.1, hfit.2.1, fun hd => ?_, fun hd => ?_⟩⟩
  · exact ⟨(hfit.2.2.1 hd).1.le, (hfit.2.2.1 hd).2.le⟩
  · exact (hfit.2.2.2 hd).le

/-- The first name is the first one listed, if there is one. -/
lemma netPins_head {pins : List String} (hne : netPins pins ≠ []) :
    pins.head? = (netPins pins).head? := by
  cases pins with
  | nil => rfl
  | cons n pins =>
    rw [netPins, List.takeWhile_cons] at hne ⊢
    split
    · rfl
    · next hn =>
        rw [if_neg hn] at hne
        exact absurd rfl hne

/-! ### The links -/

lemma linkPins_append (signal : String) (l m : List String) : ∀ h : Hal,
    linkPins signal h (l ++ m) = match linkPins signal h l with
      | (none, h') => linkPins signal h' m
      | (some e, h') => (some e, h') := by
  induction l with
  | nil => exact fun h => rfl
  | cons n l ih =>
    intro h
    rw [List.cons_append, linkPins, linkPins]
    cases hlink : h.halgLink n signal with
    | mk rc h' =>
      cases rc with
      | none => exact ih h'
      | some e => rfl

/-- A call that `halg_link` refuses at once. -/
lemma linkPins_refused (hne : names ≠ [])
    (hbad : h.locked halLockConfig = true ∨ halNameLen < signal.length) :
    ∃ e, linkPins signal h names = (some e, h) := by
  obtain ⟨n, l, rfl⟩ := List.exists_cons_of_ne_nil hne
  have hlink : ∃ e, h.halgLink n signal = (some e, h) := by
    rw [Hal.halgLink]
    by_cases hlock : h.locked halLockConfig = true
    · exact ⟨_, if_pos hlock⟩
    by_cases hn : halNameLen < n.length
    · exact ⟨_, by rw [if_neg hlock, if_pos hn]⟩
    · exact ⟨_, by rw [if_neg hlock, if_neg hn, if_pos (hbad.resolve_left hlock)]⟩
  obtain ⟨e, he⟩ := hlink
  exact ⟨e, by rw [linkPins, he]⟩

/-- Pins that are on the signal. -/
lemma linkPins_on (hL : Linkage h.asV2) (hlock : h.locked halLockConfig = false)
    (hlen : signal.length ≤ halNameLen) (hg : findByName signal h.sigs = some g)
    (hon : ∀ n ∈ names, n.length ≤ halNameLen ∧ ∃ p, findByName n h.pins = some p ∧
      p.body.signal = g.off) : linkPins signal h names = (none, h) := by
  induction names with
  | nil => rfl
  | cons n names ih =>
    obtain ⟨hn, p, hp, hpon⟩ := hon n (.head _)
    have hlink : h.halgLink n signal = (none, h) := by
      rcases halgLink_admits hL hlock hlen hg n with
        ⟨-, q, hq, -, hok, ⟨-, hsame⟩ | ⟨hnot, -⟩⟩ | ⟨hno, -⟩
      · exact Prod.ext hok hsame
      · cases hp.symm.trans hq
        exact absurd hpon hnot
      · exact absurd (.inl hpon) (hno hn p hp)
    rw [linkPins, hlink]
    exact ih fun n hn => hon n (.tail _ hn)

/-- The links on a signal that exists, of pins that have passed the checks. -/
lemma netAtomic_old {pins : List String} (hL : Linkage h.asV2)
    (hlock : h.locked halLockConfig = false) (hlen : signal.length ≤ halNameLen)
    (hg : findByName signal h.sigs = some g)
    (hjoins : ∀ l : List String, (∀ n ∈ l, n ∈ netPins pins) → shortNames l → h.joins g l) :
    NetAtomic h signal pins (linkPins signal h (netPins pins)) ↔ h.fitsOld g (netPins pins) := by
  generalize hnames : netPins pins = names at hjoins
  by_cases hshort : shortNames names
  · -- all links are made
    obtain ⟨hiff, hgrown, hall⟩ := linkPins_iff hL hlock hlen hg names
    have hnone := hiff.2 (hjoins names (fun _ hn => hn) hshort)
    obtain ⟨g', hg', hoff⟩ := hgrown.sig
    refine iff_of_true (.inl ⟨hnone, g', hg', fun n hn => ?_⟩) (.inl hshort)
    obtain ⟨p, hp, hon⟩ := hall hnone n (hnames ▸ hn)
    exact ⟨p, hp, by simp [pinLinkedTo, hon, hoff]⟩
  · -- those in front of the first long name are made
    let short : String → Bool := fun n => decide (n.length ≤ halNameLen)
    have hpre : ∀ n ∈ names.takeWhile short, n.length ≤ halNameLen := fun n hn =>
      of_decide_eq_true (List.mem_takeWhile_imp (p := short) hn)
    obtain ⟨hiff, hgrown, hall⟩ := linkPins_iff hL hlock hlen hg (names.takeWhile short)
    have hnone := hiff.2 (hjoins _ (fun n hn => List.takeWhile_subset _ hn) hpre)
    obtain ⟨bad, rest, hrest⟩ : ∃ bad rest, names.dropWhile short = bad :: rest := by
      refine List.exists_cons_of_ne_nil fun hnil => hshort fun n hn => ?_
      exact of_decide_eq_true (List.dropWhile_eq_nil_iff.1 hnil n hn)
    have hbad : halNameLen < bad.length := by
      have hhead := List.head?_dropWhile_not short names
      rw [hrest] at hhead
      exact not_le.1 (of_decide_eq_false hhead)
    have hrun : linkPins signal h names =
        (some .EINVAL, (linkPins signal h (names.takeWhile short)).2) := by
      conv_lhs => rw [← List.takeWhile_append_dropWhile (p := short) (l := names), hrest]
      rw [linkPins_append]
      cases hres : linkPins signal h (names.takeWhile short) with
      | mk rc h1 =>
        rw [hres] at hnone hgrown
        obtain rfl : rc = none := hnone
        have hlock1 : h1.locked halLockConfig = false := by
          rw [Hal.locked, hgrown.lock]
          exact hlock
        simp only
        rw [linkPins, Hal.halgLink, if_neg (by simp [hlock1]), if_pos hbad]
    rw [hrun]
    constructor
    · rintro (⟨hc, -⟩ | ⟨-, -, hpins, -⟩)
      · exact absurd hc (Option.some_ne_none _)
      · refine .inr fun p hp => ?_
        obtain ⟨n, hn, hpn⟩ := Hal.mem_named.1 hp
        obtain ⟨q, hq, hon⟩ := hall hnone n hn
        rw [hpins] at hq
        cases hpn.symm.trans hq
        simp [pinLinkedTo, hon]
    · rintro (hs | hon)
      · exact absurd hs hshort
      · have hsame : linkPins signal h (names.takeWhile short) = (none, h) := by
          refine linkPins_on hL hlock hlen hg fun n hn => ⟨hpre n hn, ?_⟩
          obtain ⟨-, p, hp, -⟩ := (hjoins _ (fun n hn => List.takeWhile_subset _ hn) hpre).1 n hn
          exact ⟨p, hp, by simpa [pinLinkedTo] using hon p (Hal.mem_named.2 ⟨n, hn, hp⟩)⟩
        rw [hsame]
        exact .inr ⟨Option.some_ne_none _, rfl, rfl, rfl⟩

lemma halgSignalNew_some {m : Alloc} {type : HalType} (hlock : h.locked halLockConfig = false)
    (hlen : signal.length ≤ halNameLen) (hno : findByName signal h.sigs = none)
    (htype : type.hasSignal = true) : ∃ new : Obj Sig, new.off = m.off ∧
      new.hdr.name = signal ∧ new.hdr.valid = true ∧ new.body = ⟨type, 0, 0, 0, 0⟩ ∧
      h.halgSignalNew (some m) signal type = (none, { h with sigs := addObject new h.sigs }) := by
  have hstored : hhSetNamefv signal = some signal :=
    fmtAp_of_lt (lt_of_le_of_lt hlen (by decide))
  refine ⟨{ off := m.off
            hdr := { id := Int16.ofInt m.handle, ownerId := Int16.ofInt 0, name := signal
                     refcnt := 0, legacy := false, valid := true, rmb := false, wmb := false }
            body := ⟨type, 0, 0, 0, 0⟩ }, rfl, rfl, rfl, rfl, ?_⟩
  rw [Hal.halgSignalNew, if_neg (by simp [hlock]), if_neg (not_lt.2 hlen), if_neg (by simp [hno])]
  simp only [halgCreateObject, hstored]
  cases type <;> first | rfl | cases htype

lemma halgSignalNew_none (h : Hal) (signal : String) (mem : Option Alloc) {type : HalType}
    (htype : type.hasSignal = false) :
    ∃ e, h.halgSignalNew mem signal type = (some e, h) := by
  rw [Hal.halgSignalNew]
  split_ifs
  · exact ⟨_, rfl⟩
  · exact ⟨_, rfl⟩
  · exact ⟨_, rfl⟩
  · split
    · exact ⟨_, rfl⟩
    · cases type <;> first | exact ⟨_, rfl⟩ | cases htype

/-- A call that `halg_signal_new` refuses at once. -/
lemma halgSignalNew_refused (mem : Option Alloc) (type : HalType)
    (hbad : h.locked halLockConfig = true ∨ halNameLen < signal.length) :
    ∃ e, h.halgSignalNew mem signal type = (some e, h) := by
  rw [Hal.halgSignalNew]
  split_ifs with h1 h2 h3
  · exact ⟨_, rfl⟩
  · exact ⟨_, rfl⟩
  · exact ⟨_, rfl⟩
  · exact absurd hbad (not_or.2 ⟨h1, h2⟩)

/-- The pins fit on a new signal if they are of its type and do not exclude each other. -/
lemma Hal.joins_new_iff {names : List String} {p₀ : Obj Pin} {new : Obj Sig}
    (sigs : List (Obj Sig)) (htype : p₀.body.type.hasSignal = true)
    (hhead : (h.named names).head? = some p₀)
    (hpins : ∀ n ∈ names, ∃ p, findByName n h.pins = some p ∧ p.body.signal = 0 ∧
      pinIsLinked p = false)
    (hadm : ∀ n ∈ names, ∀ p, findByName n h.pins = some p →
      p.body.signal ≠ new.off ∧ (new.admits p ↔ p.body.type = p₀.body.type)) :
    Hal.joins { h with sigs := sigs } new names ↔ h.fitsNew names := by
  obtain ⟨n₀, hn₀, hp₀⟩ := Hal.mem_named.1 (List.mem_of_head? hhead)
  constructor
  · rintro ⟨heach, hpair⟩
    refine .inr ⟨fun n hn => (heach n hn).1, fun p hp q hq => ?_⟩
    obtain ⟨a, ha, hp⟩ := Hal.mem_named.1 hp
    obtain ⟨b, hb, hq⟩ := Hal.mem_named.1 hq
    refine ⟨?_, ?_⟩
    · have hof : ∀ n ∈ names, ∀ p, findByName n h.pins = some p →
          p.body.type = p₀.body.type := by
        intro n hn p hp
        obtain ⟨-, p', hp', hadp⟩ := heach n hn
        cases hp.symm.trans hp'
        exact (hadm n hn p hp).2.1 hadp
      rw [hof a ha p hp, hof b hb q hq]
    · exact hpair a ha b hb p q hp hq (hadm a ha p hp).1 (hadm b hb q hq).1
  · rintro (⟨p, hp, hnt⟩ | ⟨hshort, hfit⟩)
    · cases hhead.symm.trans hp
      rw [htype] at hnt
      cases hnt
    have hmem : ∀ {n p}, n ∈ names → findByName n h.pins = some p → p ∈ h.named names :=
      fun hn hp => Hal.mem_named.2 ⟨_, hn, hp⟩
    refine ⟨fun n hn => ⟨hshort n hn, ?_⟩, fun a ha b hb p q hp hq _ _ =>
      (hfit p (hmem ha hp) q (hmem hb hq)).2⟩
    obtain ⟨p, hp, -⟩ := hpins n hn
    exact ⟨p, hp, (hadm n hn p hp).2.2 (hfit p (hmem hn hp) p₀ (hmem hn₀ hp₀)).1⟩

/-- The links on a new signal, of pins that have passed the checks. -/
lemma netAtomic_new {pins : List String} {m : Alloc} {p₀ : Obj Pin} (hL : Linkage h.asV2)
    (hm : h.fresh (some m) = true) (hlock : h.locked halLockConfig = false)
    (hlen : signal.length ≤ halNameLen) (hno : findByName signal h.sigs = none)
    (hhead : (h.named (netPins pins)).head? = some p₀)
    (hpins : ∀ n ∈ netPins pins, ∃ p, findByName n h.pins = some p ∧ p.body.signal = 0 ∧
      pinIsLinked p = false) :
    NetAtomic h signal pins (match h.halgSignalNew (some m) signal p₀.body.type with
      | (some e, h') => (some e, h')
      | (none, h') => linkPins signal h' (netPins pins)) ↔ h.fitsNew (netPins pins) := by
  by_cases htype : p₀.body.type.hasSignal = true
  · obtain ⟨new, hoff, hname, hnv, hbody, hnew⟩ := halgSignalNew_some (m := m) hlock hlen hno htype
    have hL1 : Linkage (h.halgSignalNew (some m) signal p₀.body.type).2.asV2 :=
      Hal.linkage_asV2_step (a := .signalNew (some m) signal p₀.body.type) hL hm rfl
    rw [hnew] at hL1 ⊢
    simp only
    obtain ⟨hm0, hmfresh⟩ := h.fresh_some hm
    rw [← hoff] at hm0 hmfresh
    have hg1 : findByName signal (addObject new h.sigs) = some new := by
      rw [← hname] at hno ⊢
      exact findByName_addObject hnv hno
    obtain ⟨hiff, hgrown, hall⟩ := linkPins_iff (h := { h with sigs := addObject new h.sigs }) hL1
      hlock hlen hg1 (netPins pins)
    -- the pins are not linked, and the counts of the new signal are 0
    have hadm : ∀ n ∈ netPins pins, ∀ p, findByName n h.pins = some p →
        p.body.signal ≠ new.off ∧ (new.admits p ↔ p.body.type = p₀.body.type) := by
      intro n hn p hp
      obtain ⟨q, hq, hs, hun⟩ := hpins n hn
      cases hp.symm.trans hq
      have hsn : p.body.signal ≠ new.off := by
        rw [hs]
        exact hm0.symm
      refine ⟨hsn, ?_⟩
      simp [Obj.admits, hsn, hun, hbody]
    rw [← h.joins_new_iff (addObject new h.sigs) htype hhead hpins hadm, ← hiff]
    constructor
    · rintro (⟨hnone, -⟩ | ⟨-, hsigs, -⟩)
      · exact hnone
      · -- the new signal is there
        have hkeys := hgrown.keys
        rw [hsigs] at hkeys
        refine absurd ?_ hmfresh
        have hmem : new.off ∈ h.sigs.map Obj.off := by
          rw [hkeys]
          exact List.mem_map_of_mem (mem_addObject.2 (.inl rfl))
        simp only [Hal.offsets, List.mem_append]
        exact .inl (.inl (.inr hmem))
    · intro hnone
      obtain ⟨g', hg', hgo⟩ := hgrown.sig
      refine .inl ⟨hnone, g', hg', fun n hn => ?_⟩
      obtain ⟨p, hp, hon⟩ := hall hnone n hn
      exact ⟨p, hp, by simp [pinLinkedTo, hon, hgo]⟩
  · rw [Bool.not_eq_true] at htype
    obtain ⟨e, he⟩ := halgSignalNew_none h signal (some m) htype
    rw [he]
    exact iff_of_true (.inr ⟨Option.some_ne_none _, rfl, rfl, rfl⟩) (.inl ⟨p₀, hhead, htype⟩)

end

/-! ### The command -/

/-- In every state reached `net` is all or nothing exactly if it is refused before any change, or
the pins fit. -/
theorem net_atomic {h₀ h : Hal} (h0 : h₀.unwired)
    (hr : Reach linkStep (fun h a => linkAlloc h a = true) h₀ h) {m : Alloc}
    (hm : h.fresh (some m) = true) (signal : String) (pins : List String) :
    NetAtomic h signal pins (h.doNetCmd (some m) signal pins) ↔ h.netFits signal pins := by
  have hL := linkage_asV2 h0 hr
  have hsame : ∀ e, NetAtomic h signal pins (some e, h) := fun e =>
    .inr ⟨Option.some_ne_none _, rfl, rfl, rfl⟩
  rw [Hal.doNetCmd, Hal.netFits]
  cases hpre : h.preflightNetCmd signal (findByName signal h.sigs) pins with
  | error e => exact iff_of_true (hsame _) (.inl rfl)
  | ok u =>
      simp only
      by_cases hpin : (findByName signal h.pins).isSome = true
      · rw [if_pos hpin]
        exact iff_of_true (hsame _) (.inr (.inl hpin))
      rw [if_neg hpin]
      obtain ⟨c, hchecks, hne⟩ := preflightNetCmd_ok hpre
      by_cases hbad : h.locked halLockConfig = true ∨ halNameLen < signal.length
      · -- the first call refuses
        refine iff_of_true ?_ (.inr (.inr (or_assoc.1 (.inl hbad))))
        cases hg : findByName signal h.sigs with
        | some g =>
            obtain ⟨e, he⟩ := linkPins_refused hne hbad
            simp only [he]
            exact hsame e
        | none =>
            simp only
            cases pins.head?.bind fun name => findByName name h.pins with
            | none => exact hsame _
            | some p =>
                obtain ⟨e, he⟩ := halgSignalNew_refused (some m) p.body.type hbad
                simp only [he]
                exact hsame e
      · rw [not_or, Bool.not_eq_true, not_lt] at hbad
        obtain ⟨hlock, hlen⟩ := hbad
        have hnot : ∀ q : Prop, ((Except.ok u : Except NetError Unit).isOk = false ∨
            (findByName signal h.pins).isSome = true ∨ h.locked halLockConfig = true ∨
            halNameLen < signal.length ∨ q) ↔ q := by
          intro q
          simp [hlock, not_lt.2 hlen, hpin, Except.isOk, Except.toBool]
        rw [hnot]
        cases hg : findByName signal h.sigs with
        | some g =>
            rw [hg] at hchecks
            refine netAtomic_old hL hlock hlen hg fun l hl hshort => ?_
            exact joins_of_checks hL hg hchecks hl hshort
        | none =>
            rw [hg] at hchecks
            have hpins := preflightPins_none hL hchecks
            have hhead : pins.head? = (netPins pins).head? := netPins_head hne
            obtain ⟨n, l, hl⟩ := List.exists_cons_of_ne_nil hne
            obtain ⟨p, hp, -⟩ := hpins n (hl ▸ (.head _))
            have hfirst : (h.named (netPins pins)).head? = some p := by
              rw [hl, Hal.named, List.filterMap_cons, hp]
              rfl
            have hcreate : ((netPins pins).head?.bind fun n => findByName n h.pins) = some p := by
              rw [hl]
              exact hp
            simp only [hhead, hcreate]
            exact netAtomic_new hL hm hlock hlen hg hfirst hpins

/-- A writer, two readers of different types, and a reader with a long name. -/
def netPinsRun : List LinkAct :=
  [.pinNew (some ⟨128, 2⟩) .halS32 .halOut none 1 7 "out",
    .pinNew (some ⟨256, 3⟩) .halS32 .halIn none 1 0 "in",
    .pinNew (some ⟨384, 4⟩) .halBit .halIn none 1 0 "bit",
    .pinNew (some ⟨512, 5⟩) .halS32 .halIn none 1 0
      "a-pin-with-a-name-of-more-than-forty-one-bytes",
    .signalNew (some ⟨640, 6⟩) "sig" .halS32]

def netState : Hal := (run linkStep linkAlloc oneComp netPinsRun).getD oneComp

/-- The run ends in a state where the checks pass for a new signal with the writer and the
reader of its type, and where two other commands leave something behind. -/
lemma netState_facts : (run linkStep linkAlloc oneComp netPinsRun).isSome = true ∧
    (netState.fresh (some ⟨768, 7⟩) = true ∧ findByName "new" netState.sigs = none ∧
      ∀ p ∈ netState.named ["out", "in"], ∀ q ∈ netState.named ["out", "in"],
        p.body.type = q.body.type ∧ (p = q ∨ p.body.dir.clash q.body.dir = false)) ∧
    ((netState.doNetCmd (some ⟨768, 7⟩) "new" ["out", "bit"]).1 ≠ none ∧
      (netState.doNetCmd (some ⟨768, 7⟩) "new" ["out", "bit"]).2.sigs ≠ netState.sigs) ∧
    (netState.doNetCmd (some ⟨768, 7⟩) "sig"
        ["out", "a-pin-with-a-name-of-more-than-forty-one-bytes"]).1 ≠ none ∧
      (netState.doNetCmd (some ⟨768, 7⟩) "sig"
        ["out", "a-pin-with-a-name-of-more-than-forty-one-bytes"]).2.pins ≠ netState.pins := by
  decide +kernel

lemma netState_reach : Reach linkStep (fun h a => linkAlloc h a = true) oneComp netState := by
  obtain ⟨h, hs⟩ := Option.isSome_iff_exists.1 netState_facts.1
  rw [netState, hs]
  exact reach_of_run _ _ hs

/-- `net` with a new signal. -/
theorem net_atomic_new : NetAtomic netState "new" ["out", "in"]
    (netState.doNetCmd (some ⟨768, 7⟩) "new" ["out", "in"]) := by
  obtain ⟨-, ⟨hfresh, hno, hpins⟩, -⟩ := netState_facts
  refine (net_atomic ⟨rfl, rfl⟩ netState_reach hfresh _ _).2 ?_
  refine .inr (.inr (.inr (.inr ?_)))
  rw [hno]
  exact .inr ⟨by decide, hpins⟩

/-- A new signal stays behind with a part of the pins, if their types differ; and so do the
links in front of a name that is too long. -/
theorem net_atomic_half :
    (¬ NetAtomic netState "new" ["out", "bit"]
      (netState.doNetCmd (some ⟨768, 7⟩) "new" ["out", "bit"])) ∧
    ¬ NetAtomic netState "sig" ["out", "a-pin-with-a-name-of-more-than-forty-one-bytes"]
      (netState.doNetCmd (some ⟨768, 7⟩) "sig"
        ["out", "a-pin-with-a-name-of-more-than-forty-one-bytes"]) := by
  obtain ⟨-, -, ⟨hnew, hsigs⟩, hsig, hpins⟩ := netState_facts
  constructor
  · rintro (⟨h, -⟩ | ⟨-, h, -⟩)
    · exact hnew h
    · exact hsigs h
  · rintro (⟨h, -⟩ | ⟨-, -, h, -⟩)
    · exact hsig h
    · exact hpins h

end MachinekitHal
