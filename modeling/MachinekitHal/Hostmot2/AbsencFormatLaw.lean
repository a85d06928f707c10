import MachinekitHal.Hostmot2.AbsencFormat
import MachinekitHal.Lib.Lines

/-!
What comes of parsing a format string of an absolute encoder.

* `parseFrom_name`, `parseFrom_percent`: the loop over a name, and over a field.
* `Rejected.parse`, `rejected_of_parse`: the strings for which `-EINVAL` is returned.
* `Elements.parse`, `Elements.regular`: the strings for which `0` is returned as it should be.
* `parse_iff`: the parser does what is asked of it exactly for these strings.
-/

namespace MachinekitHal.Absenc

open Numerals

variable {text name seg number rest trail pre : List UInt8} {confs new : List Conf} {room : ℕ}
  {es : List Element} {r : ℤ} {c : UInt8}

/-! ### The loop -/

/-- The call from a pass on. -/
def Pass.run : Pass → Outcome
  | .ends outcome => outcome
  | .goes text name confs => parseFrom text name confs

lemma parseFrom_eq (text name : List UInt8) (confs : List Conf) :
    parseFrom text name confs = (pass text name confs).run := by
  rw [parseFrom]
  split
  · rename_i outcome h
    exact (congrArg Pass.run h).symm
  · rename_i text' name' confs' h
    exact (congrArg Pass.run h).symm

lemma parseFrom_nil (name : List UInt8) (confs : List Conf) :
    parseFrom [] name confs = .ret 0 confs := by
  rw [parseFrom_eq]
  rfl

lemma parseFrom_percent (number name : List UInt8) (confs : List Conf) :
    parseFrom (percent :: number) name confs = (field name confs (strtoll number)).run := by
  rw [parseFrom_eq, pass, if_pos rfl]

lemma parseFrom_char (hc : c ≠ percent) (hroom : name.length < maxStringLength) :
    parseFrom (c :: text) name confs = parseFrom text (name ++ [c]) confs := by
  rw [parseFrom_eq, pass, if_neg hc, if_pos hroom, Pass.run]

lemma parseFrom_overflow (hc : c ≠ percent) (hroom : maxStringLength ≤ name.length) :
    parseFrom (c :: text) name confs = .overflow := by
  rw [parseFrom_eq, pass, if_neg hc, if_neg (not_lt.2 hroom), Pass.run]

/-- The characters of a name are collected. -/
lemma parseFrom_name (hseg : percent ∉ seg) (hfits : name.length + seg.length ≤ maxStringLength) :
    parseFrom (seg ++ text) name confs = parseFrom text (name ++ seg) confs := by
  induction seg generalizing name with
  | nil => rw [List.nil_append, List.append_nil]
  | cons c seg ih =>
    obtain ⟨hc, hseg'⟩ := List.ne_and_not_mem_of_not_mem_cons hseg
    rw [List.length_cons] at hfits
    rw [List.cons_append, parseFrom_char (Ne.symm hc) (by omega),
      ih hseg' (by rw [List.length_append, List.length_singleton]; omega), List.append_assoc]
    rfl

/-- A name that does not fit. -/
lemma parseFrom_long (hseg : percent ∉ seg) (hname : name.length ≤ maxStringLength)
    (hlong : maxStringLength < name.length + seg.length) :
    parseFrom (seg ++ text) name confs = .overflow := by
  induction seg generalizing name with
  | nil =>
    rw [List.length_nil] at hlong
    omega
  | cons c seg ih =>
    obtain ⟨hc, hseg'⟩ := List.ne_and_not_mem_of_not_mem_cons hseg
    rw [List.length_cons] at hlong
    rw [List.cons_append]
    by_cases hroom : name.length < maxStringLength
    · rw [parseFrom_char (Ne.symm hc) hroom]
      refine ih hseg' ?_ ?_ <;> rw [List.length_append, List.length_singleton] <;> omega
    · exact parseFrom_overflow (Ne.symm hc) (not_lt.1 hroom)

/-! ### Rejected strings -/

/-- What a specifier takes off a text: a letter, or two. -/
lemma specifier_some {gray : Bool} {kind : Kind}
    (h : specifier text = some ((gray, kind), rest)) :
    ∃ c pre, text = c :: (pre ++ rest) ∧ percent ∉ pre ∧ pre.length ≤ 1 := by
  cases text with
  | nil => cases h
  | cons c text =>
    rw [specifier] at h
    split_ifs at h
    · obtain ⟨k, hk, hrest⟩ := Option.map_eq_some_iff.1 h
      obtain ⟨d, hd, hkind⟩ := Option.bind_eq_some_iff.1 hk
      obtain ⟨tail, rfl⟩ := List.head?_eq_some_iff.1 hd
      cases hrest
      refine ⟨c, [d], rfl, fun hmem => ?_, le_rfl⟩
      rw [← List.mem_singleton.1 hmem] at hkind
      cases hkind
    · obtain ⟨k, hk, hrest⟩ := Option.map_eq_some_iff.1 h
      cases hrest
      exact ⟨c, [], rfl, List.not_mem_nil, Nat.zero_le _⟩

lemma length_specifier_lt {gray : Bool} {kind : Kind}
    (h : specifier text = some ((gray, kind), rest)) : rest.length < text.length := by
  obtain ⟨c, pre, rfl, -, -⟩ := specifier_some h
  rw [List.length_cons, List.length_append]
  omega

/-- A string with a malformed field is rejected. -/
lemma Rejected.parse (h : Rejected room text) (hroom : name.length + room ≤ maxStringLength) :
    ∃ new, parseFrom text name confs = .ret (-Errno.EINVAL.code) (confs ++ new) := by
  induction h generalizing name confs with
  | malformed hname hfits hint hspecifier =>
    obtain ⟨new, hnew⟩ := field_none hint hspecifier
    refine ⟨new, ?_⟩
    rw [parseFrom_name hname (by omega), parseFrom_percent, hnew, Pass.run]
  | @behind room first number rest gray kind hname hfits hint hspecifier _ ih =>
    obtain ⟨new, hnew⟩ := @ih []
      (confs ++ [{ newConf (name ++ first) (strtoll number) gray with kind := some kind }])
      (by simp)
    refine ⟨{ newConf (name ++ first) (strtoll number) gray with kind := some kind } :: new, ?_⟩
    rw [parseFrom_name hname (by omega), parseFrom_percent, field_some hint hspecifier, Pass.run,
      hnew, List.append_assoc]
    rfl
  | skipped hname hfits hint hskip _ ih =>
    obtain ⟨new, hnew⟩ := @ih [] confs (by simp)
    refine ⟨new, ?_⟩
    rw [parseFrom_name hname (by omega), parseFrom_percent, field, if_pos hint, hskip]
    exact hnew

/-- A character in front of a rejected string. -/
lemma Rejected.cons (h : Rejected room text) (hc : c ≠ percent) :
    Rejected (room + 1) (c :: text) := by
  have hmem : ∀ {name : List UInt8}, percent ∉ name → percent ∉ c :: name :=
    fun hname => List.not_mem_cons_of_ne_of_not_mem (Ne.symm hc) hname
  cases h with
  | malformed hname hfits hint hspecifier =>
    exact .malformed (hmem hname) (Nat.succ_le_succ hfits) hint hspecifier
  | behind hname hfits hint hspecifier hrest =>
    exact .behind (hmem hname) (Nat.succ_le_succ hfits) hint hspecifier hrest
  | skipped hname hfits hint hskip hrest =>
    exact .skipped (hmem hname) (Nat.succ_le_succ hfits) hint hskip hrest

/-- Descriptors are only appended. -/
def Outcome.Extends (confs : List Conf) : Outcome → Prop
  | .ret _ confs' => confs <+: confs'
  | _ => True

def Pass.Extends (confs : List Conf) : Pass → Prop
  | .ends outcome => outcome.Extends confs
  | .goes _ _ confs' => confs <+: confs'

lemma extends_pass (text name : List UInt8) (confs : List Conf) :
    (pass text name confs).Extends confs := by
  cases text with
  | nil => exact List.prefix_rfl
  | cons c text =>
    rw [pass]
    split_ifs
    · rw [field]
      split_ifs
      · cases (strtoll text).rest with
        | nil => trivial
        | cons d rest => exact List.prefix_rfl
      · dsimp only
        split <;> exact List.prefix_append confs _
      · exact List.prefix_rfl
    · exact List.prefix_rfl
    · trivial

lemma extends_parse (text name : List UInt8) (confs : List Conf) :
    (parseFrom text name confs).Extends confs := by
  induction text, name, confs using parseFrom.induct with
  | case1 text name confs outcome hpass =>
    have hextends := extends_pass text name confs
    rw [hpass] at hextends
    rw [parseFrom_eq, hpass]
    exact hextends
  | case2 text name confs text' name' confs' hpass hshorter ih =>
    have hextends := extends_pass text name confs
    rw [hpass] at hextends
    rw [parseFrom_eq, hpass, Pass.run]
    cases hparse : parseFrom text' name' confs' with
    | ret r confs'' =>
      rw [hparse] at ih
      exact List.IsPrefix.trans hextends ih
    | overflow => trivial
    | beyond => trivial

/-- What is returned is `0`, or the string is rejected. -/
lemma rejected_of_parse {confs' : List Conf} (hname : name.length ≤ maxStringLength)
    (h : parseFrom text name confs = .ret r confs') :
    r = 0 ∨ r = -Errno.EINVAL.code ∧ Rejected (maxStringLength - name.length) text := by
  obtain ⟨k, hk⟩ : ∃ k, text.length = k := ⟨_, rfl⟩
  induction k using Nat.strong_induction_on generalizing text name confs with
  | _ k ih =>
    cases text with
    | nil =>
      rw [parseFrom_nil] at h
      cases h
      exact .inl rfl
    | cons c text =>
      rw [List.length_cons] at hk
      by_cases hc : c = percent
      · -- a field, behind which the call goes on with what is left
        subst hc
        have hrest := length_strtoll_le text
        rw [parseFrom_percent] at h
        by_cases hint : intOf (strtoll text) = 0
        · rw [field, if_pos hint] at h
          cases hskip : (strtoll text).rest with
          | nil =>
            rw [hskip] at h
            cases h
          | cons d rest =>
            rw [hskip, Pass.run] at h
            rw [hskip, List.length_cons] at hrest
            refine (ih _ (by omega) (Nat.zero_le _) h rfl).imp_right fun hrejected => ?_
            exact ⟨hrejected.1, .skipped (List.not_mem_nil) (Nat.zero_le _) hint hskip
              hrejected.2⟩
        · cases hspecifier : specifier (strtoll text).rest with
          | none =>
            obtain ⟨new, hnew⟩ := @field_none name confs _ hint hspecifier
            rw [hnew, Pass.run] at h
            cases h
            exact .inr ⟨rfl, .malformed List.not_mem_nil (Nat.zero_le _) hint hspecifier⟩
          | some found =>
            obtain ⟨⟨gray, kind⟩, rest⟩ := found
            rw [field_some hint hspecifier, Pass.run] at h
            have hshorter := length_specifier_lt hspecifier
            refine (ih _ (by omega) (Nat.zero_le _) h rfl).imp_right fun hrejected => ?_
            exact ⟨hrejected.1, .behind List.not_mem_nil (Nat.zero_le _) hint hspecifier
              hrejected.2⟩
      · by_cases hroom : name.length < maxStringLength
        · rw [parseFrom_char hc hroom] at h
          have hlength : (name ++ [c]).length = name.length + 1 := List.length_append
          refine (ih _ (by omega) (by omega) h rfl).imp_right fun hrejected => ?_
          refine ⟨hrejected.1, ?_⟩
          have hcons := hrejected.2.cons hc
          rwa [hlength, Nat.sub_add_eq, Nat.sub_add_cancel (by omega)] at hcons
        · rw [parseFrom_overflow hc (not_lt.1 hroom)] at h
          cases h

/-! ### Strings of elements -/

lemma strtoll_positive {n : ℕ} (h : Numerals.scanNumber isspace number = some ((false, n), text)) :
    (strtoll number).rest = text ∧
      (n < 256 → (strtoll number).value = BitVec.ofNat 64 n) := by
  rw [strtoll, h]
  refine ⟨rfl, fun hlt => ?_⟩
  have hclamp : max (-2 ^ 63) (min (2 ^ 63 - 1) (signed false n)) = (n : ℤ) := by
    rw [signed, if_neg Bool.false_ne_true]
    omega
  show BitVec.ofInt 64 (max (-2 ^ 63) (min (2 ^ 63 - 1) (signed false n))) = _
  rw [hclamp, BitVec.ofInt_natCast]

/-- The first field of a string of elements, also with a text in front of it. -/
lemma Elements.field (h : Elements text es trail) (hpre : percent ∉ pre) (hname : percent ∉ name)
    (heq : pre ++ text = name ++ percent :: number) : ∃ gray kind rest es',
      specifier (strtoll number).rest = some ((gray, kind), rest) ∧ Elements rest es' trail := by
  cases h with
  | text htrail =>
    have hmem : percent ∈ pre ++ text := by
      rw [heq]
      exact List.mem_append_right _ (.head _)
    rcases List.mem_append.1 hmem with hmem | hmem
    · exact absurd hmem hpre
    · exact absurd hmem htrail
  | @element name' number' _ rest _ n gray kind es' hname' hfits hnumber hpos hspecifier hrest =>
    rw [← List.append_assoc] at heq
    have hmem : percent ∉ pre ++ name' := fun hmem => (List.mem_append.1 hmem).elim hpre hname'
    obtain ⟨-, rfl⟩ := Lines.append_newline_inj hmem hname heq
    refine ⟨gray, kind, rest, es', ?_, hrest⟩
    rw [(strtoll_positive hnumber).1]
    exact hspecifier

/-- A string that is rejected is not made up of elements, nor is one behind a text in it. -/
lemma Rejected.not_elements (h : Rejected room text) (hpre : percent ∉ pre)
    (htext : text = pre ++ rest) : ¬ ∃ es trail, Elements rest es trail := by
  induction h generalizing pre rest with
  | malformed hname hfits hint hspecifier =>
    rintro ⟨es, trail, helements⟩
    obtain ⟨gray, kind, rest', es', hsome, -⟩ := helements.field hpre hname htext.symm
    cases hspecifier.symm.trans hsome
  | behind hname hfits hint hspecifier _ ih =>
    rintro ⟨es, trail, helements⟩
    obtain ⟨gray, kind, rest', es', hsome, hrest⟩ := helements.field hpre hname htext.symm
    cases hspecifier.symm.trans hsome
    exact ih List.not_mem_nil (List.nil_append _).symm ⟨es', trail, hrest⟩
  | skipped hname hfits hint hskip _ ih =>
    rintro ⟨es, trail, helements⟩
    obtain ⟨gray, kind, rest', es', hsome, hrest⟩ := helements.field hpre hname htext.symm
    obtain ⟨c, pre', htake, hpre', -⟩ := specifier_some hsome
    cases hskip.symm.trans htake
    exact ih hpre' rfl ⟨es', trail, hrest⟩

/-- A string of elements gives no more descriptors than it has elements. -/
lemma Elements.length_le (h : Elements text es trail) (hname : name.length ≤ maxStringLength)
    {confs' : List Conf} (hparse : parseFrom text name confs = .ret 0 confs') :
    confs'.length ≤ confs.length + es.length := by
  induction h generalizing name confs with
  | @text trail htrail =>
    by_cases hfits : name.length + trail.length ≤ maxStringLength
    · have hend := @parseFrom_name [] name trail confs htrail hfits
      rw [List.append_nil, hparse, parseFrom_nil] at hend
      cases hend
      exact Nat.le_add_right _ _
    · have hend := @parseFrom_long [] name trail confs htrail hname (not_le.1 hfits)
      rw [List.append_nil, hparse] at hend
      cases hend
  | @element first number text rest trail n gray kind es hfirst hfits hnumber hpos hspecifier _
      ih =>
      obtain ⟨hrest, -⟩ := strtoll_positive hnumber
      by_cases hroom : name.length + first.length ≤ maxStringLength
      · rw [parseFrom_name hfirst hroom, parseFrom_percent] at hparse
        rw [List.length_cons]
        by_cases hint : intOf (strtoll number) = 0
        · obtain ⟨c, pre, htake, hpre, hlength⟩ := specifier_some hspecifier
          rw [Absenc.field, if_pos hint, hrest, htake] at hparse
          have hskip : parseFrom (pre ++ rest) [] confs = .ret 0 confs' := hparse
          have hone : ([] : List UInt8).length + pre.length ≤ maxStringLength := by
            rw [List.length_nil, Nat.zero_add]
            exact hlength.trans (by decide)
          rw [parseFrom_name hpre hone] at hskip
          have hle := ih (by rw [List.nil_append]; exact hlength.trans (by decide)) hskip
          omega
        · rw [field_some hint (by rw [hrest]; exact hspecifier), Pass.run] at hparse
          have hle := ih (Nat.zero_le _) hparse
          rw [List.length_append, List.length_singleton] at hle
          omega
      · rw [parseFrom_long hfirst hname (not_le.1 hroom)] at hparse
        cases hparse

/-- What a regular field gives. -/
lemma describes_iff {n : ℕ} {gray : Bool} {kind : Kind} {converted : Converted} :
    Describes ⟨name, n, gray, kind⟩ { newConf name converted gray with kind := some kind } ↔
      (converted.value.setWidth 8).toNat = n :=
  ⟨fun h => h.length, fun h => ⟨rfl, h, rfl, rfl⟩⟩

/-- A regular string gives the descriptors of its elements. -/
lemma Elements.parse (h : Elements text es trail) (hlengths : ∀ e ∈ es, e.length < 256)
    (htrail : trail.length ≤ maxStringLength) (confs : List Conf) :
    ∃ new, parseFrom text [] confs = .ret 0 (confs ++ new) ∧ List.Forall₂ Describes es new := by
  induction h generalizing confs with
  | @text trail hmem =>
    have hend := @parseFrom_name [] [] trail confs hmem (by rwa [List.length_nil, Nat.zero_add])
    rw [List.append_nil, parseFrom_nil] at hend
    exact ⟨[], by rw [List.append_nil]; exact hend, .nil⟩
  | @element first number text rest trail n gray kind es hfirst hfits hnumber hpos hspecifier _
      ih =>
      obtain ⟨hhead, htail⟩ := List.forall_mem_cons.1 hlengths
      obtain ⟨hrest, hvalue⟩ := strtoll_positive hnumber
      have hlt : n < 256 := hhead
      have hint : intOf (strtoll number) ≠ 0 := by
        intro hzero
        have hnat := congrArg BitVec.toNat hzero
        rw [intOf, hvalue hlt, BitVec.toNat_setWidth, BitVec.toNat_ofNat] at hnat
        have hzero' : n % 2 ^ 64 % 2 ^ 32 = 0 := hnat
        omega
      have hdescribes : ((strtoll number).value.setWidth 8).toNat = n := by
        rw [hvalue hlt, BitVec.toNat_setWidth, BitVec.toNat_ofNat]
        omega
      obtain ⟨new, hnew, hall⟩ := ih htail htrail
        (confs ++ [{ newConf first (strtoll number) gray with kind := some kind }])
      refine ⟨_ :: new, ?_, .cons (describes_iff.2 hdescribes) hall⟩
      rw [parseFrom_name hfirst (by rwa [List.length_nil, Nat.zero_add]), parseFrom_percent,
        List.nil_append, field_some hint (by rw [hrest]; exact hspecifier), Pass.run, hnew,
        List.append_assoc]
      rfl

/-- A string of elements that gives their descriptors is regular. -/
lemma Elements.regular (h : Elements text es trail)
    (hparse : parseFrom text [] confs = .ret 0 (confs ++ new))
    (hall : List.Forall₂ Describes es new) :
    (∀ e ∈ es, e.length < 256) ∧ trail.length ≤ maxStringLength := by
  induction h generalizing confs new with
  | @text trail hmem =>
    refine ⟨fun e he => absurd he List.not_mem_nil, ?_⟩
    by_contra hlong
    have hend := @parseFrom_long [] [] trail confs hmem (Nat.zero_le _)
      (by rw [List.length_nil, Nat.zero_add]; exact not_le.1 hlong)
    rw [List.append_nil, hparse] at hend
    cases hend
  | @element first number text rest trail n gray kind es hfirst hfits hnumber hpos hspecifier
      helements ih =>
      obtain ⟨hrest, hvalue⟩ := strtoll_positive hnumber
      rw [parseFrom_name hfirst (by rwa [List.length_nil, Nat.zero_add]), parseFrom_percent,
        List.nil_append] at hparse
      by_cases hint : intOf (strtoll number) = 0
      · -- one element gives no descriptor, so they are too few
        obtain ⟨c, pre, htake, hpre, hone⟩ := specifier_some hspecifier
        rw [Absenc.field, if_pos hint, hrest, htake] at hparse
        have hskip : parseFrom (pre ++ rest) [] confs = .ret 0 (confs ++ new) := hparse
        have hpref : pre.length ≤ maxStringLength := hone.trans (by decide)
        rw [parseFrom_name hpre (by rwa [List.length_nil, Nat.zero_add])] at hskip
        have hle := helements.length_le hpref hskip
        have hlength := hall.length_eq
        rw [List.length_append] at hle
        rw [List.length_cons] at hlength
        omega
      · rw [field_some hint (by rw [hrest]; exact hspecifier), Pass.run] at hparse
        have hextends := extends_parse rest []
          (confs ++ [{ newConf first (strtoll number) gray with kind := some kind }])
        rw [hparse] at hextends
        obtain ⟨new', hnew⟩ := hextends
        rw [List.append_assoc] at hnew
        obtain rfl := List.append_cancel_left hnew
        obtain ⟨hdescribes, hall'⟩ := List.forall₂_cons.1 hall
        rw [← List.append_assoc] at hparse
        obtain ⟨hlengths, htrail⟩ := ih hparse hall'
        refine ⟨List.forall_mem_cons.2 ⟨?_, hlengths⟩, htrail⟩
        have hbyte := describes_iff.1 hdescribes
        have hlt := ((strtoll number).value.setWidth 8).isLt
        show n < 256
        omega

/-- The parser of format strings. The call returns, with 0 exactly if the string is made up of
elements and then with their descriptors, if and only if the string is rejected or regular. -/
theorem parse_iff (myinst : Gtag) (string : List UInt8) (confs : List Conf) :
    Parses (formatOf myinst string) confs (hm2AbsencParseFormat myinst string confs) ↔
      Rejected maxStringLength (formatOf myinst string) ∨ Regular (formatOf myinst string) := by
  rw [hm2AbsencParseFormat]
  generalize formatOf myinst string = text
  constructor
  · rintro ⟨r, new, hparse, -, hzero⟩
    rcases rejected_of_parse (Nat.zero_le _) hparse with rfl | ⟨-, hrejected⟩
    · obtain ⟨es, trail, helements, hall⟩ := hzero rfl
      exact .inr ⟨es, trail, helements, helements.regular hparse hall⟩
    · exact .inl hrejected
  · rintro (hrejected | ⟨es, trail, helements, hlengths, htrail⟩)
    · obtain ⟨new, hparse⟩ := @Rejected.parse _ [] confs _ hrejected (Nat.zero_add _).le
      refine ⟨_, new, hparse, fun helements => ?_, fun hzero => absurd hzero (by decide)⟩
      exact absurd helements
        (hrejected.not_elements List.not_mem_nil (List.nil_append text).symm)
    · obtain ⟨new, hparse, hall⟩ := helements.parse hlengths htrail confs
      exact ⟨0, new, hparse, fun _ => rfl, fun _ => ⟨es, trail, helements, hall⟩⟩

example : Regular (ascii "pos%16gu") := by
  refine ⟨[⟨ascii "pos", 16, true, ⟨0x02, 0, 1⟩⟩], [], ?_, by decide, by decide⟩
  have hsplit : ascii "pos%16gu" = ascii "pos" ++ percent :: ascii "16gu" := by decide
  rw [hsplit]
  exact .element (by decide) (by decide) rfl (by decide) rfl (.text List.not_mem_nil)

/-- A string that ends behind a `'%'` is read behind its end. -/
theorem parse_percent : ¬ ∀ (myinst : Gtag) (string : List UInt8) (confs : List Conf),
    Parses (formatOf myinst string) confs (hm2AbsencParseFormat myinst string confs) := by
  intro hall
  obtain ⟨r, new, hparse, -⟩ := hall .ssi [percent] []
  have hbeyond : hm2AbsencParseFormat .ssi [percent] [] = .beyond := parseFrom_percent [] [] []
  cases hbeyond.symm.trans hparse

end MachinekitHal.Absenc
