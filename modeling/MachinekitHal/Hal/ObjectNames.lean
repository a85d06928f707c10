import MachinekitHal.Hal.ObjectChanges

/-!
Object names.

A name is printed to a buffer by some creation functions, checked against a length by
others, and then always used as the format of `halg_create_objectf`, which prints it to a
buffer of 127 bytes. The tests after printing compare with the size of the buffer, not with
what it holds, so a name that is one byte too long is cut.

* `cutLengths`, `storedName_eq_iff`: which names are stored as they were passed.
* `nameOk`: the name has no percent sign and none of these lengths, and no valid param has
  it if a param is created.
* `NamesInv`, `object_names`: in the runs whose creations meet `nameOk`, names are exact and
  unique, and a name that is too long changes nothing.
* `object_names_badNames`: what happens otherwise.
-/

namespace MachinekitHal

open Store Runs ObjectHal

/-! ### Formats -/

/-- A format without percent signs prints itself. -/
lemma percents_eq_self {cs : List Char} (h : '%' ∉ cs) : percents cs = some cs := by
  induction cs with
  | nil => rfl
  | cons c cs ih =>
    simp only [List.mem_cons, not_or] at h
    rw [percents, ih h.2, Option.map_some]
    · exact fun _ hc => absurd hc.symm h.1
    · exact fun hc => absurd hc.symm h.1

lemma percents_length {cs ds : List Char} (h : percents cs = some ds) :
    ds.length ≤ cs.length ∧ ('%' ∈ cs → ds.length < cs.length) := by
  induction cs using percents.induct generalizing ds with
  | case1 =>
    cases h
    simp
  | case2 cs ih =>
    rw [percents] at h
    obtain ⟨es, hes, rfl⟩ := Option.map_eq_some_iff.1 h
    have hle := (ih hes).1
    simp only [List.length_cons]
    omega
  | case3 cs hcs =>
    rw [percents] at h
    · cases h
    · exact hcs
  | case4 c cs hc hcs ih =>
    rw [percents] at h
    · obtain ⟨es, hes, rfl⟩ := Option.map_eq_some_iff.1 h
      obtain ⟨hle, hlt⟩ := ih hes
      simp only [List.length_cons, List.mem_cons]
      refine ⟨by omega, fun hmem => ?_⟩
      have hin : '%' ∈ cs := hmem.resolve_left fun he => hcs he.symm
      have := hlt hin
      omega
    · exact hc
    · exact hcs

/-- What is printed without arguments, if there is no percent sign. -/
lemma printFormat_eq_self {undef : String → Option String} {name : String}
    (h : '%' ∉ name.toList) : printFormat undef name = some name := by
  rw [printFormat, percents_eq_self h]
  simp

/-! ### Buffers -/

lemma fmtAp_eq_some {size : ℕ} {name t : String} (h : fmtAp size name = some t) :
    name.length ≤ size ∧ t.toList = name.toList.take (size - 1) := by
  rw [fmtAp] at h
  split_ifs at h with hlen
  cases h
  exact ⟨not_lt.1 hlen, String.toList_ofList⟩

/-- The buffer holds one byte less than its size. -/
lemma fmtAp_length {size : ℕ} {name t : String} (h : fmtAp size name = some t) :
    t.length ≤ size - 1 ∧ t.length ≤ name.length := by
  have ht := congrArg List.length (fmtAp_eq_some h).2
  rw [List.length_take, String.length_toList, String.length_toList] at ht
  omega

/-- The lengths at which a name is accepted, but not whole. -/
def cutLengths : HalObjectType → List ℕ
  | .pin | .param | .ring | .component => [127, 128]
  | .plug | .inst => [127]
  | .signal | .thread | .funct | .group | .member | .vtable => []

/-- A name of at most 126 bytes that is accepted reaches `halg_create_objectf` whole. -/
lemma admitName_short {type : HalObjectType} {asked fmt : String}
    (h : admitName type asked = some fmt) (hlen : asked.length ≤ 126) : fmt = asked := by
  have hbuf : ∀ {size}, 127 ≤ size → fmtAp size asked = some fmt → fmt = asked := by
    intro size hs hf
    rw [fmtAp_of_lt (by omega)] at hf
    exact (Option.some.inj hf).symm
  have hcheck : (if halNameLen < asked.length then none else some asked) = some fmt →
      fmt = asked := by
    intro hf
    split_ifs at hf
    exact (Option.some.inj hf).symm
  cases type with
  | pin => exact hbuf (by omega) h
  | param => exact hbuf (by omega) h
  | ring => exact hbuf (by omega) h
  | component => exact hbuf (by omega) h
  | plug => exact hbuf (by omega) h
  | inst => exact (Option.some.inj h).symm
  | signal => exact hcheck h
  | thread => exact hcheck h
  | funct => exact hcheck h
  | group => exact hcheck h
  | member => exact hcheck h
  | vtable => exact hcheck h

/-- A name that is accepted, and not at one of the lengths at which it would be cut, is
short; only an instance has no test of its own. -/
lemma admitName_length {type : HalObjectType} {asked fmt : String}
    (h : admitName type asked = some fmt) (hcut : asked.length ∉ cutLengths type)
    (hinst : type ≠ .inst) : asked.length ≤ 126 := by
  have hbuf : ∀ {size}, fmtAp size asked = some fmt → asked.length ≤ size :=
    fun hf => (fmtAp_eq_some hf).1
  have hcheck : (if halNameLen < asked.length then none else some asked) = some fmt →
      asked.length ≤ 41 := by
    intro hf
    split_ifs at hf with hlen
    simpa [halNameLen] using hlen
  cases type with
  | inst => exact absurd rfl hinst
  | pin | param | ring | component | plug =>
    have hle := hbuf h
    simp only [cutLengths, List.mem_cons, List.not_mem_nil, or_false, not_or] at hcut
    omega
  | signal | thread | funct | group | member | vtable =>
    have hle := hcheck h
    omega

section StoredName

variable {type : HalObjectType} {asked fmt printed stored : String}
  {undef : String → Option String}

/-- A name that is stored although it is longer than 126 bytes was cut. -/
lemma length_le_of_stored (hadm : admitName type asked = some fmt) (hpc : '%' ∉ asked.toList)
    (hcut : asked.length ∉ cutLengths type) (hp : printFormat undef fmt = some printed)
    (hs : hhSetNamefv printed = some stored) : asked.length ≤ 126 := by
  by_cases hinst : type = .inst
  · subst hinst
    cases hadm
    rw [printFormat_eq_self hpc] at hp
    cases hp
    have hle := (fmtAp_eq_some hs).1
    simp only [cutLengths, List.mem_cons, List.not_mem_nil, or_false] at hcut
    omega
  · exact admitName_length hadm hcut hinst

/-- **Which names are stored as they were passed**, among those that print without arguments:
the ones without a percent sign and of a length at which nothing is cut. -/
theorem storedName_eq_iff (hadm : admitName type asked = some fmt)
    (hp : printFormat undef fmt = some printed) (hs : hhSetNamefv printed = some stored)
    (hdef : (percents asked.toList).isSome = true) :
    stored = asked ↔ '%' ∉ asked.toList ∧ asked.length ∉ cutLengths type := by
  constructor
  · rintro rfl
    have hle : stored.length ≤ 126 := (fmtAp_length hs).1
    obtain rfl := admitName_short hadm hle
    refine ⟨fun hpc => ?_, fun hcut => ?_⟩
    · obtain ⟨cs, hcs⟩ := Option.isSome_iff_exists.1 hdef
      rw [printFormat, hcs] at hp
      cases hp
      have hlt := (percents_length hcs).2 hpc
      have hlen := (fmtAp_length hs).2
      rw [String.length_toList] at hlt
      rw [String.length_ofList] at hlen
      omega
    · have hcuts : ∀ n ∈ cutLengths type, 127 ≤ n := by
        cases type <;> simp [cutLengths]
      have := hcuts _ hcut
      omega
  · rintro ⟨hpc, hcut⟩
    have hle := length_le_of_stored hadm hpc hcut hp hs
    obtain rfl := admitName_short hadm hle
    rw [printFormat_eq_self hpc] at hp
    cases hp
    rw [hhSetNamefv, fmtAp_of_lt (by omega)] at hs
    exact (Option.some.inj hs).symm

end StoredName

/-! ### Runs -/

/-- The name of a new object has no percent sign and is not cut, and a param gets a name of
its own. -/
def nameOk (s : ObjectHal) (a : ObjectAct) : Bool :=
  (a.asked s).all fun p => !p.2.toList.contains '%' && !(cutLengths p.1).contains p.2.length &&
    (p.1 != .param || (s.findObjectByName (some .param) p.2).isNone)

lemma nameOk_iff {s : ObjectHal} {a : ObjectAct} {type : HalObjectType} {name : String}
    (h : a.asked s = some (type, name)) : nameOk s a = true ↔
      ('%' ∉ name.toList ∧ name.length ∉ cutLengths type) ∧
        (type = .param → s.findObjectByName (some .param) name = none) := by
  simp only [nameOk, h, Option.all_some, Bool.and_eq_true, Bool.not_eq_true',
    List.contains_eq_mem, decide_eq_false_iff_not, Bool.or_eq_true, bne_iff_ne, ne_eq,
    Option.isNone_iff_eq_none]
  tauto

/-- Valid objects are named as it was asked for, and no two of a type alike; vtables of one
name have different versions. -/
structure NamesInv (s : ObjectHal) : Prop where
  offs : (s.objects.map Obj.off).Nodup
  exact : ∀ o ∈ s.objects, o.hdr.valid = true → o.hdr.name = o.body.asked
  unique : ∀ o ∈ s.objects, ∀ o' ∈ s.objects, o.hdr.valid = true → o'.hdr.valid = true →
    o.body.type = o'.body.type → o.hdr.name = o'.hdr.name →
    (o.body.type = .vtable → o.body.version = o'.body.version) → o = o'

namespace NamesInv

variable {s s' : ObjectHal} {a : ObjectAct}

/-- What is valid afterwards has the name it had. -/
lemma fewer (h : NamesInv s) (hf : Fewer s s') : NamesInv s' := by
  refine ⟨h.offs.sublist hf.offs, fun o' ho' hv' => ?_,
    fun o' ho' p' hp' hv' hw' htype hname hver => ?_⟩
  · obtain ⟨o, ho, hs⟩ := hf.objects o' ho' hv'
    rw [hs.name, hs.body]
    exact h.exact o ho (hs.valid ▸ hv')
  · obtain ⟨o, ho, hs⟩ := hf.objects o' ho' hv'
    obtain ⟨p, hp, ht⟩ := hf.objects p' hp' hw'
    rw [hs.body, ht.body] at htype hver
    have hop : o = p := h.unique o ho p hp (hs.valid ▸ hv') (ht.valid ▸ hw') htype
      (hs.name.symm.trans (hname.trans ht.name)) hver
    exact eq_of_key (h.offs.sublist hf.offs) ho' hp' (by rw [hs.off, ht.off, hop])

variable {e : CreateEnv} {r : Request} {new : Obj ObjDesc}

/-- The name of a new object is the one asked for, exactly if it is stored whole. -/
lemma created_name (hadm : Admitted s a e r) (hnew : Created s e r new)
    (hdef : (percents r.asked.toList).isSome = true) :
    new.hdr.name = r.asked ↔ '%' ∉ r.asked.toList ∧ r.asked.length ∉ cutLengths r.type := by
  obtain ⟨printed, hp, hs⟩ := hnew.name
  exact storedName_eq_iff hadm.name hp hs hdef

lemma created (h : NamesInv s) (hadm : Admitted s a e r) (hnew : Created s e r new)
    (hoff : new.off ∉ s.objects.map Obj.off) (hobjs : s'.objects = addTyped new s.objects)
    (hok : nameOk s a = true) : NamesInv s' := by
  obtain ⟨⟨hpc, hcut⟩, hparam⟩ := (nameOk_iff hadm.asked).1 hok
  have hbody := hnew.body
  have hname : new.hdr.name = r.asked :=
    (created_name hadm hnew (by rw [percents_eq_self hpc]; rfl)).2 ⟨hpc, hcut⟩
  have hfmt : r.fmt = r.asked := by
    obtain ⟨printed, hp, hs⟩ := hnew.name
    exact admitName_short hadm.name (length_le_of_stored hadm.name hpc hcut hp hs)
  have hfresh : ∀ o ∈ s.objects, o.hdr.valid = true → o.body.type = new.body.type →
      o.hdr.name = new.hdr.name →
      new.body.type = .vtable ∧ o.body.version ≠ new.body.version := by
    intro o ho hv ht hn
    rw [hbody] at ht ⊢
    by_cases hp : r.type = .param
    · refine absurd (hn.trans hname) (findByName_none (hparam hp) o (mem_typed.2 ⟨ho, ?_⟩) hv)
      exact ht.trans hp
    · exact hadm.unique hp o ho hv ht (hn.trans (hname.trans hfmt.symm))
  refine ⟨hobjs ▸ nodup_addTyped h.offs hoff, fun o ho hv => ?_,
    fun o ho p hp hv hw htype hn hver => ?_⟩
  · rcases mem_addTyped.1 (hobjs ▸ ho) with rfl | ho
    · rw [hname, hbody]
    · exact h.exact o ho hv
  · rcases mem_addTyped.1 (hobjs ▸ ho) with rfl | ho <;>
      rcases mem_addTyped.1 (hobjs ▸ hp) with rfl | hp
    · rfl
    · obtain ⟨hvt, hne⟩ := hfresh p hp hw htype.symm hn.symm
      exact absurd (hver hvt).symm hne
    · obtain ⟨hvt, hne⟩ := hfresh o ho hv htype hn
      exact absurd (hver (htype.trans hvt)) hne
    · exact h.unique o ho p hp hv hw htype hn hver

lemma step (h : NamesInv s) (hok : nameOk s a = true) (hs : objectStep s a = some s') :
    NamesInv s' := by
  rcases objectStep_cases hs with ⟨-, hf⟩ | ⟨e, r, new, -, hadm, hnew, hoff, -, hobjs⟩
  · exact h.fewer hf
  · exact h.created hadm hnew hoff hobjs hok

end NamesInv

/-- A call that makes an object for a name that prints without arguments stores the name as
it was passed exactly if it has no percent sign and is not cut. -/
lemma objectCall_name {s : ObjectHal} {a : ObjectAct} {type : HalObjectType} {name : String}
    {new : Obj ObjDesc} (hasked : a.asked s = some (type, name))
    (hdef : (percents name.toList).isSome = true) (hmade : (objectCall a s).1 = some new) :
    new.hdr.name = name ↔ '%' ∉ name.toList ∧ name.length ∉ cutLengths type := by
  have hchange := objectCall_change a s
  generalize objectCall a s = res at hchange hmade
  cases hchange with
  | fewer hf => cases hmade
  | created e r new' hadm hnew hd hcounter hobjs =>
    cases hmade
    rw [hadm.asked, Option.some.injEq, Prod.mk.injEq] at hasked
    obtain ⟨rfl, rfl⟩ := hasked
    exact NamesInv.created_name hadm hnew hdef

/-! ### Names that are too long -/

/-- A name that is longer than the buffer is refused. -/
lemma fmtAp_eq_none {size : ℕ} {name : String} (h : size < name.length) :
    fmtAp size name = none := if_pos h

/-- `halg_create_objectf` fails for a name that its own buffer cannot hold. -/
lemma create_tooLong (s : ObjectHal) (e : CreateEnv) {r : Request} (hpc : '%' ∉ r.fmt.toList)
    (hlen : 127 < r.fmt.length) :
    (s.create e r).1 = none ∧ (s.create e r).2.objects = s.objects := by
  rw [create]
  split
  · exact ⟨rfl, rfl⟩
  · have hnone : hhSetNamefv r.fmt = none := fmtAp_eq_none hlen
    simp only [printFormat_eq_self hpc, halgCreateObject, hnone]
    exact ⟨trivial, rfl⟩

/-- Signals, threads and groups. -/
lemma newToplevel_tooLong (s : ObjectHal) (type : HalObjectType) (e : CreateEnv) {name : String}
    (hlen : halNameLen < name.length) : s.newToplevel type e name = (none, s) := by
  rw [newToplevel]
  split
  · rfl
  · rfl

/-- A name of more than 126 bytes that would not be cut makes no object. -/
lemma objectCall_tooLong {s : ObjectHal} {a : ObjectAct} {type : HalObjectType} {name : String}
    (hasked : a.asked s = some (type, name)) (hpc : '%' ∉ name.toList)
    (hcut : name.length ∉ cutLengths type) (hlen : 126 < name.length) :
    (objectCall a s).1 = none ∧ (objectCall a s).2.objects = s.objects := by
  have hsame : ∀ {res : Option (Obj ObjDesc) × ObjectHal}, res = (none, s) →
      res.1 = none ∧ res.2.objects = s.objects := by
    rintro _ rfl
    exact ⟨rfl, rfl⟩
  have hlong : halNameLen < name.length := by
    rw [halNameLen]
    omega
  have h128 : name.length ∉ [127, 128] → fmtAp 128 name = none := by
    intro h
    simp only [List.mem_cons, List.not_mem_nil, or_false, not_or] at h
    exact fmtAp_eq_none (by omega)
  have h127 : name.length ∉ [127] → 127 < name.length := by
    intro h
    simp only [List.mem_cons, List.not_mem_nil, or_false] at h
    omega
  cases a with
  | xinit e n =>
    cases hasked
    exact hsame (by simp only [objectCall, halgXinitfv, h128 hcut, ite_self])
  | pinNew e ownerId n =>
    cases hasked
    exact hsame (by simp only [objectCall, halgPinNewfv, h128 hcut, ite_self])
  | paramNew e ownerId n =>
    cases hasked
    exact hsame (by simp only [objectCall, halgParamNewfv, h128 hcut, ite_self])
  | ringNew e n =>
    cases hasked
    exact hsame (by simp only [objectCall, halgRingNewfv, h128 hcut, ite_self])
  | plugNew e args =>
    obtain ⟨⟨owner, n⟩, hname, heq⟩ := Option.map_eq_some_iff.1 hasked
    cases heq
    refine hsame ?_
    simp only [objectCall, halgPlugNew, hname, fmtAp_eq_none (h127 hcut), ite_self]
  | exportFunct e ownerId n =>
    cases hasked
    exact hsame (by simp only [objectCall, halgExportXfunctfv, if_pos hlong, ite_self])
  | memberNew e group n =>
    cases hasked
    exact hsame (by simp only [objectCall, halgMemberNew, if_pos hlong, ite_self])
  | exportVtable e n version compId =>
    cases hasked
    exact hsame (by simp only [objectCall, halgExportVtable, if_pos hlong, ite_self])
  | signalNew e n =>
    cases hasked
    exact hsame (newToplevel_tooLong s _ e hlong)
  | createThread e n =>
    cases hasked
    exact hsame (newToplevel_tooLong s _ e hlong)
  | groupNew e n =>
    cases hasked
    exact hsame (newToplevel_tooLong s _ e hlong)
  | instCreate e n compId =>
    cases hasked
    rw [objectCall, halgInstCreate]
    split
    · exact ⟨rfl, rfl⟩
    · split
      · exact ⟨rfl, rfl⟩
      · split
        · exact ⟨rfl, rfl⟩
        · exact create_tooLong s e hpc (h127 hcut)
  | rtapiInit | exit | instDelete | groupDelete | removeVtable | delete | incref | decref
  | sweep => cases hasked

/-- **Object names** as long as no creation is asked for a name with a percent sign, or of a
length at which it is cut (127 or 128 bytes for pins, params, rings and components, 127 for
plugs and instances), or for a param that exists: names are those passed by the callers and
unique, for vtables together with the version, and a name of more than the 126 bytes that can
be stored is refused and changes nothing. Of the names that print without arguments,
exactly the others are not stored as they were passed. -/
theorem object_names {s : ObjectHal}
    (hr : Reach objectStep (fun s a => nameOk s a = true) ObjectHal.fresh s) :
    (∀ o ∈ s.objects, o.hdr.valid = true → o.hdr.name = o.body.asked) ∧
    (∀ o ∈ s.objects, ∀ o' ∈ s.objects, o.hdr.valid = true → o'.hdr.valid = true →
      o.body.type = o'.body.type → o.hdr.name = o'.hdr.name →
      (o.body.type = .vtable → o.body.version = o'.body.version) → o = o') ∧
    (∀ a type name, a.asked s = some (type, name) → nameOk s a = true → 126 < name.length →
      (objectCall a s).1 = none ∧ (objectCall a s).2.objects = s.objects) ∧
    ∀ a type name new, a.asked s = some (type, name) → (percents name.toList).isSome = true →
      (objectCall a s).1 = some new →
      (new.hdr.name = name ↔ '%' ∉ name.toList ∧ name.length ∉ cutLengths type) := by
  have h0 : NamesInv ObjectHal.fresh := by
    refine ⟨?_, ?_, ?_⟩ <;> simp [ObjectHal.fresh]
  have h : NamesInv s := hr.invariant h0 fun h hok hs => h.step hok hs
  refine ⟨h.exact, h.unique, fun a type name hasked hok hlen => ?_,
    fun a type name new hasked hdef hmade => objectCall_name hasked hdef hmade⟩
  obtain ⟨⟨hpc, hcut⟩, -⟩ := (nameOk_iff hasked).1 hok
  exact objectCall_tooLong hasked hpc hcut hlen

/-- A component with a pin and a param. -/
def namedObjects : List ObjectAct :=
  [.xinit (.plain 64) "comp",
    .pinNew (.plain 128) 66 "comp.in", .paramNew (.plain 192) 66 "comp.in"]

/-- A pin and a param have one name. -/
theorem object_names_namedObjects : ∃ s,
    run objectStep nameOk ObjectHal.fresh namedObjects = some s ∧
    (s.objects.map fun o => (o.body.type, o.hdr.name))
      = [(.component, "comp"), (.pin, "comp.in"), (.param, "comp.in")] ∧
    ∀ o ∈ s.objects, o.hdr.valid = true → o.hdr.name = o.body.asked := by
  have hs : (run objectStep nameOk ObjectHal.fresh namedObjects).map
      (fun s => s.objects.map fun o => (o.body.type, o.hdr.name))
      = some [(.component, "comp"), (.pin, "comp.in"), (.param, "comp.in")] := by
    decide
  obtain ⟨s, hs, hv, hr⟩ := run_map hs
  exact ⟨s, hs, hv, (object_names hr).1⟩

/-- A component with two params of one name, and with a pin whose name has two percent
signs. -/
def badNames : List ObjectAct :=
  [.xinit (.plain 64) "comp", .paramNew (.plain 128) 66 "gain", .paramNew (.plain 192) 66 "gain",
    .pinNew (.plain 256) 66 "load%%"]

/-- Both params are created, and the pin is stored under another name. -/
theorem object_names_badNames : ¬ ∀ s : ObjectHal,
    Reach objectStep (fun _ _ => true = true) ObjectHal.fresh s →
    (∀ o ∈ s.objects, o.hdr.valid = true → o.hdr.name = o.body.asked) ∧
    ∀ o ∈ s.objects, ∀ o' ∈ s.objects, o.hdr.valid = true → o'.hdr.valid = true →
      o.body.type = o'.body.type → o.hdr.name = o'.hdr.name →
      (o.body.type = .vtable → o.body.version = o'.body.version) → o = o' := by
  intro hall
  have hs : (run objectStep (fun _ _ => true) ObjectHal.fresh badNames).map
      (fun s => s.objects.map fun o => (o.off, o.hdr.valid, o.hdr.name, o.body.asked))
      = some [(64, true, "comp", "comp"), (128, true, "gain", "gain"),
        (192, true, "gain", "gain"), (256, true, "load%", "load%%")] := by decide
  obtain ⟨s, -, hv, hr⟩ := run_map hs
  have hmem : (256, true, "load%", "load%%")
      ∈ s.objects.map fun o => (o.off, o.hdr.valid, o.hdr.name, o.body.asked) := by
    rw [hv]
    simp
  obtain ⟨o, ho, heq⟩ := List.mem_map.1 hmem
  simp only [Prod.mk.injEq] at heq
  obtain ⟨-, hval, hname, hasked⟩ := heq
  have hexact := (hall s hr).1 o ho hval
  rw [hname, hasked] at hexact
  exact absurd hexact (by decide)

end MachinekitHal
