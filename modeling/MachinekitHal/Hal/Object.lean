import MachinekitHal.Basic
import MachinekitHal.Lib.Store

/-!
`hal_object.c`, `hal_object.h`: HAL objects and the object list.

A HAL object is a header and the descriptor of its type, at an offset in the HAL
segment. All objects are on one list; every traversal modelled here visits the
objects of one type only, so the model keeps one list for each type, in list order.
An object that was freed stays on the list, marked invalid, until `hal_sweep`.

* `halgForeach`: the traversal, with a callback that goes on; `halgForeach_rule` and
  `halgForeach_clears` are its rules.

A C string is a `String` whose characters are its bytes; names are taken literally,
without the conversions a `%` in them would cause. What the descriptor allocator and
`rtapi_next_handle` return is given as an argument (`Alloc`).
-/

namespace MachinekitHal

open Store

/-- `halhdr_t`, less the list links. -/
structure Halhdr where
  id : Int16
  ownerId : Int16
  name : String
  refcnt : BitVec 7
  legacy : Bool
  valid : Bool
  rmb : Bool
  wmb : Bool
  deriving DecidableEq

/-- An object of one type at offset `off` of the HAL segment. -/
structure Obj (α : Type) where
  off : ℕ
  hdr : Halhdr
  body : α
  deriving DecidableEq

/-- The offset and the handle given to a new object. -/
structure Alloc where
  off : ℕ
  handle : ℤ

/-- `fmt_ap` into a buffer of `size` bytes. -/
def fmtAp (size : ℕ) (name : String) : Option String :=
  if size < name.length then none else some (String.ofList (name.toList.take (size - 1)))

/-- `hh_set_namefv`: the name as it is stored, from a buffer of
`MAX_OBJECT_NAME_LEN` bytes. -/
def hhSetNamefv (name : String) : Option String := fmtAp 127 name

/-- `hh_clear_hdr`. -/
def Halhdr.clear (hh : Halhdr) : Halhdr :=
  { hh with id := 0, ownerId := 0, valid := false, refcnt := 0 }

variable {α σ : Type}

/-- `halg_create_objectf`: a new object, not yet on the list. The descriptor memory is
cleared, so the flags are. -/
def halgCreateObject (mem : Option Alloc) (ownerId : ℤ) (name : String) (body : α) :
    Option (Obj α) :=
  match mem, hhSetNamefv name with
  | some m, some stored => some
      { off := m.off
        hdr := { id := Int16.ofInt m.handle, ownerId := Int16.ofInt ownerId, name := stored
                 refcnt := 0, legacy := false, valid := true, rmb := false, wmb := false }
        body := body }
  | _, _ => none

/-- `halg_find_object_by_name`. -/
def findByName (name : String) (l : List (Obj α)) : Option (Obj α) :=
  l.find? fun o => o.hdr.valid && o.hdr.name == name

/-- `halg_find_object_by_id`; an id of `0` is no filter. -/
def findById (id : ℤ) (l : List (Obj α)) : Option (Obj α) :=
  l.find? fun o => o.hdr.valid && (id == 0 || o.hdr.id.toInt == id)

/-- `halg_add_object`: before the first valid object with a larger name. -/
def addObject (new : Obj α) : List (Obj α) → List (Obj α)
  | [] => [new]
  | o :: l =>
    if o.hdr.valid && decide (new.hdr.name < o.hdr.name) then new :: o :: l
    else o :: addObject new l

/-- `halg_free_object` on the object itself: refused while it is referenced. -/
def Obj.release (o : Obj α) : Obj α :=
  if o.hdr.refcnt ≠ 0 then o else { o with hdr := o.hdr.clear }

/-- `halg_free_object`: the object at `off`. -/
def halgFreeObject (off : ℕ) (l : List (Obj α)) : List (Obj α) :=
  modify Obj.off off Obj.release l

/-- The return value of `halg_free_object`. -/
def freeRc (o : Obj α) : Option Errno := if o.hdr.refcnt ≠ 0 then some .EBUSY else none

/-- `hal_sweep`. -/
def sweep (l : List (Obj α)) : List (Obj α) := l.filter fun o => o.hdr.valid

/-- One visit of `halg_foreach`: the callback runs if the object is valid and
matches when it is reached. -/
def visit (objs : σ → List (Obj α)) (sel : Obj α → Bool) (cb : ℕ → σ → σ) (s : σ) (off : ℕ) : σ :=
  match at? Obj.off off (objs s) with
  | some o => if o.hdr.valid && sel o then cb off s else s
  | none => s

/-- `halg_foreach` with a callback that never stops it. No callback takes objects off
the list, so the list walked is the one at the start. -/
def halgForeach (objs : σ → List (Obj α)) (sel : Obj α → Bool) (cb : ℕ → σ → σ) (s : σ) : σ :=
  ((objs s).map Obj.off).foldl (visit objs sel cb) s

/-! ### Looking up and inserting -/

lemma findByName_mem {l : List (Obj α)} {name : String} {o : Obj α}
    (h : findByName name l = some o) : o ∈ l ∧ o.hdr.valid = true := by
  have hp := List.find?_some h
  simp only [Bool.and_eq_true] at hp
  exact ⟨List.mem_of_find?_eq_some h, hp.1⟩

lemma findById_mem {l : List (Obj α)} {id : ℤ} {o : Obj α} (h : findById id l = some o) :
    o ∈ l ∧ o.hdr.valid = true := by
  have hp := List.find?_some h
  simp only [Bool.and_eq_true] at hp
  exact ⟨List.mem_of_find?_eq_some h, hp.1⟩

/-- The object `halg_create_objectf` returns, whole. -/
lemma halgCreateObject_some {mem : Option Alloc} {ownerId : ℤ} {name : String} {body : α}
    {new : Obj α} (hn : halgCreateObject mem ownerId name body = some new) :
    ∃ m stored, mem = some m ∧ hhSetNamefv name = some stored ∧ new =
      { off := m.off
        hdr := { id := Int16.ofInt m.handle, ownerId := Int16.ofInt ownerId, name := stored
                 refcnt := 0, legacy := false, valid := true, rmb := false, wmb := false }
        body := body } := by
  cases mem with
  | none => simp [halgCreateObject] at hn
  | some m =>
    cases hs : hhSetNamefv name with
    | none => simp [halgCreateObject, hs] at hn
    | some stored =>
      simp only [halgCreateObject, hs] at hn
      exact ⟨m, stored, rfl, rfl, (Option.some.inj hn).symm⟩

/-- Where the object is, who owns it and what it is. -/
lemma halgCreateObject_eq {mem : Option Alloc} {ownerId : ℤ} {name : String} {body : α}
    {new : Obj α} (hn : halgCreateObject mem ownerId name body = some new) :
    ∃ m, mem = some m ∧ new.off = m.off ∧ new.hdr.ownerId = Int16.ofInt ownerId ∧
      new.hdr.valid = true ∧ new.body = body := by
  obtain ⟨m, -, hm, -, rfl⟩ := halgCreateObject_some hn
  exact ⟨m, hm, rfl, rfl, rfl, rfl⟩

/-- A new object is not referenced. -/
lemma halgCreateObject_refcnt {mem : Option Alloc} {ownerId : ℤ} {name : String} {body : α}
    {new : Obj α} (hn : halgCreateObject mem ownerId name body = some new) :
    new.hdr.refcnt = 0 := by
  obtain ⟨-, -, -, -, rfl⟩ := halgCreateObject_some hn
  rfl

/-- A new object demands no barrier. -/
lemma halgCreateObject_barriers {mem : Option Alloc} {ownerId : ℤ} {name : String} {body : α}
    {new : Obj α} (hn : halgCreateObject mem ownerId name body = some new) :
    new.hdr.rmb = false ∧ new.hdr.wmb = false := by
  obtain ⟨-, -, -, -, rfl⟩ := halgCreateObject_some hn
  exact ⟨rfl, rfl⟩

/-- An id that finds an object is `0` or the 16-bit id of that object. -/
lemma findById_id {l : List (Obj α)} {id : ℤ} {o : Obj α} (h : findById id l = some o) :
    id = 0 ∨ id = o.hdr.id.toInt := by
  have hp := List.find?_some h
  simp only [Bool.and_eq_true, Bool.or_eq_true, beq_iff_eq] at hp
  rcases hp.2 with h0 | h0
  · exact .inl h0
  · exact .inr h0.symm

/-- Insertion adds the new object, wherever it lands. -/
lemma addObject_perm (new : Obj α) (l : List (Obj α)) : (addObject new l).Perm (new :: l) := by
  induction l with
  | nil => exact List.Perm.refl _
  | cons o l ih =>
    rw [addObject]
    split_ifs
    · exact List.Perm.refl _
    · exact (ih.cons o).trans (List.Perm.swap new o l)

lemma mem_addObject {new o : Obj α} {l : List (Obj α)} :
    o ∈ addObject new l ↔ o = new ∨ o ∈ l := by
  rw [(addObject_perm new l).mem_iff, List.mem_cons]

/-- A new object is found if no other is. -/
lemma find?_addObject {new : Obj α} {l : List (Obj α)} {q : Obj α → Bool} (hq : q new = true)
    (hl : ∀ o ∈ l, q o = false) : (addObject new l).find? q = some new := by
  induction l with
  | nil => exact List.find?_cons_of_pos hq
  | cons o l ih =>
    rw [addObject]
    split_ifs
    · exact List.find?_cons_of_pos hq
    · have ho : ¬ q o = true := by simp [hl o (.head _)]
      rw [List.find?_cons_of_neg ho]
      exact ih fun o' ho' => hl o' (.tail _ ho')

/-- A new object is found by its name, if there was none. -/
lemma findByName_addObject {new : Obj α} {l : List (Obj α)} (hv : new.hdr.valid = true)
    (hno : findByName new.hdr.name l = none) :
    findByName new.hdr.name (addObject new l) = some new :=
  find?_addObject (by simp [hv]) fun o ho => by simpa using List.find?_eq_none.1 hno o ho

/-- Insertion adds nothing that a filter leaves out. -/
lemma filter_addObject {new : Obj α} {l : List (Obj α)} {q : Obj α → Bool} (hq : q new = false) :
    (addObject new l).filter q = l.filter q := by
  induction l with
  | nil => simp [addObject, hq]
  | cons o l ih =>
    rw [addObject]
    split_ifs
    · rw [List.filter_cons, hq, if_neg Bool.false_ne_true]
    · rw [List.filter_cons, ih, List.filter_cons]

/-- A write to the new object that keeps its name. -/
lemma modify_addObject {new : Obj α} {l : List (Obj α)} {f : Obj α → Obj α}
    (hf : (f new).hdr.name = new.hdr.name) (hoff : new.off ∉ l.map Obj.off) :
    modify Obj.off new.off f (addObject new l) = addObject (f new) l := by
  induction l with
  | nil => simp [addObject, Store.modify]
  | cons o l ih =>
    rw [List.map_cons, List.mem_cons, not_or] at hoff
    have hrest : modify Obj.off new.off f l = l := modify_eq_self hoff.2
    have hcons (o' : Obj α) (l' : List (Obj α)) : modify Obj.off new.off f (o' :: l') =
        (if o'.off = new.off then f o' else o') :: modify Obj.off new.off f l' := rfl
    rw [addObject, addObject, hf]
    split_ifs
    · rw [hcons, hcons, if_pos rfl, if_neg (Ne.symm hoff.1), hrest]
    · rw [hcons, if_neg (Ne.symm hoff.1), ih hoff.2]

/-- A new offset keeps the offsets distinct. -/
lemma nodup_addObject {new : Obj α} {l : List (Obj α)} (hnd : (l.map Obj.off).Nodup)
    (hnew : new.off ∉ l.map Obj.off) : ((addObject new l).map Obj.off).Nodup := by
  rw [((addObject_perm new l).map Obj.off).nodup_iff, List.map_cons, List.nodup_cons]
  exact ⟨hnew, hnd⟩

/-- The valid objects are in `strcmp` order of their names. -/
def NamesSorted (l : List (Obj α)) : Prop :=
  l.Pairwise fun o o' => o.hdr.valid = true → o'.hdr.valid = true → ¬ o'.hdr.name < o.hdr.name

/-- Where insertion puts the new object: after those that are not valid and larger. -/
lemma addObject_split {new : Obj α} {l l' : List (Obj α)}
    (hl : ∀ o ∈ l, ¬ (o.hdr.valid = true ∧ new.hdr.name < o.hdr.name))
    (hl' : ∀ o ∈ l'.head?, o.hdr.valid = true ∧ new.hdr.name < o.hdr.name) :
    addObject new (l ++ l') = l ++ new :: l' := by
  induction l with
  | nil =>
    cases l' with
    | nil => rfl
    | cons o l' =>
      have ho := hl' o rfl
      simp [addObject, ho]
  | cons o l ih =>
    have ho := hl o (.head _)
    have hcons : addObject new (o :: (l ++ l')) = o :: addObject new (l ++ l') := by
      rw [addObject, if_neg]
      simpa using ho
    rw [List.cons_append, hcons, ih fun o' ho' => hl o' (.tail _ ho')]
    rfl

/-- Insertion keeps the order. -/
lemma namesSorted_addObject {new : Obj α} {l : List (Obj α)} (h : NamesSorted l) :
    NamesSorted (addObject new l) := by
  induction l with
  | nil => exact List.pairwise_singleton _ _
  | cons o l ih =>
    obtain ⟨ho, hl⟩ := List.pairwise_cons.1 h
    rw [addObject]
    split_ifs with hlt
    · simp only [Bool.and_eq_true, decide_eq_true_eq] at hlt
      refine List.pairwise_cons.2 ⟨?_, h⟩
      intro o' ho' hv hv' hlt'
      rcases List.mem_cons.1 ho' with rfl | ho'
      · exact String.lt_asymm hlt.2 hlt'
      · exact ho o' ho' hlt.1 hv' (String.lt_trans hlt' hlt.2)
    · simp only [Bool.and_eq_true, decide_eq_true_eq, not_and] at hlt
      refine List.pairwise_cons.2 ⟨?_, ih hl⟩
      intro o' ho' hv hv'
      rcases mem_addObject.1 ho' with rfl | ho'
      · exact hlt hv
      · exact ho o' ho' hv hv'

/-! ### Names -/

/-- A name that fits with its trailing zero is printed whole. -/
lemma fmtAp_of_lt {size : ℕ} {name : String} (h : name.length < size) :
    fmtAp size name = some name := by
  rw [fmtAp, if_neg (by omega), List.take_of_length_le, String.ofList_toList]
  rw [String.length_toList]
  omega

/-- No two valid objects have the same name. -/
def NamesUnique (l : List (Obj α)) : Prop :=
  ∀ o ∈ l, ∀ o' ∈ l, o.hdr.valid = true → o'.hdr.valid = true → o.hdr.name = o'.hdr.name → o = o'

/-- What identifies an object: its offset and, if it is valid, its name. -/
def Obj.tag (o : Obj α) : ℕ × Bool × String := (o.off, o.hdr.valid, o.hdr.name)

lemma findByName_name {l : List (Obj α)} {name : String} {o : Obj α}
    (h : findByName name l = some o) : o.hdr.name = name := by
  have hp := List.find?_some h
  simp only [Bool.and_eq_true, beq_iff_eq] at hp
  exact hp.2

/-- Only the valid objects of a list are found by name. -/
lemma findByName_filter (name : String) (l : List (Obj α)) :
    findByName name (l.filter fun o => o.hdr.valid) = findByName name l := by
  rw [findByName, List.find?_filter, findByName]
  congr 1
  funext o
  rw [Bool.eq_iff_iff]
  simp

/-- No valid object has a name that is not found. -/
lemma findByName_none {l : List (Obj α)} {name : String} (h : findByName name l = none) :
    ∀ o ∈ l, o.hdr.valid = true → o.hdr.name ≠ name := by
  intro o ho hv hn
  have hno := List.find?_eq_none.1 h o ho
  simp [hv, hn] at hno

/-- A unique name finds its object. -/
lemma NamesUnique.find {l : List (Obj α)} {o : Obj α} (hu : NamesUnique l) (ho : o ∈ l)
    (hv : o.hdr.valid = true) : findByName o.hdr.name l = some o := by
  cases hf : findByName o.hdr.name l with
  | none => exact absurd rfl (findByName_none hf o ho hv)
  | some o' =>
    obtain ⟨ho', hv'⟩ := findByName_mem hf
    rw [hu o ho o' ho' hv hv' (findByName_name hf).symm]

/-- Names stay unique when objects disappear. -/
lemma NamesUnique.subset {l l' : List (Obj α)} (hu : NamesUnique l)
    (hsub : ∀ o ∈ l', o.hdr.valid = true → o ∈ l) : NamesUnique l' :=
  fun o ho o' ho' hv hv' hn => hu o (hsub o ho hv) o' (hsub o' ho' hv') hv hv' hn

/-- An object whose name was not found can be added. -/
lemma NamesUnique.addObject {l : List (Obj α)} {new : Obj α} (hu : NamesUnique l)
    (hn : findByName new.hdr.name l = none) : NamesUnique (addObject new l) := by
  have hno := findByName_none hn
  intro o ho o' ho' hv hv' he
  rcases mem_addObject.1 ho with h | h <;> rcases mem_addObject.1 ho' with h' | h'
  · rw [h, h']
  · exact absurd (h ▸ he).symm (hno o' h' hv')
  · exact absurd (h' ▸ he) (hno o h hv)
  · exact hu o h o' h' hv hv' he

/-- Every object of a list has its tag in a list with the same tags. -/
lemma exists_of_tags {β : Type} {l : List (Obj α)} {l' : List (Obj β)}
    (ht : l'.map Obj.tag = l.map Obj.tag) {o' : Obj β} (ho' : o' ∈ l') :
    ∃ o ∈ l, o.off = o'.off ∧ o.hdr.valid = o'.hdr.valid ∧ o.hdr.name = o'.hdr.name := by
  have hmem : o'.tag ∈ l.map Obj.tag := ht ▸ List.mem_map_of_mem ho'
  obtain ⟨o, ho, htag⟩ := List.mem_map.1 hmem
  simp only [Obj.tag, Prod.mk.injEq] at htag
  exact ⟨o, ho, htag.1, htag.2.1, htag.2.2⟩

/-- Uniqueness depends on the tags only. -/
lemma NamesUnique.of_tags {l l' : List (Obj α)} (hu : NamesUnique l)
    (hnd : (l'.map Obj.off).Nodup) (ht : l'.map Obj.tag = l.map Obj.tag) : NamesUnique l' := by
  intro o ho o' ho' hv hv' hn
  obtain ⟨a, ha, hoff, hav, han⟩ := exists_of_tags ht ho
  obtain ⟨a', ha', hoff', hav', han'⟩ := exists_of_tags ht ho'
  have haa : a = a' := hu a ha a' ha' (hav.trans hv) (hav'.trans hv') (by rw [han, han', hn])
  exact eq_of_key hnd ho ho' (by rw [← hoff, ← hoff', haa])

/-! ### Releasing and sweeping -/

@[simp] lemma Obj.release_off (o : Obj α) : o.release.off = o.off := by
  rw [Obj.release]
  split_ifs <;> rfl

@[simp] lemma Obj.release_body (o : Obj α) : o.release.body = o.body := by
  rw [Obj.release]
  split_ifs <;> rfl

/-- Releasing leaves the object as it is or marks it invalid. -/
lemma Obj.release_cases (o : Obj α) : o.release = o ∨ o.release.hdr.valid = false := by
  rw [Obj.release]
  split_ifs
  · exact .inl rfl
  · exact .inr rfl

/-- An object that is not referenced is not valid after it was released. -/
lemma Obj.release_valid {o : Obj α} (hr : o.hdr.refcnt = 0) : o.release.hdr.valid = false := by
  rw [Obj.release, if_neg (by simp [hr])]
  rfl

/-- Releasing never makes an object valid. -/
lemma Obj.valid_of_release {o : Obj α} (h : o.release.hdr.valid = true) : o.release = o := by
  rcases o.release_cases with he | he
  · exact he
  · rw [he] at h
    exact absurd h Bool.false_ne_true

/-- What is valid after a release was there before, unchanged. -/
lemma mem_of_mem_free {off : ℕ} {l : List (Obj α)} {o : Obj α} (h : o ∈ halgFreeObject off l)
    (hv : o.hdr.valid = true) : o ∈ l := by
  obtain ⟨a, ha, rfl⟩ := mem_modify.1 h
  split_ifs at hv ⊢ with hk
  · rwa [Obj.valid_of_release hv]
  · exact ha

@[simp] lemma keys_free (off : ℕ) (l : List (Obj α)) :
    (halgFreeObject off l).map Obj.off = l.map Obj.off :=
  keys_modify Obj.release_off

/-- Freeing a referenced object does nothing. -/
lemma halgFreeObject_of_ref {l : List (Obj α)} {o : Obj α} (hnd : (l.map Obj.off).Nodup)
    (ho : o ∈ l) (hr : o.hdr.refcnt ≠ 0) : halgFreeObject o.off l = l := by
  refine modify_of_fixed fun a ha hk => ?_
  rw [eq_of_key hnd ha ho hk, Obj.release, if_pos hr]

/-- A valid object survives a free of another object, and of itself if it is referenced. -/
lemma mem_free_of {off : ℕ} {l : List (Obj α)} {o : Obj α} (ho : o ∈ l)
    (hk : o.off = off → o.hdr.refcnt ≠ 0) : o ∈ halgFreeObject off l := by
  refine mem_modify.2 ⟨o, ho, ?_⟩
  split_ifs with h
  · rw [Obj.release, if_pos (hk h)]
  · rfl

/-- An object that is not referenced is gone after it was freed. -/
lemma not_mem_free {l : List (Obj α)} {o : Obj α} (hv : o.hdr.valid = true)
    (hr : o.hdr.refcnt = 0) : o ∉ halgFreeObject o.off l := by
  intro hmem
  obtain ⟨a, -, hao⟩ := mem_modify.1 hmem
  split_ifs at hao with hk
  · have hva : a.release.hdr.valid = true := by rw [hao, hv]
    rw [Obj.valid_of_release hva] at hao
    subst hao
    simp [Obj.release, hr, Halhdr.clear] at hva
  · exact hk (by rw [hao])

lemma mem_sweep {l : List (Obj α)} {o : Obj α} : o ∈ sweep l ↔ o ∈ l ∧ o.hdr.valid = true := by
  simp [sweep]

lemma nodup_sweep {l : List (Obj α)} (hnd : (l.map Obj.off).Nodup) :
    ((sweep l).map Obj.off).Nodup :=
  hnd.sublist (List.filter_sublist.map Obj.off)

/-! ### Traversal -/

section Foreach

variable {objs : σ → List (Obj α)} {sel : Obj α → Bool} {cb : ℕ → σ → σ} {P : σ → Prop}

/-- What every callback on a valid, selected object keeps is kept by one visit. -/
lemma visit_rule (hcb : ∀ s o, P s → o ∈ objs s → o.hdr.valid = true → sel o = true →
    P (cb o.off s)) {s : σ} (h : P s) (off : ℕ) : P (visit objs sel cb s off) := by
  rw [visit]
  split
  case h_1 o hat =>
      have hk : o.off = off := by simpa using List.find?_some hat
      split_ifs with hsel
      · simp only [Bool.and_eq_true] at hsel
        exact hk ▸ hcb s o h (List.mem_of_find?_eq_some hat) hsel.1 hsel.2
      · exact h
  case h_2 => exact h

/-- The rule of a traversal: what every callback keeps holds after it. -/
theorem halgForeach_rule (hcb : ∀ s o, P s → o ∈ objs s → o.hdr.valid = true → sel o = true →
    P (cb o.off s)) {s : σ} (h : P s) : P (halgForeach objs sel cb s) := by
  rw [halgForeach]
  generalize (objs s).map Obj.off = offs
  induction offs generalizing s with
  | nil => exact h
  | cons off offs ih => exact ih (visit_rule hcb h off)

/-- A traversal that selects nothing does nothing. -/
lemma halgForeach_none {s : σ} (hsel : ∀ o ∈ objs s, o.hdr.valid = true → sel o = false) :
    halgForeach objs sel cb s = s := by
  refine halgForeach_rule (P := fun t => t = s) (fun t o ht ho hv hs => ?_) rfl
  rw [ht] at ho
  exact absurd hs (by simp [hsel o ho hv])

/-- A traversal with another callback that does the same. -/
lemma halgForeach_congr {cb' : ℕ → σ → σ} (hcb : ∀ s o, P s →
      at? Obj.off o.off (objs s) = some o → o.hdr.valid = true → sel o = true →
        cb o.off s = cb' o.off s ∧ P (cb' o.off s)) {s : σ} (h : P s) :
    halgForeach objs sel cb s = halgForeach objs sel cb' s := by
  rw [halgForeach, halgForeach]
  generalize (objs s).map Obj.off = offs
  induction offs generalizing s with
  | nil => rfl
  | cons off offs ih =>
    rw [List.foldl_cons, List.foldl_cons]
    have hvisit : visit objs sel cb s off = visit objs sel cb' s off ∧
        P (visit objs sel cb' s off) := by
      rw [visit, visit]
      cases hat : at? Obj.off off (objs s) with
      | none => exact ⟨rfl, h⟩
      | some o =>
        obtain rfl : o.off = off := by simpa using List.find?_some hat
        dsimp only
        by_cases hsel : (o.hdr.valid && sel o) = true
        · rw [if_pos hsel, if_pos hsel]
          simp only [Bool.and_eq_true] at hsel
          exact hcb s o h hat hsel.1 hsel.2
        · rw [if_neg hsel, if_neg hsel]
          exact ⟨rfl, h⟩
    rw [hvisit.1]
    exact ih hvisit.2

/-- A callback that changes its object by `f`, and leaves what selects it alone, changes
exactly the selected objects. -/
theorem halgForeach_modify {f : Obj α → Obj α}
    (hcb : ∀ s off, objs (cb off s) = modify Obj.off off f (objs s))
    (hoff : ∀ o, (f o).off = o.off) {s : σ} (hnd : ((objs s).map Obj.off).Nodup) :
    objs (halgForeach objs sel cb s)
      = (objs s).map fun o => if o.hdr.valid && sel o then f o else o := by
  suffices H : ∀ (offs : List ℕ) (s : σ), offs.Nodup → ((objs s).map Obj.off).Nodup →
      objs (offs.foldl (visit objs sel cb) s)
        = (objs s).map fun o => if o.off ∈ offs ∧ (o.hdr.valid && sel o) then f o else o by
    rw [halgForeach, H _ s hnd hnd]
    refine List.map_congr_left fun o ho => ?_
    simp [List.mem_map_of_mem ho]
  intro offs
  induction offs with
  | nil => simp
  | cons off offs ih =>
    intro s hofs hnd
    obtain ⟨hno, hrest⟩ := List.nodup_cons.1 hofs
    rw [List.foldl_cons]
    by_cases hsel : ∃ o ∈ objs s, o.off = off ∧ (o.hdr.valid && sel o) = true
    · obtain ⟨o, ho, rfl, hs⟩ := hsel
      have hvisit : visit objs sel cb s o.off = cb o.off s := by
        rw [visit, (at?_eq_some hnd).2 ⟨ho, rfl⟩]
        simp only [hs, if_true]
      have hkeys : (objs (cb o.off s)).map Obj.off = (objs s).map Obj.off := by
        rw [hcb]
        exact keys_modify hoff
      rw [hvisit, ih (cb o.off s) hrest (hkeys ▸ hnd), hcb, Store.modify, List.map_map]
      refine List.map_congr_left fun a ha => ?_
      by_cases hao : a.off = o.off
      · obtain rfl := eq_of_key hnd ha ho hao
        simp [hoff, hno, hs]
      · simp [hao]
    · have hvisit : visit objs sel cb s off = s := by
        rw [visit]
        split
        case h_1 o hat =>
            obtain ⟨ho, hoo⟩ := (at?_eq_some hnd).1 hat
            rw [if_neg fun hs => hsel ⟨o, ho, hoo, hs⟩]
        case h_2 => rfl
      rw [hvisit, ih s hrest hnd]
      refine List.map_congr_left fun a ha => ?_
      by_cases hao : a.off = off
      · have hs : ¬ (a.hdr.valid && sel a) = true := fun hs => hsel ⟨a, ha, hao, hs⟩
        simp [hs]
      · simp [hao]

/-- What a traversal clears: if a callback leaves its object good and turns no other
object bad, no valid object is bad afterwards. Only selected objects are bad, and `P` is
what the callbacks keep and need. -/
theorem halgForeach_clears {bad : Obj α → Prop} (hbad : ∀ o, bad o → sel o = true)
    (hcb : ∀ s o, P s → o ∈ objs s → o.hdr.valid = true → sel o = true → P (cb o.off s))
    (hnd : ∀ s, P s → ((objs s).map Obj.off).Nodup)
    (hmono : ∀ s o, P s → o ∈ objs s → o.hdr.valid = true → sel o = true →
      ∀ o' ∈ objs (cb o.off s), o'.hdr.valid = true → bad o' →
        o'.off ≠ o.off ∧ ∃ o'' ∈ objs s, o''.off = o'.off ∧ o''.hdr.valid = true ∧ bad o'')
    {s : σ} (h : P s) :
    ∀ o ∈ objs (halgForeach objs sel cb s), o.hdr.valid = true → ¬ bad o := by
  -- bad objects are among those still to be visited
  suffices H : ∀ (offs : List ℕ) (s : σ), P s →
      (∀ o ∈ objs s, o.hdr.valid = true → bad o → o.off ∈ offs) →
      ∀ o ∈ objs (offs.foldl (visit objs sel cb) s), o.hdr.valid = true → ¬ bad o by
    exact H _ s h fun o ho _ _ => List.mem_map_of_mem ho
  intro offs
  induction offs with
  | nil =>
    intro s _ hin o ho hv hb
    have hmem := hin o ho hv hb
    simp at hmem
  | cons off offs ih =>
    intro s hP hin
    refine ih _ (visit_rule hcb hP off) ?_
    rw [visit]
    split
    case h_1 o hat =>
        obtain ⟨ho, rfl⟩ := (at?_eq_some (hnd s hP)).1 hat
        split_ifs with hsel
        · simp only [Bool.and_eq_true] at hsel
          intro o' ho' hv' hb'
          obtain ⟨hne, o'', ho'', hoff, hv'', hb''⟩ :=
            hmono s o hP ho hsel.1 hsel.2 o' ho' hv' hb'
          have hmem := hin o'' ho'' hv'' hb''
          rw [hoff] at hmem
          exact (List.mem_cons.1 hmem).resolve_left hne
        · intro o' ho' hv' hb'
          refine (List.mem_cons.1 (hin o' ho' hv' hb')).resolve_left fun hoff => ?_
          obtain rfl := eq_of_key (hnd s hP) ho' ho hoff
          exact hsel (by simp [hv', hbad _ hb'])
    case h_2 hat =>
        intro o' ho' hv' hb'
        refine (List.mem_cons.1 (hin o' ho' hv' hb')).resolve_left fun hoff => ?_
        have hno := List.find?_eq_none.1 hat o' ho'
        simp [hoff] at hno

/-- A change that keeps the offsets is none for reading. -/
lemma at?_map {T : Obj α → Obj α} (hoff : ∀ o, (T o).off = o.off) (off : ℕ) (l : List (Obj α)) :
    at? Obj.off off (l.map T) = (at? Obj.off off l).map T := by
  have hsel : ((fun o : Obj α => decide (o.off = off)) ∘ T) = fun o => decide (o.off = off) := by
    funext o
    simp only [Function.comp_apply, hoff]
  rw [at?, at?, List.find?_map, hsel]

/-- A traversal commutes with a map of the state if its callback does. -/
lemma halgForeach_map {τ : Type} {objs' : τ → List (Obj α)} {cb' : ℕ → τ → τ} {e : σ → τ}
    {T : Obj α → Obj α} (hobjs : ∀ s, objs' (e s) = (objs s).map T)
    (hoff : ∀ o, (T o).off = o.off) (hsel : ∀ o, ((T o).hdr.valid && sel (T o)) =
      (o.hdr.valid && sel o)) (hcb : ∀ off s, e (cb off s) = cb' off (e s)) (s : σ) :
    e (halgForeach objs sel cb s) = halgForeach objs' sel cb' (e s) := by
  have hvisit : ∀ s off, e (visit objs sel cb s off) = visit objs' sel cb' (e s) off := by
    intro s off
    rw [visit, visit, hobjs, at?_map hoff]
    cases at? Obj.off off (objs s) with
    | none => rfl
    | some o =>
      simp only [Option.map_some, hsel]
      split
      · exact hcb off s
      · rfl
  have hkeys : (objs' (e s)).map Obj.off = (objs s).map Obj.off := by
    rw [hobjs, List.map_map]
    exact List.map_congr_left fun o _ => hoff o
  have hfold : ∀ (offs : List ℕ) (s : σ), e (offs.foldl (visit objs sel cb) s) =
      offs.foldl (visit objs' sel cb') (e s) := by
    intro offs
    induction offs with
    | nil => exact fun s => rfl
    | cons off offs ih =>
      intro s
      rw [List.foldl_cons, List.foldl_cons, ih, hvisit]
  rw [halgForeach, halgForeach, hkeys, hfold]

end Foreach

end MachinekitHal
