import MachinekitHal.Hal.ObjectNames
import MachinekitHal.Hal.Pin

/-!
`hal_param.c`, `hal.h`: the creation of params.

* `ParamHal`: the HAL segment with its params, and `_halerrno`, which is set by failures and
  never cleared.
* `halgParamNewfv`: the creation, which returns `NULL` whether it fails or not.
* `halParamNew`, `halParamNewf`, `halParamBitNew`, `halParamBitNewf` and the others: the
  functions that return an `int`.
* `CreationReported`: `0` is returned exactly if the param was added.
* `ParamAccepted`: no check refuses the call.
* `param_creation`: a call is reported exactly if it is refused, or no error came before and
  the name is stored whole.
-/

namespace MachinekitHal

open Store

/-- `HAL_RO`. -/
def halRo : ℤ := 64

/-- `HAL_RW`. -/
def halRw : ℤ := 192

/-- `data_ptr` of a param: the memory of a component, or the value in the descriptor. -/
inductive ParamPtr where
  | shm (off : ℕ)
  | value (param : ℕ)
  deriving DecidableEq

/-- `hal_param_t`. -/
structure Param where
  type : HalType
  dir : ℤ
  dataPtr : ParamPtr
  deriving DecidableEq

/-- The HAL segment with its params, as a process sees it: `attached` is `hal_data != 0`, and
`halerrno` is a variable of the process. -/
structure ParamHal extends Hal where
  attached : Bool
  params : List (Obj Param)
  halerrno : ℤ

/-- The descriptor that is allocated, and what a format prints whose arguments are missing. -/
structure ParamEnv where
  mem : Option Alloc
  undef : String → Option String

/-- The arguments beside type and name; without `dataAddr` it is a v2 param. -/
structure ParamArgs where
  dir : ℤ
  dataAddr : Option ℤ
  ownerId : ℤ

/-- The types a param can have. -/
def paramType : HalType → Bool
  | .halBit | .halFloat | .halS32 | .halU32 => true
  | _ => false

/-- `state > COMP_INITIALIZING`. -/
def CompState.initialized : CompState → Bool
  | .compUnbound | .compBound | .compReady => true
  | .compInvalid | .compInitializing => false

namespace ParamHal

variable (s : ParamHal)

/-- `HALFAIL_NULL`. -/
def halfailNull (e : Errno) : Option ℕ × ParamHal := (none, { s with halerrno := -e.code })

/-- `HALFAIL_RC`. -/
def halfailRc (e : Errno) : ℤ × ParamHal := (-e.code, { s with halerrno := -e.code })

/-- `inst ? hh_get_id(&inst->hdr) : 0`. -/
def instId (ownerId : ℤ) : ℤ := (findById ownerId s.insts).elim 0 fun inst => inst.hdr.id.toInt

/-- The param `halg_param_newfv` adds to the list. -/
def newParam (new : Obj Param) (dataAddr : Option ℤ) : Obj Param :=
  { new with
    hdr := { new.hdr with legacy := dataAddr.isSome }
    body := { new.body with dataPtr := dataAddr.elim (.value new.off) fun a => .shm a.toNat } }

/-- `halg_param_newfv`; `fmt` is what the format and its arguments print, if there is a
format. -/
def halgParamNewfv (e : ParamEnv) (type : HalType) (a : ParamArgs) (fmt : Option String) :
    Option ℕ × ParamHal :=
  if !s.attached then s.halfailNull .EINVAL else
  if s.locked halLockLoad then s.halfailNull .EPERM else
  match fmt.bind (fmtAp 128) with
  | none => s.halfailNull .EINVAL
  | some name =>
  if !paramType type then s.halfailNull .EINVAL else
  if a.dir ≠ halRo ∧ a.dir ≠ halRw then s.halfailNull .EINVAL else
  match s.findOwningComp a.ownerId with
  | none => s.halfailNull .EINVAL
  | some comp =>
  if !(a.dataAddr.all s.shmchk) then s.halfailNull .EINVAL else
  -- instances may create params post hal_ready
  if s.instId a.ownerId = 0 ∧ comp.body.state.initialized then s.halfailNull .EINVAL else
  match (printFormat e.undef name).bind fun printed =>
      halgCreateObject e.mem a.ownerId printed ⟨type, a.dir, .value 0⟩ with
  | none => s.halfailNull .ENOMEM
  | some new =>
    -- no pointer to the new param
    (none, { s with params := addObject (newParam new a.dataAddr) s.params })

/-- `p == NULL ? _halerrno : 0`. -/
def errnoOfNull (r : Option ℕ × ParamHal) : ℤ × ParamHal :=
  (if r.1.isNone then r.2.halerrno else 0, r.2)

/-- `hal_param_newf`. -/
def halParamNewf (e : ParamEnv) (type : HalType) (a : ParamArgs) (fmt : Option String) :
    ℤ × ParamHal :=
  errnoOfNull (s.halgParamNewfv e type a fmt)

/-- `hal_param_new`; the format is `"%s"`. -/
def halParamNew (e : ParamEnv) (name : String) (type : HalType) (a : ParamArgs) :
    ℤ × ParamHal :=
  errnoOfNull (s.halgParamNewfv e type a (some name))

/-- `hal_param_newfv`, for the typed functions with a format. -/
def halParamNewfv (e : ParamEnv) (type : HalType) (a : ParamArgs) (name : String) :
    ℤ × ParamHal :=
  if halNameLen < name.length then s.halfailRc .ENOMEM else s.halParamNew e name type a

/-- `hal_param_bit_newf`. -/
def halParamBitNewf (e : ParamEnv) (a : ParamArgs) (name : String) : ℤ × ParamHal :=
  s.halParamNewfv e .halBit a name

/-- `hal_param_float_newf`. -/
def halParamFloatNewf (e : ParamEnv) (a : ParamArgs) (name : String) : ℤ × ParamHal :=
  s.halParamNewfv e .halFloat a name

/-- `hal_param_u32_newf`. -/
def halParamU32Newf (e : ParamEnv) (a : ParamArgs) (name : String) : ℤ × ParamHal :=
  s.halParamNewfv e .halU32 a name

/-- `hal_param_s32_newf`. -/
def halParamS32Newf (e : ParamEnv) (a : ParamArgs) (name : String) : ℤ × ParamHal :=
  s.halParamNewfv e .halS32 a name

/-- `hal_param_bit_new`. -/
def halParamBitNew (e : ParamEnv) (name : String) (a : ParamArgs) : ℤ × ParamHal :=
  s.halParamNew e name .halBit a

/-- `hal_param_float_new`. -/
def halParamFloatNew (e : ParamEnv) (name : String) (a : ParamArgs) : ℤ × ParamHal :=
  s.halParamNew e name .halFloat a

/-- `hal_param_u32_new`. -/
def halParamU32New (e : ParamEnv) (name : String) (a : ParamArgs) : ℤ × ParamHal :=
  s.halParamNew e name .halU32 a

/-- `hal_param_s32_new`. -/
def halParamS32New (e : ParamEnv) (name : String) (a : ParamArgs) : ℤ × ParamHal :=
  s.halParamNew e name .halS32 a

end ParamHal

open ParamHal

/-- A call of one of these functions. -/
inductive ParamCall
  | new (type : HalType) (name : String)
  | newf (type : HalType) (fmt : Option String)
  | bitNew (name : String) | floatNew (name : String) | u32New (name : String)
  | s32New (name : String)
  | bitNewf (name : String) | floatNewf (name : String) | u32Newf (name : String)
  | s32Newf (name : String)

/-- The call itself. -/
def ParamCall.run (e : ParamEnv) (a : ParamArgs) (s : ParamHal) : ParamCall → ℤ × ParamHal
  | .new type name => s.halParamNew e name type a
  | .newf type fmt => s.halParamNewf e type a fmt
  | .bitNew name => s.halParamBitNew e name a
  | .floatNew name => s.halParamFloatNew e name a
  | .u32New name => s.halParamU32New e name a
  | .s32New name => s.halParamS32New e name a
  | .bitNewf name => s.halParamBitNewf e a name
  | .floatNewf name => s.halParamFloatNewf e a name
  | .u32Newf name => s.halParamU32Newf e a name
  | .s32Newf name => s.halParamS32Newf e a name

/-- The type a call is for. -/
def ParamCall.type : ParamCall → HalType
  | .new type _ | .newf type _ => type
  | .bitNew _ | .bitNewf _ => .halBit
  | .floatNew _ | .floatNewf _ => .halFloat
  | .u32New _ | .u32Newf _ => .halU32
  | .s32New _ | .s32Newf _ => .halS32

/-- The name a call is given. -/
def ParamCall.name : ParamCall → Option String
  | .newf _ fmt => fmt
  | .new _ name | .bitNew name | .floatNew name | .u32New name | .s32New name | .bitNewf name
  | .floatNewf name | .u32Newf name | .s32Newf name => some name

/-- The length of a name above which a call is refused. -/
def ParamCall.maxName : ParamCall → ℕ
  | .bitNewf _ | .floatNewf _ | .u32Newf _ | .s32Newf _ => halNameLen
  | _ => 128

/-- A new param with the given name, type, direction and owner has been added. -/
def ParamAdded (c : ParamCall) (a : ParamArgs) (s s' : ParamHal) : Prop :=
  ∃ o : Obj Param, s'.params = addObject o s.params ∧ o.hdr.valid = true ∧
    c.name = some o.hdr.name ∧ o.body.type = c.type ∧ o.body.dir = a.dir ∧
    o.hdr.ownerId.toInt = a.ownerId

/-- The outcome is reported: `0` is returned exactly if the param has been added, and a
negative return leaves the objects as they were. -/
def CreationReported (e : ParamEnv) (c : ParamCall) (a : ParamArgs) (s : ParamHal) : Prop :=
  ((c.run e a s).1 = 0 ↔ ParamAdded c a s (c.run e a s).2) ∧
    ((c.run e a s).1 < 0 →
      (c.run e a s).2.params = s.params ∧ (c.run e a s).2.toHal = s.toHal)

/-- No check of `halg_param_newfv` refuses a param `name`, and `stored` is the name that the
descriptor gets. -/
structure ParamAccepted (e : ParamEnv) (type : HalType) (a : ParamArgs) (s : ParamHal)
    (name stored : String) : Prop where
  attached : s.attached = true
  unlocked : s.locked halLockLoad = false
  type : paramType type = true
  dir : a.dir = halRo ∨ a.dir = halRw
  owner : ∃ comp, s.findOwningComp a.ownerId = some comp ∧
    ¬ (s.instId a.ownerId = 0 ∧ comp.body.state.initialized = true)
  addr : a.dataAddr.all s.shmchk = true
  memory : e.mem.isSome = true
  stored : ((fmtAp 128 name).bind (printFormat e.undef)).bind hhSetNamefv = some stored

/-- The call is refused, or there is no earlier error and the name is stored as it was given; a
param with another name is not reported either after an error with the wrong sign. -/
def ParamReported (e : ParamEnv) (c : ParamCall) (a : ParamArgs) (s : ParamHal) : Prop :=
  ∀ name stored, c.name = some name → name.length ≤ c.maxName →
    ParamAccepted e c.type a s name stored →
    s.halerrno = 0 ∧ stored = name ∨ 0 < s.halerrno ∧ stored ≠ name

/-! ### The outcomes -/

variable {e : ParamEnv} {type : HalType} {a : ParamArgs} {s : ParamHal} {fmt : Option String}
  {name stored : String}

/-- **What the creation does**: it records an error, or it adds the param it was accepted for;
in either case it returns `NULL`. -/
lemma halgParamNewfv_cases (e : ParamEnv) (type : HalType) (a : ParamArgs) (s : ParamHal)
    (fmt : Option String) :
    (∃ err, s.halgParamNewfv e type a fmt = s.halfailNull err ∧
      ∀ name stored, fmt = some name → ¬ ParamAccepted e type a s name stored) ∨
    ∃ name new, fmt = some name ∧ ParamAccepted e type a s name new.hdr.name ∧
      new.hdr.valid = true ∧ new.hdr.ownerId.toInt = a.ownerId ∧ new.body.type = type ∧
      new.body.dir = a.dir ∧
      s.halgParamNewfv e type a fmt = (none, { s with params := addObject new s.params }) := by
  rw [halgParamNewfv]
  by_cases hatt : s.attached = true
  swap
  · exact .inl ⟨_, if_pos (by simpa using hatt), fun _ _ _ h => hatt h.attached⟩
  rw [if_neg (by simpa using hatt)]
  by_cases hlock : s.locked halLockLoad = true
  · exact .inl ⟨_, if_pos hlock, fun _ _ _ h => by simp [h.unlocked] at hlock⟩
  rw [if_neg hlock]
  cases hfmt : fmt.bind (fmtAp 128) with
  | none =>
    refine .inl ⟨_, rfl, fun name stored hname h => ?_⟩
    rw [hname, Option.bind_some] at hfmt
    simpa [hfmt] using h.stored
  | some buf =>
  obtain ⟨name, rfl, hbuf⟩ := Option.bind_eq_some_iff.1 hfmt
  by_cases htype : paramType type = true
  swap
  · exact .inl ⟨_, if_pos (by simpa using htype), fun _ _ _ h => htype h.type⟩
  dsimp only
  rw [if_neg (by simpa using htype)]
  by_cases hdir : a.dir ≠ halRo ∧ a.dir ≠ halRw
  · exact .inl ⟨_, if_pos hdir, fun _ _ _ h => h.dir.elim hdir.1 hdir.2⟩
  rw [if_neg hdir]
  cases hcomp : s.findOwningComp a.ownerId with
  | none => exact .inl ⟨_, rfl, fun _ _ _ h => by simpa [hcomp] using h.owner⟩
  | some comp =>
  by_cases haddr : a.dataAddr.all s.shmchk = true
  swap
  · exact .inl ⟨_, if_pos (by simpa using haddr), fun _ _ _ h => haddr h.addr⟩
  dsimp only
  rw [if_neg (by simpa using haddr)]
  by_cases hready : s.instId a.ownerId = 0 ∧ comp.body.state.initialized = true
  · refine .inl ⟨_, if_pos hready, fun _ _ _ h => ?_⟩
    obtain ⟨comp', hcomp', hno⟩ := h.owner
    rw [hcomp, Option.some.injEq] at hcomp'
    exact hno (hcomp' ▸ hready)
  rw [if_neg hready]
  cases hnew : (printFormat e.undef buf).bind fun printed =>
      halgCreateObject e.mem a.ownerId printed (⟨type, a.dir, .value 0⟩ : Param) with
  | none =>
    refine .inl ⟨_, rfl, fun name' stored hname h => ?_⟩
    cases hname
    obtain ⟨printed, hp, hs⟩ := Option.bind_eq_some_iff.1 h.stored
    rw [hbuf, Option.bind_some] at hp
    obtain ⟨m, hm⟩ := Option.isSome_iff_exists.1 h.memory
    simp [hp, halgCreateObject, hm, hs] at hnew
  | some new =>
    obtain ⟨printed, hp, hcreate⟩ := Option.bind_eq_some_iff.1 hnew
    obtain ⟨m, stored, hm, hs, hobj⟩ := halgCreateObject_some hcreate
    refine .inr ⟨name, newParam new a.dataAddr, rfl, ?_, by rw [hobj]; rfl, ?_, by rw [hobj]; rfl,
      by rw [hobj]; rfl, rfl⟩
    · exact
        { attached := hatt
          unlocked := by simpa using hlock
          type := htype
          dir := by tauto
          owner := ⟨comp, hcomp, hready⟩
          addr := haddr
          memory := by rw [hm]; rfl
          stored := by rw [hbuf, Option.bind_some, hp, Option.bind_some, hs, hobj]; rfl }
    · rw [hobj]
      exact Hal.ownerId_stored s.toHal hcomp

/-- The outcome of a call for a param of type `type` that is refused for the names that are not
`ok`. -/
def ParamOutcome (e : ParamEnv) (type : HalType) (a : ParamArgs) (s : ParamHal)
    (ok : String → Prop) (r : ℤ × ParamHal) : Prop :=
  (∃ err : Errno, r = s.halfailRc err ∧
    ∀ name stored, ok name → ¬ ParamAccepted e type a s name stored) ∨
  ∃ name new, ok name ∧ ParamAccepted e type a s name new.hdr.name ∧ new.hdr.valid = true ∧
    new.hdr.ownerId.toInt = a.ownerId ∧ new.body.type = type ∧ new.body.dir = a.dir ∧
    r = (s.halerrno, { s with params := addObject new s.params })

lemma halParamNewf_outcome (e : ParamEnv) (type : HalType) (a : ParamArgs) (s : ParamHal)
    (fmt : Option String) :
    ParamOutcome e type a s (fmt = some ·) (s.halParamNewf e type a fmt) := by
  rcases halgParamNewfv_cases e type a s fmt with ⟨err, hr, hno⟩ | h
  · exact .inl ⟨err, by rw [halParamNewf, hr]; rfl, hno⟩
  · obtain ⟨name, new, hname, hacc, hv, ho, ht, hd, hr⟩ := h
    exact .inr ⟨name, new, hname, hacc, hv, ho, ht, hd, by rw [halParamNewf, hr]; rfl⟩

lemma halParamNewfv_outcome (e : ParamEnv) (type : HalType) (a : ParamArgs) (s : ParamHal)
    (name : String) :
    ParamOutcome e type a s (fun name' => name = name' ∧ name.length ≤ halNameLen)
      (s.halParamNewfv e type a name) := by
  rw [halParamNewfv]
  by_cases hlen : halNameLen < name.length
  · exact .inl ⟨_, if_pos hlen, fun _ _ h => absurd h.2 (not_le.2 hlen)⟩
  · rw [if_neg hlen]
    rcases halParamNewf_outcome e type a s (some name) with ⟨err, hr, hno⟩ | h
    · exact .inl ⟨err, hr, fun name' stored h => hno name' stored (congrArg some h.1)⟩
    · obtain ⟨name', new, hname, h⟩ := h
      exact .inr ⟨name', new, ⟨Option.some.inj hname, not_lt.1 hlen⟩, h⟩

lemma ParamOutcome.congr {ok ok' : String → Prop} {r : ℤ × ParamHal}
    (h : ParamOutcome e type a s ok r)
    (hok : ∀ name stored, ParamAccepted e type a s name stored → (ok name ↔ ok' name)) :
    ParamOutcome e type a s ok' r := by
  rcases h with ⟨err, hr, hno⟩ | ⟨name, new, hname, hacc, h⟩
  · exact .inl ⟨err, hr, fun name stored h hacc =>
      hno name stored ((hok name stored hacc).2 h) hacc⟩
  · exact .inr ⟨name, new, (hok _ _ hacc).1 hname, hacc, h⟩

/-- **What a call does**: it fails with an error, or it adds the param it was accepted for and
returns the error that was there before. -/
lemma run_outcome (e : ParamEnv) (c : ParamCall) (a : ParamArgs) (s : ParamHal) :
    ParamOutcome e c.type a s (fun name => c.name = some name ∧ name.length ≤ c.maxName)
      (c.run e a s) := by
  have hformat : ∀ type fmt, ParamOutcome e type a s
      (fun name => fmt = some name ∧ name.length ≤ 128) (s.halParamNewf e type a fmt) := by
    intro type fmt
    refine (halParamNewf_outcome e type a s fmt).congr fun name stored hacc => ?_
    obtain ⟨printed, hprinted, -⟩ := Option.bind_eq_some_iff.1 hacc.stored
    obtain ⟨buf, hbuf, -⟩ := Option.bind_eq_some_iff.1 hprinted
    exact (and_iff_left (fmtAp_eq_some hbuf).1).symm
  have hshort : ∀ type name, ParamOutcome e type a s
      (fun name' => some name = some name' ∧ name'.length ≤ halNameLen)
      (s.halParamNewfv e type a name) := by
    intro type name
    refine (halParamNewfv_outcome e type a s name).congr fun name' stored _ => ?_
    rw [Option.some.injEq]
    exact and_congr_right fun h => by rw [h]
  cases c with
  | new type name => exact hformat type (some name)
  | newf type fmt => exact hformat type fmt
  | bitNew name => exact hformat .halBit (some name)
  | floatNew name => exact hformat .halFloat (some name)
  | u32New name => exact hformat .halU32 (some name)
  | s32New name => exact hformat .halS32 (some name)
  | bitNewf name => exact hshort .halBit name
  | floatNewf name => exact hshort .halFloat name
  | u32Newf name => exact hshort .halU32 name
  | s32Newf name => exact hshort .halS32 name

/-! ### The result -/

/-- Insertion makes a list longer. -/
lemma addObject_ne {α : Type} (o : Obj α) (l : List (Obj α)) : addObject o l ≠ l := by
  intro h
  have hlen := (addObject_perm o l).length_eq
  rw [h, List.length_cons] at hlen
  omega

/-- The object that was inserted is the only one that gives this list. -/
lemma addObject_inj {α : Type} {o o' : Obj α} {l : List (Obj α)}
    (h : addObject o l = addObject o' l) : o = o' := by
  have hperm : ([o] ++ l).Perm ([o'] ++ l) :=
    (addObject_perm o l).symm.trans (h ▸ addObject_perm o' l)
  exact List.singleton_perm_singleton.1 ((List.perm_append_right_iff l).1 hperm)

/-- **Param creation.** A call is reported exactly if it is refused, or no error came before and
the name is stored as it was given, less the params under another name that are not reported
either. -/
theorem param_creation (e : ParamEnv) (c : ParamCall) (a : ParamArgs) (s : ParamHal) :
    CreationReported e c a s ↔ ParamReported e c a s := by
  rw [CreationReported, ParamReported]
  rcases run_outcome e c a s with ⟨err, hr, hno⟩ | h
  · rw [hr]
    have hpos := err.code_pos
    refine iff_of_true ⟨iff_of_false ?_ ?_, fun _ => ⟨rfl, rfl⟩⟩
      fun name stored hname hlen hacc => absurd hacc (hno name stored ⟨hname, hlen⟩)
    · simp only [halfailRc]
      omega
    · rintro ⟨o, hparams, -⟩
      exact addObject_ne o s.params hparams.symm
  · obtain ⟨name, new, ⟨hname, hmax⟩, hacc, hv, ho, ht, hd, hr⟩ := h
    rw [hr]
    have hadded : ParamAdded c a s { s with params := addObject new s.params } ↔
        new.hdr.name = name := by
      constructor
      · rintro ⟨o, hparams, -, ho, -⟩
        rw [addObject_inj hparams]
        exact (Option.some.inj (hname.symm.trans ho)).symm
      · rintro rfl
        exact ⟨new, rfl, hv, hname, ht, hd, ho⟩
    have hreported : (∀ name' stored, c.name = some name' → name'.length ≤ c.maxName →
        ParamAccepted e c.type a s name' stored →
          s.halerrno = 0 ∧ stored = name' ∨ 0 < s.halerrno ∧ stored ≠ name') ↔
        s.halerrno = 0 ∧ new.hdr.name = name ∨ 0 < s.halerrno ∧ new.hdr.name ≠ name := by
      constructor
      · exact fun h => h name _ hname hmax hacc
      · intro h name' stored hname' _ hacc'
        cases hname.symm.trans hname'
        cases hacc.stored.symm.trans hacc'.stored
        exact h
    have hneg : (s.halerrno < 0 → addObject new s.params = s.params ∧ s.toHal = s.toHal) ↔
        ¬ s.halerrno < 0 :=
      ⟨fun h hlt => addObject_ne _ _ (h hlt).1, fun h hlt => absurd hlt h⟩
    rw [hreported, hadded]
    dsimp only
    rw [hneg]
    by_cases hwhole : new.hdr.name = name
    · simp only [hwhole, iff_true, ne_eq, not_true, and_true, and_false, or_false]
      omega
    · simp only [hwhole, iff_false, and_false, false_or, ne_eq, not_false_iff, and_true]
      omega

/-- A segment with one component, which is being initialized. -/
def initializingComp : ParamHal :=
  { lock := 0, halSize := 65536
    comps := [⟨64, ⟨70, 0, "siggen", 0, false, true, false, false⟩,
      ⟨.typeRt, .compInitializing, 8192⟩⟩]
    insts := [], pins := [], sigs := [], functs := [], threads := [], functEntryFree := []
    cells := fun _ => none, attached := true, params := [], halerrno := -Errno.EINVAL.code }

/-- After an earlier error the creation of a param is reported as that error. -/
theorem param_creation_fails :
    ¬ CreationReported ⟨some ⟨128, 71⟩, fun _ => none⟩ (.new .halU32 "siggen.mode")
      ⟨halRw, some 4096, 70⟩ initializingComp := by
  intro h
  have hrc : (ParamCall.run ⟨some ⟨128, 71⟩, fun _ => none⟩ ⟨halRw, some 4096, 70⟩
      initializingComp (.new .halU32 "siggen.mode")).1 = -22 := by decide
  have hparams : (ParamCall.run ⟨some ⟨128, 71⟩, fun _ => none⟩ ⟨halRw, some 4096, 70⟩
      initializingComp (.new .halU32 "siggen.mode")).2.params ≠ [] := by decide
  exact hparams (h.2 (by rw [hrc]; decide)).1

end MachinekitHal
