import MachinekitHal.Hal.Object

/-!
`hal_priv.h`, `hal.h`: the descriptors of the HAL object types and `hal_data_t`.

Pointers into the HAL segment are offsets. The offset of a `hal_data_u` is written as
the field it belongs to (`DataRef`): the value of a signal or the dummy signal of a
pin. A data pointer of a legacy component is such an offset added to the base address
at which the component maps the segment (`DataPtr`). Fields that no modelled function
uses are left out.

* `Pin`, `Sig`, `Comp`, `Funct`, `FunctEntry`, `Thread`: the descriptors.
* `Hal`: the master data structure with the objects of each type.
* `findOwningComp`: the component behind an owner id.
-/

namespace MachinekitHal

open Store

/-- `hal_type_t`. -/
inductive HalType where
  | halTypeUnspecified | halTypeUninitialized | halBit | halFloat | halS32 | halU32 | halS64
  | halU64
  deriving DecidableEq

/-- `hal_valid_type`. -/
def halValidType : HalType → Bool
  | .halBit | .halFloat | .halS32 | .halU32 | .halS64 | .halU64 => true
  | _ => false

/-- `hal_pin_dir_t`. -/
inductive HalPinDir where
  | halDirUnspecified | halIn | halOut | halIo
  deriving DecidableEq

/-- `hal_valid_dir`. -/
def halValidDir : HalPinDir → Bool
  | .halIn | .halOut | .halIo => true
  | .halDirUnspecified => false

/-- `(dir & HAL_IN) != 0`; the unspecified direction is `-1`. -/
def HalPinDir.hasIn : HalPinDir → Bool
  | .halIn | .halIo | .halDirUnspecified => true
  | .halOut => false

/-- `hal_data_u`, little endian. -/
abbrev HalDataU := BitVec 64

/-- `set_bit_value`: the low byte. -/
def setBitValue (u v : HalDataU) : HalDataU := u.extractLsb' 8 56 ++ v.extractLsb' 0 8

/-- `set_s32_value`, `set_u32_value`: the low four bytes. -/
def set32Value (u v : HalDataU) : HalDataU := u.extractLsb' 32 32 ++ v.extractLsb' 0 32

/-- The assignment of a value by its type in `halg_link` and `unlink_pin`, which have no
case for the 64-bit integer types. -/
def copyValue (type : HalType) (dst src : HalDataU) : Option HalDataU :=
  match type with
  | .halBit => some (setBitValue dst src)
  | .halS32 | .halU32 => some (set32Value dst src)
  | .halFloat => some src
  | _ => none

/-- Whether a type has a case depends on the type only. -/
lemma copyValue_isSome (type : HalType) (dst src dst' src' : HalDataU) :
    (copyValue type dst src).isSome = (copyValue type dst' src').isSome := by
  cases type <;> simp [copyValue]

/-- The offset of a `hal_data_u`: `SHMOFF(&sig->value)` or `SHMOFF(&pin->dummysig)`. -/
inductive DataRef where
  | value (sig : ℕ)
  | dummysig (pin : ℕ)
  deriving DecidableEq

/-- `comp->shmem_base + off`. -/
structure DataPtr where
  base : ℕ
  ref : DataRef
  deriving DecidableEq

/-- `hal_pin_t`. `dataPtrAddr` is `none` for the poison address of a v2 pin. -/
structure Pin where
  dataPtrAddr : Option ℕ
  dataPtr : DataRef
  signal : ℕ
  dummysig : HalDataU
  type : HalType
  dir : HalPinDir
  deriving DecidableEq

/-- `hal_sig_t`. -/
structure Sig where
  type : HalType
  value : HalDataU
  readers : ℤ
  writers : ℤ
  bidirs : ℤ
  deriving DecidableEq

/-- `comp_type_t`. -/
inductive CompType where
  | typeInvalid | typeRt | typeUser | typeRemote | typeHallib
  deriving DecidableEq

/-- `comp_state_t`. -/
inductive CompState where
  | compInvalid | compInitializing | compUnbound | compBound | compReady
  deriving DecidableEq

/-- `hal_comp_t`. -/
structure Comp where
  type : CompType
  state : CompState
  shmemBase : ℕ
  deriving DecidableEq

/-- `hal_inst_t`: all that is used of an instance is in its header. -/
structure Inst where
  deriving DecidableEq

/-- `hal_funct_signature_t`. -/
inductive FunctSignature where
  | fsLegacyThreadfunc | fsXthreadfunc | fsUserland
  deriving DecidableEq

/-- `hal_funct_t`. -/
structure Funct where
  arg : ℕ
  funct : ℕ
  type : FunctSignature
  usesFp : Bool
  reentrant : Bool
  users : ℤ
  deriving DecidableEq

/-- `hal_funct_entry_t` at offset `off`; `functPtr` is the offset of the funct. -/
structure FunctEntry where
  off : ℕ
  rmb : BitVec 8
  wmb : BitVec 8
  type : FunctSignature
  arg : ℕ
  funct : ℕ
  functPtr : ℕ
  deriving DecidableEq

/-- `hal_thread_t`. -/
structure Thread where
  usesFp : Bool
  functList : List FunctEntry
  deriving DecidableEq

/-- `hal_data_t` and the objects on its list, by type. `cells` are the data pointers
of legacy components, by their offset in the segment. -/
structure Hal where
  lock : BitVec 8
  halSize : ℕ
  comps : List (Obj Comp)
  insts : List (Obj Inst)
  pins : List (Obj Pin)
  sigs : List (Obj Sig)
  functs : List (Obj Funct)
  threads : List (Obj Thread)
  functEntryFree : List FunctEntry
  cells : ℕ → Option DataPtr

/-- `HAL_LOCK_LOAD`. -/
def halLockLoad : BitVec 8 := 1

/-- `HAL_LOCK_CONFIG`. -/
def halLockConfig : BitVec 8 := 2

/-- `HAL_LOCK_RUN`. -/
def halLockRun : BitVec 8 := 8

/-- `HAL_NAME_LEN`. -/
def halNameLen : ℕ := 41

namespace Hal

variable (h : Hal)

/-- `hal_data->lock & level`. -/
def locked (level : BitVec 8) : Bool := h.lock &&& level ≠ 0

/-- The offsets of all objects. -/
def offsets : List ℕ :=
  h.comps.map Obj.off ++ h.insts.map Obj.off ++ h.pins.map Obj.off ++ h.sigs.map Obj.off
    ++ h.functs.map Obj.off ++ h.threads.map Obj.off

/-- What the descriptor allocator promises: the offset of new memory is not `0` and
no object is there. -/
def fresh (mem : Option Alloc) : Bool := mem.all fun m => m.off ≠ 0 ∧ m.off ∉ h.offsets

/-- `halpr_find_owning_comp`. -/
def findOwningComp (ownerId : ℤ) : Option (Obj Comp) :=
  match findById ownerId h.insts with
  | none => findById ownerId h.comps
  | some inst => findById inst.hdr.ownerId.toInt h.comps

/-- `SHMPTR` of a pin. -/
def pinAt (off : ℕ) : Option (Obj Pin) := at? Obj.off off h.pins

/-- `SHMPTR` of a signal. -/
def sigAt (off : ℕ) : Option (Obj Sig) := at? Obj.off off h.sigs

lemma fresh_some {m : Alloc} (hm : h.fresh (some m) = true) : m.off ≠ 0 ∧ m.off ∉ h.offsets := by
  simpa [fresh] using hm

/-- An owner id that finds a component is stored whole in an object header, 16 bits wide. -/
lemma ownerId_stored {ownerId : ℤ} {comp : Obj Comp} (hc : h.findOwningComp ownerId = some comp) :
    (Int16.ofInt ownerId).toInt = ownerId := by
  have hid : ownerId = 0 ∨ ∃ i : Int16, ownerId = i.toInt := by
    rw [findOwningComp] at hc
    split at hc
    · exact (findById_id hc).imp_right fun hi => ⟨_, hi⟩
    · next inst hi => exact (findById_id hi).imp_right fun hi => ⟨_, hi⟩
  rcases hid with rfl | ⟨i, rfl⟩
  · rfl
  · rw [Int16.ofInt_toInt]

/-- An owner id that finds a component finds the same one after it was stored. -/
lemma findOwningComp_ownerId {ownerId : ℤ} {comp : Obj Comp}
    (hc : h.findOwningComp ownerId = some comp) :
    h.findOwningComp (Int16.ofInt ownerId).toInt = some comp := by
  rw [h.ownerId_stored hc, hc]

end Hal

end MachinekitHal
