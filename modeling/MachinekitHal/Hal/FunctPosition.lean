import MachinekitHal.Hal.FunctScheduling

/-!
Where `hal_add_funct_to_thread` inserts, and what becomes of a call that fails.

* `halAddFunctToThreadRt`: the call with the memory that `shmalloc_rt` gives, which may be a null
  pointer; `halAddFunctToThread_rt` is the call that gets memory.
* `Inserted`: an entry has become the element `p` of a list, counted from its front or its end.
* `PositionLaw`: a call inserts where it is told to, or fails and changes nothing.
* `add_funct_position`: the law holds exactly if the call does not need memory that is not there.
-/

namespace MachinekitHal

open Store

namespace Hal

variable (h : Hal)

/-- `alloc_funct_entry_struct` with the memory that `shmalloc_rt` gives. Without any,
`dlist_init_entry` writes through the null pointer (`none`). -/
def allocFunctEntryStructRt (mem : Option ℕ) : Option (ℕ × Hal) :=
  match h.functEntryFree, mem with
  | e :: rest, _ => some (e.off, { h with functEntryFree := rest })
  | [], some m => some (m, h)
  | [], none => none

/-- `hal_add_funct_to_thread` with the memory that `shmalloc_rt` gives; `none` if the call does
not return. -/
def halAddFunctToThreadRt (mem : Option ℕ) (functName threadName : String)
    (position readBarrier writeBarrier : ℤ) : Option (Option Errno × Hal) :=
  if h.locked halLockConfig then some (some .EPERM, h) else
  if position = 0 then some (some .EINVAL, h) else
  match h.findFunct functName with
  | none => some (some .EINVAL, h)
  | some funct =>
  if funct.body.type = .fsUserland then some (some .EINVAL, h) else
  if 0 < funct.body.users ∧ funct.body.reentrant = false then some (some .EINVAL, h) else
  match findByName threadName h.threads with
  | none => some (some .EINVAL, h)
  | some thread =>
  if funct.body.usesFp ∧ thread.body.usesFp = false then some (some .EINVAL, h) else
  match insertionPoint thread.body.functList.length position with
  | none => some (some .EINVAL, h)
  | some i =>
  match h.allocFunctEntryStructRt mem with
  | none => none
  | some (off, h) =>
    let e : FunctEntry :=
      { off := off, rmb := BitVec.ofInt 8 readBarrier, wmb := BitVec.ofInt 8 writeBarrier
        type := funct.body.type, arg := funct.body.arg, funct := funct.body.funct
        functPtr := funct.off }
    let h := h.modifyList thread.off fun l => l.insertIdx i e
    some (none, h.modifyFunct funct.off fun f => { f with users := f.users + 1 })

/-- The funct and the thread of a call, if they are there, go together, and the funct is
available. -/
def qualified (functName threadName : String) : Option (Obj Funct × Obj Thread) :=
  if h.locked halLockConfig then none else
  match h.findFunct functName, findByName threadName h.threads with
  | some funct, some thread =>
    if funct.body.type = .fsUserland ∨ (0 < funct.body.users ∧ funct.body.reentrant = false) ∨
      (funct.body.usesFp = true ∧ thread.body.usesFp = false) then none
    else some (funct, thread)
  | _, _ => none

end Hal

variable {h : Hal} {functName threadName : String}

/-- `e` was inserted into `l` as the element `p`, from the front if `p` is positive and from the
end if it is negative. -/
def Inserted (l l' : List FunctEntry) (p : ℤ) (e : FunctEntry) : Prop :=
  ∃ l₁ l₂, l = l₁ ++ l₂ ∧ l' = l₁ ++ e :: l₂ ∧
    if 0 < p then (l₁.length + 1 : ℤ) = p else (l₂.length + 1 : ℤ) = -p

/-- The call inserted an entry for the funct into the list of the thread, at the position. -/
def AddedAt (h h' : Hal) (funct : Obj Funct) (thread : Obj Thread) (position : ℤ) : Prop :=
  ∃ e : FunctEntry, e.functPtr = funct.off ∧
    (∃ i, Inserted thread.body.functList (thread.body.functList.insertIdx i e) position e ∧
      h'.threads = (h.modifyList thread.off fun l => l.insertIdx i e).threads) ∧
    h'.functs = (h.modifyFunct funct.off fun f => { f with users := f.users + 1 }).functs ∧
    h'.functEntryFree = h.functEntryFree.tail

/-- What a call promises: it fails, with everything as it was, if the funct or the thread does
not qualify, the position is not on the list or memory is exhausted, and else inserts. -/
def PositionLaw (h : Hal) (mem : Option ℕ) (functName threadName : String)
    (position readBarrier writeBarrier : ℤ) : Prop :=
  let r := h.halAddFunctToThreadRt mem functName threadName position readBarrier writeBarrier
  let fails := ∃ e, r = some (some e, h)
  match h.qualified functName threadName with
  | none => fails
  | some (funct, thread) =>
    if position = 0 ∨ thread.body.functList.length + 1 < position.natAbs ∨
      (h.functEntryFree = [] ∧ mem = none) then fails
    else ∃ h', r = some (none, h') ∧ AddedAt h h' funct thread position

/-- A call that passes all checks finds no memory. -/
def OutOfMemory (h : Hal) (mem : Option ℕ) (functName threadName : String) (position : ℤ) :
    Prop :=
  ∃ funct thread, h.qualified functName threadName = some (funct, thread) ∧ position ≠ 0 ∧
    position.natAbs ≤ thread.body.functList.length + 1 ∧ h.functEntryFree = [] ∧ mem = none

/-! ### The walk -/

/-- The walk fails beyond the last entry. -/
lemma walk_eq (len k : ℕ) : walk len k = if k ≤ len then some k else none := by
  induction k with
  | zero => simp [walk]
  | succ k ih =>
    rw [walk, ih]
    by_cases hk : k ≤ len
    · simp only [if_pos hk]
      by_cases he : k = len
      · rw [if_pos he, if_neg (by omega)]
      · rw [if_neg he, if_pos (by omega)]
    · rw [if_neg hk, if_neg (by omega)]

/-- The insertion point, in closed form. -/
lemma insertionPoint_eq (len : ℕ) (p : ℤ) : insertionPoint len p =
    if p.natAbs ≤ len + 1 then
      some (if 0 < p then p.natAbs - 1 else len - (p.natAbs - 1)) else none := by
  rw [insertionPoint]
  by_cases hpos : 0 < p
  · have habs : p.toNat = p.natAbs := by omega
    rw [if_pos hpos, if_pos hpos, walk_eq, habs]
    by_cases hle : p.natAbs ≤ len + 1
    · rw [if_pos hle, if_pos (by omega)]
    · rw [if_neg hle, if_neg (by omega)]
  · have habs : (-p).toNat = p.natAbs := by omega
    rw [if_neg hpos, if_neg hpos, walk_eq, habs]
    by_cases hle : p.natAbs ≤ len + 1
    · rw [if_pos hle, if_pos (by omega)]
      rfl
    · rw [if_neg hle, if_neg (by omega)]
      rfl

lemma insertIdx_split {l : List FunctEntry} {i : ℕ} {e : FunctEntry} (hi : i ≤ l.length) :
    l.insertIdx i e = l.take i ++ e :: l.drop i := by
  induction l generalizing i with
  | nil =>
    obtain rfl : i = 0 := by simpa using hi
    rfl
  | cons a l ih =>
    cases i with
    | zero => rfl
    | succ i =>
      rw [List.insertIdx_succ_cons, ih (Nat.le_of_succ_le_succ hi)]
      rfl

/-- Inserting there makes the entry the element `p`. -/
lemma inserted_insertionPoint {l : List FunctEntry} {p : ℤ} {i : ℕ}
    (hp : p ≠ 0) (hi : insertionPoint l.length p = some i) (e : FunctEntry) :
    Inserted l (l.insertIdx i e) p e := by
  have hle := insertionPoint_le hi
  rw [insertionPoint_eq] at hi
  split_ifs at hi with habs hpos
  · cases hi
    refine ⟨l.take (p.natAbs - 1), l.drop (p.natAbs - 1), (List.take_append_drop _ _).symm,
      insertIdx_split hle, ?_⟩
    rw [if_pos hpos, List.length_take]
    omega
  · cases hi
    refine ⟨l.take (l.length - (p.natAbs - 1)), l.drop (l.length - (p.natAbs - 1)),
      (List.take_append_drop _ _).symm, insertIdx_split hle, ?_⟩
    rw [if_neg hpos, List.length_drop]
    omega

/-! ### The call -/

lemma allocFunctEntryStruct_rt (mem : ℕ) :
    h.allocFunctEntryStructRt (some mem) = some (h.allocFunctEntryStruct mem) := by
  cases hf : h.functEntryFree <;> simp [Hal.allocFunctEntryStructRt, Hal.allocFunctEntryStruct, hf]

/-- With memory, the call is the one that always gets it. -/
lemma halAddFunctToThread_rt (mem : ℕ) (position readBarrier writeBarrier : ℤ) :
    h.halAddFunctToThreadRt (some mem) functName threadName position readBarrier writeBarrier =
      some (h.halAddFunctToThread mem functName threadName position readBarrier writeBarrier) := by
  rw [Hal.halAddFunctToThreadRt, Hal.halAddFunctToThread]
  split
  · rfl
  split
  · rfl
  cases h.findFunct functName with
  | none => rfl
  | some funct =>
  dsimp only
  split
  · rfl
  split
  · rfl
  cases findByName threadName h.threads with
  | none => rfl
  | some thread =>
  dsimp only
  split
  · rfl
  cases insertionPoint thread.body.functList.length position with
  | none => rfl
  | some i => simp only [allocFunctEntryStruct_rt]

/-- A call without a funct and a thread that go together fails. -/
lemma addFunct_unqualified {mem : Option ℕ} {position readBarrier writeBarrier : ℤ}
    (hq : h.qualified functName threadName = none) :
    ∃ e, h.halAddFunctToThreadRt mem functName threadName position readBarrier writeBarrier =
      some (some e, h) := by
  rw [Hal.qualified] at hq
  rw [Hal.halAddFunctToThreadRt]
  split
  · exact ⟨_, rfl⟩
  next hlock =>
  rw [if_neg hlock] at hq
  split
  · exact ⟨_, rfl⟩
  cases hf : h.findFunct functName with
  | none => exact ⟨_, rfl⟩
  | some funct =>
  cases ht : findByName threadName h.threads with
  | none =>
    dsimp only
    split
    · exact ⟨_, rfl⟩
    split <;> exact ⟨_, rfl⟩
  | some thread =>
    simp only [hf, ht] at hq ⊢
    split
    · exact ⟨_, rfl⟩
    split
    · exact ⟨_, rfl⟩
    split
    · exact ⟨_, rfl⟩
    · split_ifs at hq with hor
      rcases hor with hor | hor | hor <;> contradiction

/-- A call with both gets to the insertion point and to the allocation. -/
lemma addFunct_qualified {mem : Option ℕ} {position readBarrier writeBarrier : ℤ}
    {funct : Obj Funct} {thread : Obj Thread}
    (hq : h.qualified functName threadName = some (funct, thread)) :
    h.halAddFunctToThreadRt mem functName threadName position readBarrier writeBarrier =
      if position = 0 then some (some .EINVAL, h) else
      match insertionPoint thread.body.functList.length position with
      | none => some (some .EINVAL, h)
      | some i => (h.allocFunctEntryStructRt mem).map fun (off, h) =>
        (none, (h.modifyList thread.off fun l => l.insertIdx i
          { off := off, rmb := BitVec.ofInt 8 readBarrier, wmb := BitVec.ofInt 8 writeBarrier
            type := funct.body.type, arg := funct.body.arg, funct := funct.body.funct
            functPtr := funct.off }).modifyFunct funct.off
              fun f => { f with users := f.users + 1 }) := by
  rw [Hal.qualified] at hq
  rw [Hal.halAddFunctToThreadRt]
  split at hq
  · simp at hq
  next hlock =>
  rw [if_neg hlock]
  cases hf : h.findFunct functName with
  | none => simp [hf] at hq
  | some f =>
  cases ht : findByName threadName h.threads with
  | none => simp [hf, ht] at hq
  | some t =>
    simp only [hf, ht] at hq
    split_ifs at hq with hor
    obtain ⟨rfl, rfl⟩ := Prod.mk.inj (Option.some.inj hq)
    simp only [not_or] at hor
    simp only [if_neg hor.1, if_neg hor.2.1, if_neg hor.2.2]
    split
    · rfl
    cases insertionPoint t.body.functList.length position with
    | none => rfl
    | some i => cases h.allocFunctEntryStructRt mem <;> rfl

/-- The law holds of a call whose funct and thread go together, unless it finds no memory. -/
lemma positionLaw_qualified {mem : Option ℕ} {position readBarrier writeBarrier : ℤ}
    {funct : Obj Funct} {thread : Obj Thread}
    (hq : h.qualified functName threadName = some (funct, thread)) :
    PositionLaw h mem functName threadName position readBarrier writeBarrier ↔
      ¬ (position ≠ 0 ∧ position.natAbs ≤ thread.body.functList.length + 1 ∧
        h.functEntryFree = [] ∧ mem = none) := by
  simp only [PositionLaw, hq, addFunct_qualified hq]
  by_cases hp : position = 0
  · simp [hp]
  by_cases hrange : position.natAbs ≤ thread.body.functList.length + 1
  · obtain ⟨i, hi⟩ : ∃ i, insertionPoint thread.body.functList.length position = some i :=
      ⟨_, by rw [insertionPoint_eq, if_pos hrange]⟩
    have hins := fun e => inserted_insertionPoint hp hi e
    have hout : ¬ thread.body.functList.length + 1 < position.natAbs := by omega
    rw [if_neg hp]
    simp only [hi, hp, hout, hrange, false_or, ne_eq, not_false_eq_true, true_and]
    cases hfree : h.functEntryFree with
    | nil =>
      cases mem with
      | none => simp [Hal.allocFunctEntryStructRt, hfree]
      | some m =>
        simp only [Hal.allocFunctEntryStructRt, hfree]
        refine iff_of_true ?_ (by simp)
        rw [if_neg (by simp)]
        exact ⟨_, rfl, _, rfl, ⟨i, hins _, rfl⟩, rfl, by simp [Hal.modifyFunct,
          Hal.modifyList, hfree]⟩
    | cons e rest =>
      simp only [Hal.allocFunctEntryStructRt, hfree]
      refine iff_of_true ?_ (by simp)
      rw [if_neg (by simp)]
      exact ⟨_, rfl, _, rfl, ⟨i, hins _, rfl⟩, rfl, by simp [Hal.modifyFunct, Hal.modifyList,
        hfree]⟩
  · have hnone : insertionPoint thread.body.functList.length position = none := by
      rw [insertionPoint_eq, if_neg hrange]
    rw [if_neg hp]
    simp [hnone, hp, hrange, Nat.lt_of_not_le hrange]

/-- **Position law of `hal_add_funct_to_thread`.** For every funct list and every position the
funct becomes the element at the position, counted from the front or the end, or the call fails
and changes nothing, exactly if it does not have to allocate an entry when memory is
exhausted. -/
theorem add_funct_position (h : Hal) (mem : Option ℕ) (functName threadName : String)
    (position readBarrier writeBarrier : ℤ) :
    PositionLaw h mem functName threadName position readBarrier writeBarrier ↔
      ¬ OutOfMemory h mem functName threadName position := by
  cases hq : h.qualified functName threadName with
  | none =>
      refine iff_of_true ?_ ?_
      · rw [PositionLaw, hq]
        exact addFunct_unqualified hq
      · rintro ⟨funct, thread, hq', -⟩
        simp [hq] at hq'
  | some q =>
      obtain ⟨funct, thread⟩ := q
      rw [positionLaw_qualified hq, not_iff_not]
      constructor
      · exact fun hmem => ⟨funct, thread, hq, hmem⟩
      · rintro ⟨f, t, hq', hmem⟩
        obtain ⟨rfl, rfl⟩ := Prod.mk.inj (Option.some.inj (hq.symm.trans hq'))
        exact hmem

/-- A funct is exported and a thread created. -/
def idleThread : Hal :=
  ((loadingComp.halgExportXfunctfv (some ⟨128, 2⟩)
    ⟨.fsXthreadfunc, 1, 0, false, false, 1⟩ "update").2.addThread (some ⟨256, 3⟩) "fast" true).2

/-- Without memory, the funct is not added to the empty thread, and the call does not fail. -/
theorem add_funct_position_fails : ¬ ∀ h mem functName threadName position readBarrier
    writeBarrier, PositionLaw h mem functName threadName position readBarrier writeBarrier := by
  intro hall
  have hlaw := hall idleThread none "update" "fast" 1 0 0
  have hq : (idleThread.qualified "update" "fast").map (fun q => q.2.body.functList.length)
      = some 0 := by decide
  have hnull : (idleThread.halAddFunctToThreadRt none "update" "fast" 1 0 0).isNone = true := by
    decide
  have hfree : idleThread.functEntryFree = [] := rfl
  obtain ⟨⟨funct, thread⟩, hq, hlen⟩ := Option.map_eq_some_iff.mp hq
  simp only [PositionLaw, hq, hfree, and_self, or_true, if_true] at hlaw
  obtain ⟨e, he⟩ := hlaw
  simp [he] at hnull

end MachinekitHal
