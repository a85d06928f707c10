import MachinekitHal.Lib.Runs
import MachinekitHal.Runtime.Shmem

/-!
The handles of shared memory segments.

* `shmemNewInst`: `rtapi_shmem_new_inst` with whatever `shm_common_new` answers, also a
  segment that another process created; `rtapiShmemNewInst_eq` is the case of a segment
  that does not exist yet.
* `ShmemSys`: the table beside a ledger of the calls for each slot; `ShmemSys.newInst`,
  `ShmemSys.deleteInst` and `shmemStep` are the calls.
* `ShmemTableOk`: keys have one slot each, and use counts are those of the ledger.
* `shmem_table`: this holds in every run in which no search meets an unused slot before
  the slot with its key, and then the callers of a key get one handle;
  `shmem_table_hole` has two slots for a key.
-/

namespace MachinekitHal

open Runs
open Function (update)

variable {M : Type}

/-- `rtapi_shmem_new_inst`; `common` is the actual size and the memory that
`shm_common_new` answers with, if it is called. -/
def shmemNewInst (a : ShmemArray M) (userkey inst : ℕ) (common : Except Errno (ℤ × M)) :
    Except Errno ℕ × ShmemArray M :=
  let key := osKey userkey inst
  match shmScan a key with
  | .found i => (.ok i, incrCount a i)
  | .full => (.error .ENOMEM, a)
  | .free i =>
    match common with
    | .error e => (.error e, a)
    | .ok (actual, mem) =>
      (.ok i, update a i
        { magic := true, key := key, size := actual, count := 1, mem := mem })

/-- The same on a system where no other process has the segment. -/
theorem rtapiShmemNewInst_eq (a : ShmemArray M) (avail : Bool) (zeros : M) (userkey inst : ℕ)
    (size : ℤ) : rtapiShmemNewInst a avail zeros userkey inst size =
      shmemNewInst a userkey inst ((shmCommonNew avail size).map fun n => (n, zeros)) := by
  rw [rtapiShmemNewInst, shmemNewInst]
  cases shmScan a (osKey userkey inst) with
  | found i => rfl
  | full => rfl
  | free i => cases shmCommonNew avail size <;> rfl

/-- The table of a process, and for each slot the successful `rtapi_shmem_new_inst` calls
for its key and the `rtapi_shmem_delete_inst` calls on its handle, since it became valid. -/
structure ShmemSys (M : Type) where
  table : ShmemArray M
  news : ℕ → ℕ
  dels : ℕ → ℕ

/-- The calls. -/
inductive ShmemAct (M : Type) where
  | newInst (userkey inst : ℕ) (common : Except Errno (ℤ × M))
  | deleteInst (handle : ℕ)

namespace ShmemSys

variable (s : ShmemSys M)

/-- A slot of the table that holds a segment. -/
def Valid (i : ℕ) : Prop := 1 ≤ i ∧ i < rtapiMaxShmems ∧ (s.table i).magic = true

/-- `rtapi_shmem_new_inst`: the handle, if it is successful. -/
def newInst (userkey inst : ℕ) (common : Except Errno (ℤ × M)) : Except Errno ℕ × ShmemSys M :=
  match shmemNewInst s.table userkey inst common with
  | (.error e, a) => (.error e, { s with table := a })
  | (.ok i, a) => (.ok i,
      { table := a
        news := fun j =>
          if (a j).magic = true ∧ (s.table j).magic = false then 1
          else if (a j).magic = true ∧ (a j).key = osKey userkey inst then s.news j + 1
          else s.news j
        dels := fun j =>
          if (a j).magic = true ∧ (s.table j).magic = false then 0 else s.dels j })

/-- `rtapi_shmem_delete_inst`. -/
def deleteInst (handle : ℕ) : Option Errno × ShmemSys M :=
  match rtapiShmemDeleteInst s.table handle with
  | (some e, a) => (some e, { s with table := a })
  | (none, a) =>
    (none, { s with table := a
                    dels := update s.dels handle (s.dels handle + 1) })

end ShmemSys

/-- One call. -/
def shmemStep (s : ShmemSys M) : ShmemAct M → Option (ShmemSys M)
  | .newInst userkey inst common => some (s.newInst userkey inst common).2
  | .deleteInst handle => some (s.deleteInst handle).2

/-- No slot is unused in front of a slot with the key that is looked for. -/
def shmemNoHole (s : ShmemSys M) : ShmemAct M → Prop
  | .newInst userkey inst _ => ∀ j, s.Valid j → (s.table j).key = osKey userkey inst →
      ∀ i, 1 ≤ i → i < j → (s.table i).magic = true
  | .deleteInst _ => True

/-- The table of handles. -/
structure ShmemTableOk (s : ShmemSys M) : Prop where
  /-- a key has one slot -/
  unique : ∀ i j, s.Valid i → s.Valid j → (s.table i).key = (s.table j).key → i = j
  /-- and the slot has its users -/
  count : ∀ i, s.Valid i → (s.table i).count = s.news i - s.dels i

/-! ### The search -/

variable {a : ShmemArray M} {key : ℕ} {s s' : ShmemSys M}

/-- The slots in front of the one where a search ended do not have the key. -/
lemma shmScanFrom_passed : ∀ {n i j : ℕ}, shmScanFrom a key n i = .free j →
    ∀ k, i ≤ k → k < j → (a k).magic = true ∧ (a k).key ≠ key
  | 0, i, j, h => by simp [shmScanFrom] at h
  | n + 1, i, j, h => by
      rw [shmScanFrom] at h
      split_ifs at h with hkey hused
      · intro k hik hkj
        rcases Nat.eq_or_lt_of_le hik with rfl | hlt
        · exact ⟨hused, fun hk => hkey ⟨hused, hk⟩⟩
        · exact shmScanFrom_passed h k hlt hkj
      · obtain rfl := ShmScan.free.inj h
        intro k hik hkj
        omega

/-- A search that finds no slot ended at an unused one: if none is unused in front of a slot
with the key, no slot has it. -/
lemma shmScan_free_none {i : ℕ} (h : shmScan s.table key = .free i)
    (hno : ∀ j, s.Valid j → (s.table j).key = key → ∀ i, 1 ≤ i → i < j → (s.table i).magic = true) :
    ∀ j, s.Valid j → (s.table j).key ≠ key := by
  intro j hj hk
  obtain ⟨h1, -, hfree⟩ := shmScan_free h
  rcases lt_trichotomy j i with hlt | rfl | hgt
  · exact (shmScanFrom_passed h j hj.1 hlt).2 hk
  · rw [hj.2.2] at hfree
    cases hfree
  · rw [hno j hj hk i h1 hgt] at hfree
    cases hfree

/-! ### One call -/

/-- What is kept. -/
structure ShmemInv (s : ShmemSys M) : Prop where
  ok : ShmemTableOk s
  pos : ∀ i, s.Valid i → 0 < (s.table i).count

/-- `rtapi_shmem_new_inst` fails, takes a use of the slot with the key, or makes a slot valid. -/
lemma ShmemSys.newInst_cases (s : ShmemSys M) (userkey inst : ℕ) (common : Except Errno (ℤ × M)) :
    (∃ e, s.newInst userkey inst common = (.error e, s)) ∨
    (∃ i, shmScan s.table (osKey userkey inst) = .found i ∧
      s.newInst userkey inst common = (.ok i,
        { s with table := incrCount s.table i
                 news := fun j =>
                  if (s.table j).magic = true ∧ (s.table j).key = osKey userkey inst
                  then s.news j + 1 else s.news j })) ∨
    ∃ i actual mem, shmScan s.table (osKey userkey inst) = .free i ∧
      s.newInst userkey inst common = (.ok i,
        { table := update s.table i ⟨true, osKey userkey inst, actual, 1, mem⟩
          news := fun j => if j = i then 1
            else if (s.table j).magic = true ∧ (s.table j).key = osKey userkey inst
            then s.news j + 1 else s.news j
          dels := update s.dels i 0 }) := by
  cases hscan : shmScan s.table (osKey userkey inst) with
  | full =>
    exact .inl ⟨.ENOMEM, by simp [newInst, shmemNewInst, hscan]⟩
  | found i =>
    refine .inr (.inl ⟨i, rfl, ?_⟩)
    have hsame : ∀ j, (incrCount s.table i j).magic = (s.table j).magic ∧
        (incrCount s.table i j).key = (s.table j).key := by
      intro j
      by_cases hj : j = i
      · simp [incrCount, hj]
      · simp [incrCount, hj]
    simp only [newInst, shmemNewInst, hscan, hsame]
    congr 2
    · funext j
      rw [if_neg (by simp)]
    · funext j
      rw [if_neg (by simp)]
  | free i =>
    obtain ⟨-, -, hfree⟩ := shmScan_free hscan
    cases common with
    | error e => exact .inl ⟨e, by simp [newInst, shmemNewInst, hscan]⟩
    | ok r =>
      refine .inr (.inr ⟨i, r.1, r.2, rfl, ?_⟩)
      simp only [newInst, shmemNewInst, hscan]
      congr 2
      · funext j
        by_cases hj : j = i
        · simp [hj, hfree]
        · simp [hj]
      · funext j
        by_cases hj : j = i
        · simp [hj, hfree]
        · simp [hj]

/-- `rtapi_shmem_delete_inst` fails, takes a use away, or makes a slot invalid that has no
other use. -/
lemma ShmemSys.deleteInst_cases (s : ShmemSys M) (handle : ℕ) :
    s.deleteInst handle = (some .EINVAL, s) ∨
    s.Valid handle ∧ ∃ d, s.deleteInst handle = (none,
        { s with table := update s.table handle d
                 dels := update s.dels handle (s.dels handle + 1) }) ∧
      d.key = (s.table handle).key ∧ d.count = (s.table handle).count - 1 ∧
      (d.magic = true ↔ (s.table handle).count ≠ 1) := by
  by_cases hrange : 1 ≤ handle ∧ handle < rtapiMaxShmems
  · cases hmagic : (s.table handle).magic with
    | false => exact .inl (by simp [deleteInst, rtapiShmemDeleteInst, hrange, hmagic])
    | true =>
      refine .inr ⟨⟨hrange.1, hrange.2, hmagic⟩, ?_⟩
      by_cases hcount : (s.table handle).count - 1 = 0
      · refine ⟨{ s.table handle with count := (s.table handle).count - 1, magic := false },
          ?_, rfl, rfl, ?_⟩
        · simp [deleteInst, rtapiShmemDeleteInst, hrange, hmagic, hcount]
        · simp only [Bool.false_eq_true, false_iff, not_not]
          omega
      · refine ⟨{ s.table handle with count := (s.table handle).count - 1 }, ?_, rfl, rfl, ?_⟩
        · simp [deleteInst, rtapiShmemDeleteInst, hrange, hmagic, hcount]
        · simp only [hmagic, true_iff]
          omega
  · exact .inl (by simp [deleteInst, rtapiShmemDeleteInst, hrange])

/-- Another use of the slot with the key. -/
lemma ShmemInv.found (hI : ShmemInv s) {i : ℕ} (hscan : shmScan s.table key = .found i) :
    ShmemInv { s with table := incrCount s.table i
                      news := fun j => if (s.table j).magic = true ∧ (s.table j).key = key
                        then s.news j + 1 else s.news j } := by
  obtain ⟨h1, h2, hm, hk⟩ := shmScan_found hscan
  have hi : s.Valid i := ⟨h1, h2, hm⟩
  have hself : incrCount s.table i i = { s.table i with count := (s.table i).count + 1 } :=
    Function.update_self ..
  have hother : ∀ j, j ≠ i → incrCount s.table i j = s.table j := fun j hj =>
    Function.update_of_ne hj ..
  have hslot : ∀ j, (incrCount s.table i j).magic = (s.table j).magic ∧
      (incrCount s.table i j).key = (s.table j).key := by
    intro j
    by_cases hj : j = i
    · rw [hj, hself]
      exact ⟨rfl, rfl⟩
    · rw [hother j hj]
      exact ⟨rfl, rfl⟩
  have hold : ∀ j, ShmemSys.Valid { s with table := incrCount s.table i } j → s.Valid j :=
    fun j hj => ⟨hj.1, hj.2.1, (hslot j).1 ▸ hj.2.2⟩
  refine ⟨⟨fun j k hj hk' he => ?_, fun j hj => ?_⟩, fun j hj => ?_⟩
  · rw [(hslot j).2, (hslot k).2] at he
    exact hI.ok.unique j k (hold j hj) (hold k hk') he
  · have hcount := hI.ok.count j (hold j hj)
    by_cases hji : j = i
    · simp only [hji, hself, if_pos (And.intro hm hk)]
      rw [hji] at hcount
      omega
    · -- no other slot has the key
      have hne : ¬((s.table j).magic = true ∧ (s.table j).key = key) := fun hjk =>
        hji (hI.ok.unique j i (hold j hj) hi (hjk.2.trans hk.symm))
      simp only [hother j hji, if_neg hne]
      exact hcount
  · have hpos := hI.pos j (hold j hj)
    by_cases hji : j = i
    · simp only [hji, hself]
      rw [hji] at hpos
      omega
    · simp only [hother j hji]
      exact hpos

/-- A slot for a key that has none. -/
lemma ShmemInv.create (hI : ShmemInv s) {i : ℕ} {actual : ℤ} {mem : M}
    (hnone : ∀ j, s.Valid j → (s.table j).key ≠ key) :
    ShmemInv { table := update s.table i ⟨true, key, actual, 1, mem⟩
               news := fun j => if j = i then 1
                 else if (s.table j).magic = true ∧ (s.table j).key = key
                 then s.news j + 1 else s.news j
               dels := update s.dels i 0 } := by
  set d : ShmemData M := ⟨true, key, actual, 1, mem⟩ with hd
  have hold : ∀ j, j ≠ i →
      ShmemSys.Valid { s with table := update s.table i d } j → s.Valid j := by
    intro j hji hj
    have hm := hj.2.2
    simp only [Function.update_of_ne hji] at hm
    exact ⟨hj.1, hj.2.1, hm⟩
  refine ⟨⟨fun j k hj hk he => ?_, fun j hj => ?_⟩, fun j hj => ?_⟩
  · by_cases hji : j = i
    · by_cases hki : k = i
      · rw [hji, hki]
      · simp only [hji, Function.update_self, Function.update_of_ne hki] at he
        exact absurd he.symm (hnone k (hold k hki hk))
    · by_cases hki : k = i
      · simp only [hki, Function.update_self, Function.update_of_ne hji] at he
        exact absurd he (hnone j (hold j hji hj))
      · simp only [Function.update_of_ne hji, Function.update_of_ne hki] at he
        exact hI.ok.unique j k (hold j hji hj) (hold k hki hk) he
  · by_cases hji : j = i
    · simp [hji, hd]
    · have hne : ¬((s.table j).magic = true ∧ (s.table j).key = key) := fun hjk =>
        hnone j (hold j hji hj) hjk.2
      simp only [Function.update_of_ne hji, if_neg hji, if_neg hne]
      exact hI.ok.count j (hold j hji hj)
  · by_cases hji : j = i
    · simp [hji, hd]
    · simp only [Function.update_of_ne hji]
      exact hI.pos j (hold j hji hj)

/-- A use that is given back. -/
lemma ShmemInv.delete (hI : ShmemInv s) {i : ℕ} {d : ShmemData M} (hi : s.Valid i)
    (hkey : d.key = (s.table i).key) (hcount : d.count = (s.table i).count - 1)
    (hmagic : d.magic = true ↔ (s.table i).count ≠ 1) :
    ShmemInv { s with table := update s.table i d
                      dels := update s.dels i (s.dels i + 1) } := by
  have hself : update s.table i d i = d := Function.update_self ..
  have hother : ∀ j, j ≠ i → update s.table i d j = s.table j := fun j hj =>
    Function.update_of_ne hj ..
  have hslot : ∀ j, (update s.table i d j).key = (s.table j).key := by
    intro j
    by_cases hj : j = i
    · rw [hj, hself, hkey]
    · rw [hother j hj]
  have hold : ∀ j, ShmemSys.Valid { s with table := update s.table i d } j →
      s.Valid j := by
    intro j hj
    by_cases hji : j = i
    · exact hji ▸ hi
    · have hm := hj.2.2
      simp only [hother j hji] at hm
      exact ⟨hj.1, hj.2.1, hm⟩
  refine ⟨⟨fun j k hj hk he => ?_, fun j hj => ?_⟩, fun j hj => ?_⟩
  · simp only [hslot] at he
    exact hI.ok.unique j k (hold j hj) (hold k hk) he
  · have hledger := hI.ok.count j (hold j hj)
    by_cases hji : j = i
    · simp only [hji, Function.update_self, hcount]
      rw [hji] at hledger
      push_cast
      omega
    · simp only [Function.update_of_ne hji]
      exact hledger
  · have hpos := hI.pos j (hold j hj)
    by_cases hji : j = i
    · have hm := hj.2.2
      simp only [hji, hself] at hm ⊢
      rw [hji] at hpos
      have hne := hmagic.1 hm
      omega
    · simp only [hother j hji]
      exact hpos

/-- Every call keeps the table, if its search meets no hole. -/
lemma ShmemInv.step (hI : ShmemInv s) {a : ShmemAct M} (hno : shmemNoHole s a)
    (hs : shmemStep s a = some s') : ShmemInv s' := by
  cases a with
  | newInst userkey inst common =>
    cases hs
    rcases s.newInst_cases userkey inst common with
      ⟨e, he⟩ | ⟨i, hscan, he⟩ | ⟨i, actual, mem, hscan, he⟩
    · rw [he]
      exact hI
    · rw [he]
      exact hI.found hscan
    · rw [he]
      exact hI.create (shmScan_free_none hscan hno)
  | deleteInst handle =>
    cases hs
    rcases s.deleteInst_cases handle with he | ⟨hv, d, he, hkey, hcount, hmagic⟩
    · rw [he]
      exact hI
    · rw [he]
      exact hI.delete hv hkey hcount hmagic

/-- While a slot has the key, its handle is what `rtapi_shmem_new_inst` returns. -/
lemma ShmemInv.same_handle (hI : ShmemInv s) {userkey inst i j : ℕ}
    {common : Except Errno (ℤ × M)} (hno : shmemNoHole s (.newInst userkey inst common))
    (hr : (s.newInst userkey inst common).1 = .ok i) (hj : s.Valid j)
    (hk : (s.table j).key = osKey userkey inst) : i = j := by
  rcases s.newInst_cases userkey inst common with
    ⟨e, he⟩ | ⟨i', hscan, he⟩ | ⟨i', actual, mem, hscan, he⟩
  · rw [he] at hr
    cases hr
  · rw [he] at hr
    cases hr
    obtain ⟨h1, h2, hm, hki⟩ := shmScan_found hscan
    exact hI.ok.unique _ j ⟨h1, h2, hm⟩ hj (hki.trans hk.symm)
  · exact absurd hk (shmScan_free_none hscan hno j hj)

/-- A segment is unmapped by the last of its users. -/
lemma ShmemSys.unmapped {a : ShmemAct M} {i : ℕ} (hs : shmemStep s a = some s')
    (hi : s.Valid i) (hi' : ¬ s'.Valid i) : a = .deleteInst i ∧ (s.table i).count = 1 := by
  cases a with
  | newInst userkey inst common =>
    cases hs
    refine absurd ⟨hi.1, hi.2.1, ?_⟩ hi'
    rcases s.newInst_cases userkey inst common with
      ⟨e, he⟩ | ⟨j, -, he⟩ | ⟨j, actual, mem, -, he⟩
    · rw [he]
      exact hi.2.2
    · rw [he]
      by_cases hij : i = j
      · simpa [incrCount, hij] using hij ▸ hi.2.2
      · simpa [incrCount, hij] using hi.2.2
    · rw [he]
      by_cases hij : i = j
      · simp [hij]
      · simpa [hij] using hi.2.2
  | deleteInst handle =>
    cases hs
    rcases s.deleteInst_cases handle with he | ⟨-, d, he, -, -, hmagic⟩
    · rw [he] at hi'
      exact absurd hi hi'
    · rw [he] at hi'
      by_cases hih : i = handle
      · refine ⟨by rw [hih], ?_⟩
        by_contra hne
        refine hi' ⟨hi.1, hi.2.1, ?_⟩
        rw [hih] at hne ⊢
        simpa using hmagic.2 hne
      · refine absurd ⟨hi.1, hi.2.1, ?_⟩ hi'
        simpa [hih] using hi.2.2

/-! ### The result -/

/-- **Handles.** In every run in which no search meets a hole keys have one slot each, with
as many uses as were taken and not given back; then `rtapi_shmem_new_inst` returns the
handle that is in use, and what is unmapped had one use left. -/
theorem shmem_table {s₀ : ShmemSys M} (h0 : ∀ i, ¬ s₀.Valid i)
    (hr : Reach shmemStep shmemNoHole s₀ s) :
    ShmemTableOk s ∧
    (∀ userkey inst common i j, shmemNoHole s (.newInst userkey inst common) →
      (s.newInst userkey inst common).1 = .ok i → s.Valid j →
      (s.table j).key = osKey userkey inst → i = j) ∧
    ∀ a s' i, shmemStep s a = some s' → s.Valid i → ¬ s'.Valid i →
      a = .deleteInst i ∧ (s.table i).count = 1 := by
  have hI : ShmemInv s := by
    refine hr.invariant (P := ShmemInv) ?_ fun hI hno hs => hI.step hno hs
    exact ⟨⟨fun i j hi => absurd hi (h0 i), fun i hi => absurd hi (h0 i)⟩,
      fun i hi => absurd hi (h0 i)⟩
  exact ⟨hI.ok, fun _ _ _ _ _ hno hres hj hk => hI.same_handle hno hres hj hk,
    fun _ _ _ hs hi hi' => ShmemSys.unmapped hs hi hi'⟩

/-! ### Runs -/

/-- A check of calls. -/
instance (s : ShmemSys M) (a : ShmemAct M) : Decidable (shmemNoHole s a) :=
  match a with
  | .newInst userkey inst _ =>
    decidable_of_iff (∀ j < rtapiMaxShmems, 1 ≤ j ∧ (s.table j).magic = true →
      (s.table j).key = osKey userkey inst → ∀ i < j, 1 ≤ i → (s.table i).magic = true) <| by
        constructor
        · exact fun h j hj hk i h1 hij => h j hj.2.1 ⟨hj.1, hj.2.2⟩ hk i hij h1
        · exact fun h j hlt hj hk i hij h1 => h j ⟨hj.1, hlt, hj.2⟩ hk i h1 hij
  | .deleteInst _ => inferInstanceAs (Decidable True)

/-- A table without segments. -/
def noShmems : ShmemSys Unit := ⟨fun _ => ⟨false, 0, 0, 0, ()⟩, fun _ => 0, fun _ => 0⟩

lemma noShmems_valid (i : ℕ) : ¬ noShmems.Valid i := fun h => Bool.false_ne_true h.2.2

/-- Two segments, the first one with two users of which one leaves; then the second goes. -/
def twoShmems : List (ShmemAct Unit) :=
  [.newInst 256 1 (.ok (4096, ())), .newInst 512 1 (.ok (8192, ())),
    .newInst 256 1 (.error .ENOENT), .deleteInst 1, .deleteInst 2]

/-- The first segment is found again. -/
theorem shmem_table_twoShmems : ∃ s, ShmemTableOk s ∧
    ∀ i, (s.newInst 256 1 (.ok (4096, ()))).1 = .ok i → i = 1 := by
  have hv : (run shmemStep (fun s a => decide (shmemNoHole s a)) noShmems twoShmems).map
      (fun s => ((s.table 1).magic, (s.table 1).key,
        decide (shmemNoHole s (.newInst 256 1 (.ok (4096, ()))))))
      = some (true, osKey 256 1, true) := by decide
  obtain ⟨s, -, he, hr⟩ := run_map hv
  obtain ⟨hm, hk, hno⟩ : (s.table 1).magic = true ∧ (s.table 1).key = osKey 256 1 ∧
      decide (shmemNoHole s (.newInst 256 1 (.ok (4096, ())))) = true := by
    simpa only [Prod.mk.injEq] using he
  obtain ⟨hok, hsame, -⟩ := shmem_table noShmems_valid
    (hr.mono fun hok => of_decide_eq_true hok)
  refine ⟨s, hok, fun i hi => hsame 256 1 _ i 1 (of_decide_eq_true hno) hi ⟨?_, ?_, hm⟩ hk⟩
  · exact le_refl 1
  · decide

/-- A slot goes unused in front of the slot of a key, and then the key gets another one. -/
theorem shmem_table_hole : ¬ ∀ s : ShmemSys Unit,
    Reach shmemStep (fun _ _ => True) noShmems s → ShmemTableOk s := by
  intro h
  have hv : (run shmemStep (fun _ _ => true) noShmems
      [.newInst 256 1 (.ok (4096, ())), .newInst 512 1 (.ok (8192, ())), .deleteInst 1,
        .newInst 512 1 (.ok (8192, ()))]).map
      (fun s => ((s.table 1).magic, (s.table 2).magic, (s.table 1).key, (s.table 2).key))
      = some (true, true, osKey 512 1, osKey 512 1) := by decide
  obtain ⟨s, -, he, hr⟩ := run_map hv
  obtain ⟨hm1, hm2, hk1, hk2⟩ : (s.table 1).magic = true ∧ (s.table 2).magic = true ∧
      (s.table 1).key = osKey 512 1 ∧ (s.table 2).key = osKey 512 1 := by
    simpa only [Prod.mk.injEq] using he
  have hok := h s (hr.mono fun _ => trivial)
  have heq : 1 = 2 := hok.unique 1 2 ⟨by decide, by decide, hm1⟩ ⟨by decide, by decide, hm2⟩
    (hk1.trans hk2.symm)
  exact absurd heq (by decide)

end MachinekitHal
