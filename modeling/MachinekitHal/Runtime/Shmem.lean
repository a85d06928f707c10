import MachinekitHal.Basic

/-!
`rtapi_shmem.c`: the table of shared memory segments of a process.

A slot of the table holds a segment while its magic is set: its key, its size, the
number of its users and its memory, of which type `M` is the part that is modelled.

* `shmScan`: the search of `rtapi_shmem_new_inst`, which ends at the first slot with
  the key or at the first unused slot.
* `rtapiShmemNewInst`, `rtapiShmemDeleteInst`, `rtapiShmemGetptr`: the operations.
* `shmScan_congr`, `shmScan_insert`: what the search finds after a slot was written.
* `rtapiShmemNewInst_cases`: what taking a segment can do.

A segment that no slot of this process holds does not exist yet, so
`shm_common_new` (`shmCommonNew`) creates it, with the size asked for and filled with
zeros, or fails.
-/

namespace MachinekitHal

open Function (update)

variable {M : Type}

/-- `shmem_data`. `count` is an `int`; there are fewer than `2 ^ 31` uses. -/
structure ShmemData (M : Type) where
  magic : Bool
  key : ℕ
  size : ℤ
  count : ℤ
  mem : M

/-- `shmem_array`. -/
abbrev ShmemArray (M : Type) := ℕ → ShmemData M

/-- `RTAPI_MAX_SHMEMS`. -/
def rtapiMaxShmems : ℕ := 32

/-- `OS_KEY`: the low three bytes of the key and the instance in the top one. -/
def osKey (key inst : ℕ) : ℕ := key % 16777216 + inst % 256 * 16777216

/-- Applying `OS_KEY` again changes nothing. -/
lemma osKey_osKey (key inst : ℕ) : osKey (osKey key inst) inst = osKey key inst := by
  simp only [osKey]
  omega

/-- Keys that differ in their low three bytes stay different. -/
lemma osKey_inj {k k' inst : ℕ} (hk : k < 16777216) (hk' : k' < 16777216)
    (h : osKey k inst = osKey k' inst) : k = k' := by
  simp only [osKey] at h
  omega

/-- How the search through the table ends. -/
inductive ShmScan where
  | found (i : ℕ) | free (i : ℕ) | full
  deriving DecidableEq

/-- The search among the `n` slots from `i` on. -/
def shmScanFrom (a : ShmemArray M) (key : ℕ) : ℕ → ℕ → ShmScan
  | 0, _ => .full
  | n + 1, i =>
    if (a i).magic ∧ (a i).key = key then .found i
    else if (a i).magic then shmScanFrom a key n (i + 1)
    else .free i

/-- The search through the table; slot `0` is not used. -/
def shmScan (a : ShmemArray M) (key : ℕ) : ShmScan := shmScanFrom a key (rtapiMaxShmems - 1) 1

/-- `shm_common_new` for a key no slot holds; `avail` says whether the system has the
memory. A segment of size `0` would have to exist, one of negative size cannot be
mapped. -/
def shmCommonNew (avail : Bool) (size : ℤ) : Except Errno ℤ :=
  if size = 0 then .error .ENOENT
  else if 0 < size ∧ avail then .ok size
  else .error .ENOMEM

/-- `shmem_array[i].count++`. -/
def incrCount (a : ShmemArray M) (i : ℕ) : ShmemArray M :=
  update a i { a i with count := (a i).count + 1 }

/-- `rtapi_shmem_new_inst`; a size of `0` asks for a segment that exists. -/
def rtapiShmemNewInst (a : ShmemArray M) (avail : Bool) (zeros : M) (userkey inst : ℕ) (size : ℤ) :
    Except Errno ℕ × ShmemArray M :=
  let key := osKey userkey inst
  match shmScan a key with
  | .found i => (.ok i, incrCount a i)
  | .full => (.error .ENOMEM, a)
  | .free i =>
    match shmCommonNew avail size with
    | .error e => (.error e, a)
    | .ok actual =>
      (.ok i, update a i
        { magic := true, key := key, size := actual, count := 1, mem := zeros })

/-- `rtapi_shmem_getptr`. -/
def rtapiShmemGetptr (a : ShmemArray M) (handle : ℕ) : Option M :=
  if 1 ≤ handle ∧ handle < rtapiMaxShmems ∧ (a handle).magic then some (a handle).mem else none

/-- `rtapi_shmem_delete_inst`. -/
def rtapiShmemDeleteInst (a : ShmemArray M) (handle : ℕ) : Option Errno × ShmemArray M :=
  if ¬ (1 ≤ handle ∧ handle < rtapiMaxShmems) then (some .EINVAL, a) else
  if (a handle).magic = false then (some .EINVAL, a) else
  let shmem := { a handle with count := (a handle).count - 1 }
  if shmem.count ≠ 0 then (none, update a handle shmem)
  else (none, update a handle { shmem with magic := false })

/-! ### The search -/

variable {a a' : ShmemArray M} {key : ℕ}

lemma shmScanFrom_found : ∀ {n i j : ℕ}, shmScanFrom a key n i = .found j →
    i ≤ j ∧ j < i + n ∧ (a j).magic = true ∧ (a j).key = key
  | 0, i, j, h => by simp [shmScanFrom] at h
  | n + 1, i, j, h => by
      rw [shmScanFrom] at h
      split_ifs at h with h1 h2
      · obtain rfl := ShmScan.found.inj h
        exact ⟨le_rfl, by omega, h1.1, h1.2⟩
      · obtain ⟨hle, hlt, hm, hk⟩ := shmScanFrom_found h
        exact ⟨by omega, by omega, hm, hk⟩

/-- What is found is in use and has the key. -/
lemma shmScan_found {j : ℕ} (h : shmScan a key = .found j) :
    1 ≤ j ∧ j < rtapiMaxShmems ∧ (a j).magic = true ∧ (a j).key = key := by
  obtain ⟨hle, hlt, hm, hk⟩ := shmScanFrom_found h
  exact ⟨hle, by simp only [rtapiMaxShmems] at hlt ⊢; omega, hm, hk⟩

lemma shmScanFrom_free : ∀ {n i j : ℕ}, shmScanFrom a key n i = .free j →
    i ≤ j ∧ j < i + n ∧ (a j).magic = false
  | 0, i, j, h => by simp [shmScanFrom] at h
  | n + 1, i, j, h => by
      rw [shmScanFrom] at h
      split_ifs at h with h1 h2
      · obtain ⟨hle, hlt, hm⟩ := shmScanFrom_free h
        exact ⟨by omega, by omega, hm⟩
      · obtain rfl := ShmScan.free.inj h
        exact ⟨le_rfl, by omega, by simpa using h2⟩

/-- Where a new segment goes the slot is not in use. -/
lemma shmScan_free {j : ℕ} (h : shmScan a key = .free j) :
    1 ≤ j ∧ j < rtapiMaxShmems ∧ (a j).magic = false := by
  obtain ⟨hle, hlt, hm⟩ := shmScanFrom_free h
  exact ⟨hle, by simp only [rtapiMaxShmems] at hlt ⊢; omega, hm⟩

/-- The search looks at the magics and keys only. -/
lemma shmScan_congr (h : ∀ i, (a' i).magic = (a i).magic ∧ (a' i).key = (a i).key) (key : ℕ) :
    shmScan a' key = shmScan a key := by
  have hfrom : ∀ n i, shmScanFrom a' key n i = shmScanFrom a key n i := by
    intro n
    induction n with
    | zero => exact fun _ => rfl
    | succ n ih =>
      intro i
      rw [shmScanFrom, shmScanFrom, (h i).1, (h i).2, ih]
  exact hfrom _ _

lemma shmScanFrom_insert {s : ShmemData M} (hs : s.magic = true) (hk : s.key = key) :
    ∀ {n i j : ℕ}, shmScanFrom a key n i = .free j →
      shmScanFrom (update a j s) key n i = .found j ∧
      ∀ key' j', shmScanFrom a key' n i = .found j' →
        shmScanFrom (update a j s) key' n i = .found j'
  | 0, i, j, h => by simp [shmScanFrom] at h
  | n + 1, i, j, h => by
      rw [shmScanFrom] at h
      split_ifs at h with h1 h2
      · have hlt : ∀ {n i j}, shmScanFrom a key n i = .free j → i ≤ j := by
          intro n
          induction n with
          | zero => simp [shmScanFrom]
          | succ n ih =>
            intro i j h
            rw [shmScanFrom] at h
            split_ifs at h
            · have hle := ih h
              omega
            · exact (ShmScan.free.inj h).le
        have hij : i ≠ j := by
          have hle := hlt h
          omega
        obtain ⟨hfound, hrest⟩ := shmScanFrom_insert hs hk h
        refine ⟨?_, fun key' j' h' => ?_⟩
        · rw [shmScanFrom, Function.update_of_ne hij, if_neg h1, if_pos h2, hfound]
        · rw [shmScanFrom] at h' ⊢
          rw [Function.update_of_ne hij]
          split_ifs at h' ⊢ with h3
          · exact h'
          · exact hrest key' j' h'
      · obtain rfl := ShmScan.free.inj h
        refine ⟨?_, fun key' j' h' => ?_⟩
        · rw [shmScanFrom, Function.update_self, if_pos ⟨hs, hk⟩]
        · rw [shmScanFrom, if_neg fun h3 => h2 h3.1, if_neg h2] at h'
          cases h'

/-- A segment put into the slot where the search ended is found there, and the others
are found where they were. -/
lemma shmScan_insert {s : ShmemData M} (hs : s.magic = true) (hk : s.key = key) {j : ℕ}
    (h : shmScan a key = .free j) :
    shmScan (update a j s) key = .found j ∧
    ∀ key' j', shmScan a key' = .found j' → shmScan (update a j s) key' = .found j' :=
  shmScanFrom_insert hs hk h

/-! ### The operations -/

/-- What `rtapi_shmem_new_inst` can do: fail, take a use of the segment it finds, or create
one of the size asked for. -/
lemma rtapiShmemNewInst_cases (a : ShmemArray M) (avail : Bool) (zeros : M) (userkey inst : ℕ)
    (size : ℤ) :
    (∃ e, rtapiShmemNewInst a avail zeros userkey inst size = (.error e, a)) ∨
    (∃ i, shmScan a (osKey userkey inst) = .found i ∧
      rtapiShmemNewInst a avail zeros userkey inst size = (.ok i, incrCount a i)) ∨
    ∃ i, shmScan a (osKey userkey inst) = .free i ∧ 0 < size ∧
      rtapiShmemNewInst a avail zeros userkey inst size
        = (.ok i, update a i ⟨true, osKey userkey inst, size, 1, zeros⟩) := by
  cases hs : shmScan a (osKey userkey inst) with
  | found i => exact .inr (.inl ⟨i, rfl, by simp [rtapiShmemNewInst, hs]⟩)
  | full => exact .inl ⟨.ENOMEM, by simp [rtapiShmemNewInst, hs]⟩
  | free i =>
    by_cases h0 : size = 0
    · exact .inl ⟨.ENOENT, by simp [rtapiShmemNewInst, hs, shmCommonNew, h0]⟩
    · by_cases hpos : 0 < size ∧ avail = true
      · exact .inr (.inr ⟨i, rfl, hpos.1, by simp [rtapiShmemNewInst, hs, shmCommonNew, h0, hpos]⟩)
      · exact .inl ⟨.ENOMEM, by simp only [rtapiShmemNewInst, hs, shmCommonNew, h0, if_false,
          hpos]⟩

/-- The handle of a segment just taken can be mapped. -/
lemma rtapiShmemGetptr_of_new {avail : Bool} {zeros : M} {userkey inst i : ℕ} {size : ℤ}
    (h : rtapiShmemNewInst a avail zeros userkey inst size = (.ok i, a')) :
    rtapiShmemGetptr a' i = some (a' i).mem := by
  rcases rtapiShmemNewInst_cases a avail zeros userkey inst size with
    ⟨e, he⟩ | ⟨j, hs, he⟩ | ⟨j, hs, -, he⟩
  · simp [he] at h
  · cases he.symm.trans h
    obtain ⟨h1, h2, hm, -⟩ := shmScan_found hs
    simp [rtapiShmemGetptr, incrCount, h1, h2, hm]
  · cases he.symm.trans h
    obtain ⟨h1, h2, -⟩ := shmScan_free hs
    simp [rtapiShmemGetptr, h1, h2]

end MachinekitHal
