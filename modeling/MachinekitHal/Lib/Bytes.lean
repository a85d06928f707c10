import Mathlib.Tactic

/-!
Byte-addressed memory with little-endian 32-bit words.

* `Mem`, `load32`, `store32`: a word occupies the four bytes from its address.
* `load64`, `store64`: a double word is two words.
* `loadBytes`, `storeBytes`: ranges of bytes, as `memcpy` and `memmove` move them.
* The frame lemmas (`load32_congr`, `loadBytes_congr`, `store32_apply_of_outside`,
  `storeBytes_apply_of_outside`) say that a load depends on its own bytes only and
  that a store changes its own bytes only; the readback lemmas
  (`load32_store32`, `loadBytes_storeBytes`) say what a store leaves behind.
-/

namespace Bytes

/-- A memory: one byte at every address. -/
abbrev Mem := ℕ → UInt8

/-- The word at address `a`, least significant byte first. -/
def load32 (m : Mem) (a : ℕ) : ℕ :=
  (m a).toNat + 256 * (m (a + 1)).toNat + 65536 * (m (a + 2)).toNat
    + 16777216 * (m (a + 3)).toNat

/-- The store of the word `v` at address `a`. -/
def store32 (m : Mem) (a v : ℕ) : Mem := fun x =>
  if x = a then UInt8.ofNat v
  else if x = a + 1 then UInt8.ofNat (v / 256)
  else if x = a + 2 then UInt8.ofNat (v / 65536)
  else if x = a + 3 then UInt8.ofNat (v / 16777216)
  else m x

/-- The double word at address `a`. -/
def load64 (m : Mem) (a : ℕ) : ℕ := load32 m a + 4294967296 * load32 m (a + 4)

/-- The store of the double word `v` at address `a`. -/
def store64 (m : Mem) (a v : ℕ) : Mem :=
  store32 (store32 m a (v % 4294967296)) (a + 4) (v / 4294967296)

/-- The store of one byte. -/
def store8 (m : Mem) (a : ℕ) (b : UInt8) : Mem := fun x => if x = a then b else m x

/-- The `n` bytes from address `a`. -/
def loadBytes (m : Mem) (a : ℕ) : ℕ → List UInt8
  | 0 => []
  | n + 1 => m a :: loadBytes m (a + 1) n

/-- The copy of the bytes `bs` to address `a`. -/
def storeBytes (m : Mem) (a : ℕ) (bs : List UInt8) : Mem := fun x =>
  if a ≤ x then (bs[x - a]?).getD (m x) else m x

/-- The four bytes of the word `v`. -/
def le32 (v : ℕ) : List UInt8 :=
  [UInt8.ofNat v, UInt8.ofNat (v / 256), UInt8.ofNat (v / 65536), UInt8.ofNat (v / 16777216)]

variable {m m' : Mem} {a v x : ℕ}

/-! ### Words -/

lemma load32_lt (m : Mem) (a : ℕ) : load32 m a < 4294967296 := by
  have h0 := (m a).toNat_lt
  have h1 := (m (a + 1)).toNat_lt
  have h2 := (m (a + 2)).toNat_lt
  have h3 := (m (a + 3)).toNat_lt
  rw [load32]; omega

/-- A word is determined by its four bytes. -/
lemma load32_congr (h : ∀ x, a ≤ x → x < a + 4 → m' x = m x) :
    load32 m' a = load32 m a := by
  simp only [load32, h a (by omega) (by omega), h (a + 1) (by omega) (by omega),
    h (a + 2) (by omega) (by omega), h (a + 3) (by omega) (by omega)]

/-- A word store changes its four bytes only. -/
lemma store32_apply_of_outside (h : x < a ∨ a + 4 ≤ x) : store32 m a v x = m x := by
  simp only [store32, if_neg (show x ≠ a by omega), if_neg (show x ≠ a + 1 by omega),
    if_neg (show x ≠ a + 2 by omega), if_neg (show x ≠ a + 3 by omega)]

/-- A word reads back as stored. -/
lemma load32_store32 (hv : v < 4294967296) : load32 (store32 m a v) a = v := by
  simp only [load32, store32, if_true, if_neg (show a + 1 ≠ a by omega),
    if_neg (show a + 2 ≠ a by omega), if_neg (show a + 2 ≠ a + 1 by omega),
    if_neg (show a + 3 ≠ a by omega), if_neg (show a + 3 ≠ a + 1 by omega),
    if_neg (show a + 3 ≠ a + 2 by omega), UInt8.toNat_ofNat']
  omega

/-- A word store leaves a disjoint word alone. -/
lemma load32_store32_of_disjoint {b : ℕ} (h : b + 4 ≤ a ∨ a + 4 ≤ b) :
    load32 (store32 m a v) b = load32 m b :=
  load32_congr fun x h1 h2 => store32_apply_of_outside (by omega)

/-- A word stored where it stands changes nothing. -/
lemma store32_load32 (m : Mem) (a : ℕ) : store32 m a (load32 m a) = m := by
  have h0 := (m a).toNat_lt
  have h1 := (m (a + 1)).toNat_lt
  have h2 := (m (a + 2)).toNat_lt
  have h3 := (m (a + 3)).toNat_lt
  funext x
  rw [store32, load32]
  split_ifs with hx0 hx1 hx2 hx3
  all_goals first
    | rfl
    | (subst x
       apply UInt8.toNat_inj.mp
       rw [UInt8.toNat_ofNat']
       omega)

/-! ### Double words -/

/-- A double word is determined by its eight bytes. -/
lemma load64_congr {b : ℕ} (h : ∀ i < 8, m' (b + i) = m (a + i)) :
    load64 m' b = load64 m a := by
  have hbyte : ∀ i < 4, m' (b + 4 + i) = m (a + 4 + i) := fun i hi => by
    rw [Nat.add_assoc, Nat.add_assoc, h (4 + i) (by omega)]
  have h0 : m' b = m a := h 0 (by decide)
  have h4 : m' (b + 4) = m (a + 4) := hbyte 0 (by decide)
  simp only [load64, load32, h0, h4, h 1 (by decide), h 2 (by decide), h 3 (by decide),
    hbyte 1 (by decide), hbyte 2 (by decide), hbyte 3 (by decide)]

/-- A double word store changes its eight bytes only. -/
lemma store64_apply_of_outside (h : x < a ∨ a + 8 ≤ x) : store64 m a v x = m x := by
  rw [store64, store32_apply_of_outside (by omega), store32_apply_of_outside (by omega)]

/-- A double word reads back as stored. -/
lemma load64_store64 (hv : v < 18446744073709551616) : load64 (store64 m a v) a = v := by
  rw [load64, store64, load32_store32_of_disjoint (by omega), load32_store32 (by omega),
    load32_store32 (by omega)]
  omega

/-! ### Ranges of bytes -/

@[simp] lemma store8_self (m : Mem) (a : ℕ) (b : UInt8) : store8 m a b a = b := by
  simp [store8]

lemma store8_apply_of_ne {b : UInt8} (h : x ≠ a) : store8 m a b x = m x := by
  simp [store8, h]

@[simp] lemma loadBytes_zero (m : Mem) (a : ℕ) : loadBytes m a 0 = [] := rfl

@[simp] lemma length_loadBytes (m : Mem) : ∀ (a n : ℕ), (loadBytes m a n).length = n
  | _, 0 => rfl
  | a, n + 1 => by simp [loadBytes, length_loadBytes m (a + 1) n]

lemma loadBytes_add (m : Mem) : ∀ (a n k : ℕ),
    loadBytes m a (n + k) = loadBytes m a n ++ loadBytes m (a + n) k
  | a, 0, k => by simp
  | a, n + 1, k => by
      rw [show n + 1 + k = n + k + 1 by omega]
      simp only [loadBytes, loadBytes_add m (a + 1) n k, List.cons_append,
        show a + 1 + n = a + (n + 1) by omega]

lemma getElem?_loadBytes (m : Mem) : ∀ (a n i : ℕ),
    (loadBytes m a n)[i]? = if i < n then some (m (a + i)) else none
  | _, 0, _ => by simp
  | a, n + 1, 0 => by simp [loadBytes]
  | a, n + 1, i + 1 => by
      simp [loadBytes, getElem?_loadBytes m (a + 1) n i, show a + 1 + i = a + (i + 1) by omega]

/-- A word is its four bytes. -/
lemma loadBytes_four (m : Mem) (a : ℕ) : loadBytes m a 4 = le32 (load32 m a) := by
  have h0 := (m a).toNat_lt
  have h1 := (m (a + 1)).toNat_lt
  have h2 := (m (a + 2)).toNat_lt
  have h3 := (m (a + 3)).toNat_lt
  simp only [loadBytes, le32, load32, List.cons.injEq, and_true, Nat.add_assoc,
    Nat.reduceAdd]
  refine ⟨?_, ?_, ?_, ?_⟩ <;>
    (apply UInt8.toNat_inj.mp; rw [UInt8.toNat_ofNat']; omega)

/-- The bytes of a word determine it. -/
lemma le32_inj {w : ℕ} (hv : v < 4294967296) (hw : w < 4294967296) (h : le32 v = le32 w) :
    v = w := by
  simp only [le32, List.cons.injEq, and_true, ← UInt8.toNat_inj, UInt8.toNat_ofNat'] at h
  omega

/-- A part of a range of bytes. -/
lemma loadBytes_mid {n : ℕ} {pre mid post : List UInt8}
    (h : loadBytes m a n = pre ++ (mid ++ post)) :
    loadBytes m (a + pre.length) mid.length = mid := by
  have hn : n = pre.length + (mid.length + post.length) := by
    simpa using congrArg List.length h
  rw [hn, loadBytes_add, loadBytes_add] at h
  have h' := (List.append_inj h (length_loadBytes _ _ _)).2
  exact (List.append_inj h' (length_loadBytes _ _ _)).1

/-- A word within a range of bytes. -/
lemma load32_mid {n : ℕ} {pre post : List UInt8} (hv : v < 4294967296)
    (h : loadBytes m a n = pre ++ (le32 v ++ post)) : load32 m (a + pre.length) = v := by
  have h' := loadBytes_mid h
  rw [show (le32 v).length = 4 from rfl, loadBytes_four] at h'
  exact le32_inj (load32_lt _ _) hv h'

/-- A range of bytes depends on its own addresses only. -/
lemma loadBytes_congr : ∀ {a n : ℕ}, (∀ x, a ≤ x → x < a + n → m' x = m x) →
    loadBytes m' a n = loadBytes m a n
  | _, 0, _ => rfl
  | a, n + 1, h => by
      rw [loadBytes, loadBytes, h a (by omega) (by omega),
        loadBytes_congr fun x h1 h2 => h x (by omega) (by omega)]

/-- A copy changes its destination range only. -/
lemma storeBytes_apply_of_outside {bs : List UInt8} (h : x < a ∨ a + bs.length ≤ x) :
    storeBytes m a bs x = m x := by
  rw [storeBytes]
  split
  · rw [List.getElem?_eq_none (by omega)]; rfl
  · rfl

/-- Inside its destination range a copy leaves the source byte. -/
lemma storeBytes_apply {bs : List UInt8} {i : ℕ} (h : i < bs.length) :
    storeBytes m a bs (a + i) = bs[i] := by
  rw [storeBytes, if_pos (by omega), show a + i - a = i by omega,
    List.getElem?_eq_getElem h]
  rfl

/-- A copied range reads back as its source. -/
lemma loadBytes_storeBytes (m : Mem) (a : ℕ) (bs : List UInt8) :
    loadBytes (storeBytes m a bs) a bs.length = bs := by
  apply List.ext_getElem?
  intro i
  rw [getElem?_loadBytes]
  split
  · next h => rw [storeBytes_apply h, List.getElem?_eq_getElem h]
  · next h => rw [List.getElem?_eq_none (by omega)]

end Bytes
