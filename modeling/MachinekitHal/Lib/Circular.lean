import MachinekitHal.Lib.Bytes

/-!
Circular buffers.

The bytes of a circular buffer of `size` bytes are the first `size` addresses of a
memory, taken modulo `size`.

* `window`: the bytes from a position on. `window_append` cuts a window in two.
* `pieces`: the at most two ranges of addresses a window consists of; `loadPieces`
  and `storePieces` move bytes through a list of ranges, one range after the other.
* `loadPieces_pieces`, `window_storePieces`: moving through the pieces of a window
  is moving the window; `window_storePieces_behind`: a window keeps its bytes when
  the ones behind it are stored to.
-/

namespace Circular

open Bytes

/-- The `n` bytes from position `a` on. -/
def window (m : Mem) (size a n : ℕ) : List UInt8 :=
  (List.range n).map fun i => m ((a + i) % size)

/-- The bytes of the ranges `ps`. -/
def loadPieces (m : Mem) : List (ℕ × ℕ) → List UInt8
  | [] => []
  | p :: ps => loadBytes m p.1 p.2 ++ loadPieces m ps

/-- The bytes `bs` moved to the ranges `ps`, as many as fit. -/
def storePieces (m : Mem) : List (ℕ × ℕ) → List UInt8 → Mem
  | [], _ => m
  | p :: ps, bs => storePieces (storeBytes m p.1 (bs.take p.2)) ps (bs.drop p.2)

/-- The ranges of the window of `n` bytes from position `a` on. -/
def pieces (size a n : ℕ) : List (ℕ × ℕ) :=
  if size < a + n then [(a, size - a), (0, a + n - size)] else [(a, n)]

variable {m m' : Mem} {size a n k x : ℕ} {bs : List UInt8}

/-! ### Windows -/

@[simp] lemma length_window (m : Mem) (size a n : ℕ) : (window m size a n).length = n := by
  simp [window]

@[simp] lemma window_zero (m : Mem) (size a : ℕ) : window m size a 0 = [] := rfl

/-- A position counts modulo the size. -/
lemma window_mod (m : Mem) (size a n : ℕ) : window m size (a % size) n = window m size a n := by
  simp only [window, Nat.mod_add_mod]

lemma window_append (m : Mem) (size a n k : ℕ) :
    window m size a (n + k) = window m size a n ++ window m size (a + n) k := by
  simp only [window, List.range_add, List.map_append, List.map_map, Function.comp_def,
    Nat.add_assoc]

lemma window_take (m : Mem) (size a n k : ℕ) :
    (window m size a n).take k = window m size a (min k n) := by
  obtain ⟨j, hj⟩ := Nat.exists_eq_add_of_le (Nat.min_le_right k n)
  conv_lhs => rw [hj, window_append]
  rcases Nat.le_total k n with hle | hle
  · rw [Nat.min_eq_left hle, List.take_append_of_le_length (by simp),
      List.take_of_length_le (by simp)]
  · obtain rfl : j = 0 := by rw [Nat.min_eq_right hle] at hj; omega
    rw [window_zero, List.append_nil, List.take_of_length_le (by simp [hle])]

/-- A window depends on its own positions only. -/
lemma window_congr (h : ∀ i, i < n → m' ((a + i) % size) = m ((a + i) % size)) :
    window m' size a n = window m size a n := by
  refine List.map_congr_left fun i hi => h i (List.mem_range.mp hi)

/-- A window that does not go round is a range of addresses. -/
lemma window_eq_loadBytes (h : a + n ≤ size) : window m size a n = loadBytes m a n := by
  refine List.ext_getElem? fun i => ?_
  rw [getElem?_loadBytes, window, List.getElem?_map]
  by_cases hi : i < n
  · rw [List.getElem?_range hi, if_pos hi, Option.map_some, Nat.mod_eq_of_lt (by omega)]
  · rw [List.getElem?_eq_none (by simpa using hi), if_neg hi, Option.map_none]

/-- A window that goes round. -/
lemma window_split (ha : a < size) (h : size < a + n) (hn : n ≤ size) :
    window m size a n = loadBytes m a (size - a) ++ loadBytes m 0 (a + n - size) := by
  have hsum : n = (size - a) + (a + n - size) := by omega
  rw [hsum, window_append, window_eq_loadBytes (by omega), ← window_mod,
    show (a + (size - a)) % size = 0 by rw [Nat.add_sub_cancel' ha.le, Nat.mod_self],
    window_eq_loadBytes (by omega), ← hsum]

/-! ### Pieces -/

/-- The pieces of a window lie in the buffer. -/
lemma pieces_inside (ha : a < size) (hn : n ≤ size) :
    ∀ p ∈ pieces size a n, p.1 + p.2 ≤ size := by
  intro p hp
  rw [pieces] at hp
  split_ifs at hp with h
  · simp only [List.mem_cons, List.not_mem_nil, or_false] at hp
    rcases hp with rfl | rfl <;> simp only <;> omega
  · simp only [List.mem_singleton] at hp
    subst hp
    simp only
    omega

/-- Loading the pieces of a window is loading the window. -/
lemma loadPieces_pieces (ha : a < size) (hn : n ≤ size) :
    loadPieces m (pieces size a n) = window m size a n := by
  rw [pieces]
  split_ifs with h
  · rw [window_split ha h hn, loadPieces, loadPieces, loadPieces, List.append_nil]
  · rw [window_eq_loadBytes (by omega), loadPieces, loadPieces, List.append_nil]

/-- Two positions of a window are different addresses. -/
lemma mod_ne {i j : ℕ} (hi : i < size) (hj : j < size) (h : i ≠ j) :
    (a + i) % size ≠ (a + j) % size := by
  intro heq
  have : i % size = j % size := Nat.ModEq.add_left_cancel' a heq
  rw [Nat.mod_eq_of_lt hi, Nat.mod_eq_of_lt hj] at this
  exact h this

/-- What stores to the pieces of a window leave at its positions. -/
lemma storePieces_apply (ha : a < size) (hn : n ≤ size) (hbs : bs.length ≤ n) {i : ℕ}
    (hi : i < bs.length) : storePieces m (pieces size a n) bs ((a + i) % size) = bs[i] := by
  rw [pieces]
  split_ifs with h
  · simp only [storePieces]
    rcases Nat.lt_or_ge i (size - a) with hfirst | hsecond
    · have hlen := List.length_take_le (a + n - size) (bs.drop (size - a))
      rw [Nat.mod_eq_of_lt (by omega), storeBytes_apply_of_outside (by omega),
        storeBytes_apply (by rw [List.length_take]; omega), List.getElem_take]
    · obtain ⟨j, rfl⟩ := Nat.exists_eq_add_of_le hsecond
      have hmod : (a + (size - a + j)) % size = 0 + j := by
        rw [show a + (size - a + j) = size + j by omega, Nat.add_mod_left,
          Nat.mod_eq_of_lt (by omega), Nat.zero_add]
      rw [hmod, storeBytes_apply (by rw [List.length_take, List.length_drop]; omega),
        List.getElem_take, List.getElem_drop]
  · rw [storePieces, storePieces, Nat.mod_eq_of_lt (by omega),
      storeBytes_apply (by rw [List.length_take]; omega), List.getElem_take]

/-- Stores to the pieces of a window leave the other addresses alone. -/
lemma storePieces_apply_of_ne (ha : a < size) (hn : n ≤ size) (hbs : bs.length ≤ n)
    (hx : ∀ j, j < bs.length → x ≠ (a + j) % size) :
    storePieces m (pieces size a n) bs x = m x := by
  rw [pieces]
  split_ifs with h
  · rw [storePieces, storePieces, storePieces, storeBytes_apply_of_outside,
      storeBytes_apply_of_outside]
    · by_contra hin
      rw [List.length_take] at hin
      refine hx (x - a) (by omega) ?_
      rw [Nat.add_sub_cancel' (by omega), Nat.mod_eq_of_lt (by omega)]
    · by_contra hin
      rw [List.length_take, List.length_drop] at hin
      refine hx (size - a + x) (by omega) ?_
      rw [show a + (size - a + x) = size + x by omega, Nat.add_mod_left,
        Nat.mod_eq_of_lt (by omega)]
  · rw [storePieces, storePieces, storeBytes_apply_of_outside]
    by_contra hin
    rw [List.length_take] at hin
    refine hx (x - a) (by omega) ?_
    rw [Nat.add_sub_cancel' (by omega), Nat.mod_eq_of_lt (by omega)]

/-- A window moved to its pieces reads back. -/
lemma window_storePieces (ha : a < size) (hn : n ≤ size) (hbs : bs.length ≤ n) :
    window (storePieces m (pieces size a n) bs) size a bs.length = bs := by
  refine List.ext_getElem (length_window ..) fun i h1 h2 => ?_
  simp only [window, List.getElem_map, List.getElem_range]
  exact storePieces_apply ha hn hbs h2

/-- The window in front of the bytes stored keeps its bytes. -/
lemma window_storePieces_behind (ha : (a + k) % size < size) (hn : n ≤ size)
    (hbs : bs.length ≤ n) (hfit : k + bs.length ≤ size) :
    window (storePieces m (pieces size ((a + k) % size) n) bs) size a k = window m size a k := by
  refine window_congr fun i hi => storePieces_apply_of_ne ha hn hbs fun j hj => ?_
  rw [Nat.mod_add_mod, Nat.add_assoc]
  exact mod_ne (by omega) (by omega) (by omega)

end Circular
