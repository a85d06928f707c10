import Mathlib.Data.List.Induction
import Mathlib.Data.Nat.Basic

/-!
Arrays that are accessed by index: bitmaps, and arrays that are filled one by one.

An array is a list, and an access outside it has no result.

* `Bitmap.zero`, `Bitmap.clear`, `Bitmap.set`, `Bitmap.test`: a bitmap in words; `Bitmap.bit` are
  its bits.
* `store`, `fill`: a write, and writes to all places in turn; `fill_eq` says that they fill an
  array of the right size.
* `countP_index`: counting the elements of an array by their indices.
-/

namespace Bitmap

/-- A bitmap in words of `w` bits. -/
abbrev Words (w : ℕ) := List (BitVec w)

variable {w : ℕ} {b b' : Words w} {i j n : ℕ}

/-- The words of `n` bits. -/
def size (w n : ℕ) : ℕ := (n + w - 1) / w

/-- No bit of `n` set. -/
def zero (w n : ℕ) : Words w := List.replicate (size w n) 0

/-- The bits of a bitmap; those behind its end are clear. -/
def bit (b : Words w) (i : ℕ) : Bool := (b.getD (i / w) 0).getLsbD (i % w)

/-- Clear the words of `n` bits. -/
def clear (b : Words w) (n : ℕ) : Option (Words w) :=
  if size w n ≤ b.length then some (zero w n ++ b.drop (size w n)) else none

/-- Set a bit. -/
def set (b : Words w) (i : ℕ) : Option (Words w) :=
  b[i / w]?.map fun x => List.set b (i / w) (x ||| 1#w <<< (i % w))

/-- Test a bit. -/
def test (b : Words w) (i : ℕ) : Option Bool :=
  b[i / w]?.map fun x => decide (x &&& 1#w <<< (i % w) ≠ 0)

/-- The word of every bit is there. -/
lemma word_lt (hw : 0 < w) (h : i < n) : i / w < size w n := by
  have hle : i ≤ n - 1 := by omega
  have hsub : n + w - 1 = n - 1 + w := by omega
  rw [size, hsub, Nat.add_div_right _ hw]
  exact Nat.lt_succ_of_le (Nat.div_le_div_right hle)

@[simp] lemma length_zero : (zero w n).length = size w n := by simp [zero]

@[simp] lemma bit_zero : bit (zero w n) i = false := by
  rw [bit, zero, List.getD_eq_getElem?_getD, List.getElem?_replicate]
  split_ifs <;> simp

/-- Clearing a bitmap of the right size. -/
lemma clear_eq (h : b.length = size w n) : clear b n = some (zero w n) := by
  rw [clear, if_pos (Nat.le_of_eq h.symm), ← h, List.drop_length, List.append_nil]

/-- The mask of a bit has this bit set only. -/
lemma getLsbD_mask {k m : ℕ} (hk : k < w) : (1#w <<< k).getLsbD m = decide (m = k) := by
  rw [← BitVec.twoPow_eq, BitVec.getLsbD_twoPow]
  by_cases hm : m = k
  · simp [hm, hk]
  · simp [hm, Ne.symm hm]

/-- Bits are the same if words and places in them are. -/
lemma index_eq (h : i / w = j / w) (h' : i % w = j % w) : i = j := by
  rw [← Nat.div_add_mod i w, ← Nat.div_add_mod j w, h, h']

/-- Setting a bit of the bitmap sets this bit and no other. -/
lemma set_eq (hw : 0 < w) (h : i / w < b.length) : ∃ b', set b i = some b' ∧
    b'.length = b.length ∧ ∀ j, bit b' j = (decide (j = i) || bit b j) := by
  refine ⟨_, by rw [set, List.getElem?_eq_getElem h, Option.map_some], by simp, fun j => ?_⟩
  have hmod : i % w < w := Nat.mod_lt i hw
  rw [bit, bit, List.getD_eq_getElem?_getD, List.getD_eq_getElem?_getD]
  by_cases hword : j / w = i / w
  · rw [hword, List.getElem?_set_self h, List.getElem?_eq_getElem h, Option.getD_some,
      Option.getD_some, BitVec.getLsbD_or, getLsbD_mask hmod, Bool.or_comm]
    congr 1
    exact decide_eq_decide.2 ⟨fun hm => index_eq hword hm, fun hj => by rw [hj]⟩
  · have hne : j ≠ i := fun hj => hword (by rw [hj])
    rw [List.getElem?_set_ne fun he => hword he.symm]
    simp [hne]

/-- Testing a bit of the bitmap reads it. -/
lemma test_eq (hw : 0 < w) (h : i / w < b.length) : test b i = some (bit b i) := by
  have hset := getLsbD_mask (m := i % w) (Nat.mod_lt i hw)
  rw [test, bit, List.getD_eq_getElem?_getD, List.getElem?_eq_getElem h, Option.map_some,
    Option.getD_some, Option.some.injEq, ← BitVec.twoPow_eq, BitVec.and_twoPow]
  rw [← BitVec.twoPow_eq] at hset
  cases hb : b[i / w].getLsbD (i % w) with
  | false => simp
  | true =>
    have hne : BitVec.twoPow w (i % w) ≠ 0#w := fun h0 => by simp [h0] at hset
    simp [hne]

end Bitmap

/-! ### Filling an array -/

section Fill

variable {α : Type}

/-- Write to a place of an array. -/
def store (a : List α) (i : ℕ) (x : α) : Option (List α) :=
  if i < a.length then some (a.set i x) else none

/-- Write to the places of an array in turn, from `i` on. -/
def fill (a : List α) (i : ℕ) : List α → Option (List α × ℕ)
  | [] => some (a, i)
  | x :: xs => (store a i x).bind fun a => fill a (i + 1) xs

lemma fill_append (xs done : List α) (a : List α) (h : a.length = xs.length) :
    fill (done ++ a) done.length xs = some (done ++ xs, (done ++ xs).length) := by
  induction xs generalizing done a with
  | nil => simp [fill, List.length_eq_zero_iff.1 h]
  | cons x xs ih =>
    cases a with
    | nil => simp at h
    | cons y a =>
      have hstore : store (done ++ y :: a) done.length x = some ((done ++ [x]) ++ a) := by
        simp [store]
      have hrest := ih (done ++ [x]) a (by simpa using h)
      rw [fill, hstore, Option.bind_some]
      simpa using hrest

/-- An array of the right size is filled, and no write is outside. -/
lemma fill_eq {xs a : List α} (h : a.length = xs.length) :
    fill a 0 xs = some (xs, xs.length) := by
  simpa using fill_append xs [] a h

/-- Elements are counted by their indices. -/
lemma countP_index (l : List α) (f : α → Bool) :
    l.countP f = (List.range l.length).countP fun i => (l[i]?).any f := by
  induction l using List.reverseRecOn with
  | nil => rfl
  | append_singleton l x ih =>
    have hrest : (List.range l.length).countP (fun i => ((l ++ [x])[i]?).any f) =
        (List.range l.length).countP fun i => (l[i]?).any f := by
      refine List.countP_congr fun i hi => ?_
      rw [List.getElem?_append_left (List.mem_range.1 hi)]
    rw [List.countP_append, List.length_append, List.length_singleton, List.range_succ,
      List.countP_append, hrest, ih]
    simp

end Fill
