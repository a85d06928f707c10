import Mathlib.Data.List.TakeWhile
import Mathlib.Tactic

/-!
Buffers of fixed size.

A buffer is a list; an access that is not inside it has no result.

* `readAt`, `writeAt`: a range is read or overwritten.
* `cStringAt`: the string from an offset up to the terminator.
* `readAt_append`, `writeAt_append`, `cStringAt_append`: the accesses to a buffer whose parts
  are known.
-/

namespace Buffers

variable {α : Type*}

/-- The `n` elements from `off` on. -/
def readAt (l : List α) (off n : ℕ) : Option (List α) :=
  if off + n ≤ l.length then some ((l.drop off).take n) else none

/-- The buffer with `xs` written at `off`. -/
def writeAt (l : List α) (off : ℕ) (xs : List α) : Option (List α) :=
  if off + xs.length ≤ l.length then some (l.take off ++ (xs ++ l.drop (off + xs.length)))
  else none

/-- The string from `off` up to the first `z`. -/
def cStringAt [DecidableEq α] (z : α) (l : List α) (off : ℕ) : Option (List α) :=
  if z ∈ l.drop off then some ((l.drop off).takeWhile (· ≠ z)) else none

variable {pre post xs : List α}

lemma readAt_append (pre mid post : List α) :
    readAt (pre ++ (mid ++ post)) pre.length mid.length = some mid := by
  rw [readAt, if_pos (by simp), List.drop_left, List.take_left]

/-- A range in the first part of a buffer. -/
lemma readAt_left {l post : List α} {off n : ℕ} (h : off + n ≤ l.length) :
    readAt (l ++ post) off n = readAt l off n := by
  rw [readAt, readAt, if_pos h, if_pos (by rw [List.length_append]; omega),
    List.drop_append_of_le_length (by omega), List.take_append_of_le_length]
  rw [List.length_drop]
  omega

/-- A range in a constant second part. -/
lemma readAt_replicate {l : List α} {x : α} {off n k : ℕ} (h : l.length ≤ off)
    (hle : off + n ≤ l.length + k) :
    readAt (l ++ List.replicate k x) off n = some (List.replicate n x) := by
  rw [readAt, if_pos (by rw [List.length_append, List.length_replicate]; omega),
    List.drop_append, List.drop_of_length_le h, List.nil_append, List.drop_replicate,
    List.take_replicate, min_eq_left (by omega)]

lemma writeAt_append (pre : List α) {post xs : List α} (h : xs.length ≤ post.length) :
    writeAt (pre ++ post) pre.length xs = some (pre ++ (xs ++ post.drop xs.length)) := by
  rw [writeAt, if_pos (by simpa using h), List.take_left, ← List.drop_drop, List.drop_left]

lemma writeAt_length {l l' : List α} {off : ℕ} (h : writeAt l off xs = some l') :
    l'.length = l.length := by
  unfold writeAt at h
  split_ifs at h
  cases h
  simp only [List.length_append, List.length_take, List.length_drop]
  omega

/-- A write that fits, and what is then in front of its end. -/
lemma exists_writeAt (l : List α) (off : ℕ) (xs : List α) (h : off + xs.length ≤ l.length) :
    ∃ l', writeAt l off xs = some l' ∧ l'.length = l.length ∧
      l'.take (off + xs.length) = l.take off ++ xs := by
  have hwrite : writeAt l off xs = some (l.take off ++ (xs ++ l.drop (off + xs.length))) :=
    if_pos h
  refine ⟨_, hwrite, writeAt_length hwrite, ?_⟩
  rw [← List.append_assoc, List.take_left']
  rw [List.length_append, List.length_take, min_eq_left (by omega)]

/-- A write that does not fit. -/
lemma writeAt_none (h : post.length < xs.length) : writeAt (pre ++ post) pre.length xs = none := by
  rw [writeAt, if_neg (by simpa using h)]

/-- What is behind a string starts with its terminator. -/
lemma exists_terminator [DecidableEq α] (z : α) (xs post : List α) :
    ∃ post', xs ++ z :: post = xs.takeWhile (· ≠ z) ++ z :: post' := by
  induction xs with
  | nil => exact ⟨post, rfl⟩
  | cons x xs ih =>
    obtain ⟨post', ih⟩ := ih
    by_cases hx : x = z
    · exact ⟨xs ++ z :: post, by simp [hx]⟩
    · refine ⟨post', ?_⟩
      rw [List.takeWhile_cons_of_pos (by simpa using hx), List.cons_append, ih, List.cons_append]

/-- A string that does not contain the terminator is its own text. -/
lemma takeWhile_of_notMem [DecidableEq α] {z : α} (h : z ∉ xs) : xs.takeWhile (· ≠ z) = xs :=
  List.takeWhile_eq_self_iff.2 fun x hx => by simpa using ne_of_mem_of_not_mem hx h

lemma notMem_takeWhile [DecidableEq α] (z : α) (xs : List α) : z ∉ xs.takeWhile (· ≠ z) :=
  fun h => by simpa using List.mem_takeWhile_imp h

/-- A terminated string inside a buffer, up to its first terminator. -/
lemma cStringAt_append [DecidableEq α] (z : α) (pre xs post : List α) :
    cStringAt z (pre ++ (xs ++ z :: post)) pre.length = some (xs.takeWhile (· ≠ z)) := by
  obtain ⟨post', hpost⟩ := exists_terminator z xs post
  have htext : (xs ++ z :: post).takeWhile (· ≠ z) = xs.takeWhile (· ≠ z) := by
    rw [hpost, List.takeWhile_append_of_pos (fun x hx => (List.mem_takeWhile_imp hx :)),
      List.takeWhile_cons_of_neg (by simp), List.append_nil]
  rw [cStringAt, List.drop_left, if_pos (by simp), htext]

end Buffers
