import MachinekitHal.Lib.Turns
import MachinekitHal.Ring.StreamFifo

/-!
The vectors of a stream ring.

* `positions`, `positions_pieces`: the positions of the bytes that a vector describes.
* `VectorsDescribe`: the vectors describe the unread and the free bytes;
  `StreamRing.Unread.describe` gives them with `n` bytes unread, also after an advance.
* `Behind`: a state with `n` unread bytes, whatever was delivered before; `Behind.step` keeps
  this in steps that meet `vectorFits`.
* `stream_vectors`: the vectors in every state reached.
-/

namespace MachinekitHal

open Bytes Word Circular Runs Turns

/-! ### Positions -/

/-- The positions of the bytes of the ranges `ps`. -/
def positions (ps : List (ℕ × ℕ)) : List ℕ := ps.flatMap fun p => List.range' p.1 p.2

/-- The pieces of a window describe its positions in order. -/
lemma positions_pieces {size a n : ℕ} (ha : a < size) (hn : n ≤ size) :
    positions (pieces size a n) = (List.range n).map fun i => (a + i) % size := by
  refine List.ext_getElem ?_ fun i hi hi' => ?_
  · rw [pieces]
    split_ifs
    · simp [positions]
      omega
    · simp [positions]
  · have hin : i < n := by simpa using hi'
    rw [List.getElem_map, List.getElem_range]
    have hpos : positions (pieces size a n) =
        if size < a + n then List.range' a (size - a) ++ List.range' 0 (a + n - size)
        else List.range' a n := by
      rw [pieces]
      split_ifs <;> simp [positions]
    simp only [hpos]
    split_ifs with hsplit
    · rw [List.getElem_append]
      split
      · next hlt =>
          rw [List.length_range'] at hlt
          rw [List.getElem_range', Nat.one_mul, Nat.mod_eq_of_lt (by omega)]
      · next hge =>
          rw [List.length_range'] at hge
          rw [List.getElem_range', Nat.one_mul, List.length_range',
            Nat.mod_eq_sub_mod (show size ≤ a + i by omega), Nat.mod_eq_of_lt (by omega)]
          omega
    · rw [List.getElem_range', Nat.one_mul, Nat.mod_eq_of_lt (by omega)]

/-! ### The property -/

/-- The vectors of a ring with `n` unread bytes. -/
structure VectorsDescribe (r : StreamRing) (n : ℕ) : Prop where
  /-- the unread bytes, in order -/
  read : positions r.readVector = (List.range n).map fun i => (r.head + i) % r.size
  /-- the free bytes, in order -/
  write : positions r.writeVector =
    (List.range (r.size - 1 - n)).map fun i => (r.tail + i) % r.size
  /-- there is a second piece only when the first one ends with the buffer -/
  pieces : ∀ v ∈ [r.readVector, r.writeVector], (∃ p, v = [p]) ∨
    ∃ p m, v = [p, (0, m)] ∧ p.1 + p.2 = r.size
  inside : ∀ x ∈ positions r.readVector ++ positions r.writeVector, x < r.size
  disjoint : (positions r.readVector).Disjoint (positions r.writeVector)
  readSpace : r.readSpace = n
  space : r.readSpace + r.writeSpace = r.size - 1

/-- The vectors describe what is unread and what is free, and go on doing so when they are
advanced over. -/
structure VectorsHold (ok : StreamSys → StreamOp → Bool) (s : StreamSys) : Prop where
  describe : VectorsDescribe s.ring s.unread
  /-- the read vector gives the bytes accepted and not read -/
  readable : s.readable = s.kept.drop s.out.length
  /-- `stream_write` fills the write vector from the start -/
  fills : ∀ src, ok s (.write src) = true →
    positions (s.ring.writePieces src.length) =
      (positions s.ring.writeVector).take (s.ring.toWrite src.length)
  readAdvance : ∀ k ≤ s.ring.readSpace,
    VectorsDescribe (s.ring.readAdvance k) (s.unread - k) ∧
      positions (s.ring.readAdvance k).readVector = (positions s.ring.readVector).drop k
  writeAdvance : ∀ k ≤ s.ring.writeSpace,
    VectorsDescribe (s.ring.writeAdvance k) (s.unread + k) ∧
      positions (s.ring.writeAdvance k).writeVector = (positions s.ring.writeVector).drop k

/-- `stream_write` does not cross the end of the buffer, and the advances stay within what is
available. -/
def vectorFits (s : StreamSys) : StreamOp → Bool
  | .write src => s.ring.tail + s.ring.toWrite src.length ≤ s.ring.size
  | .readAdvance cnt => cnt ≤ s.ring.readSpace
  | .writeAdvance cnt => cnt ≤ s.ring.writeSpace
  | _ => true

/-! ### The ring with `n` unread bytes -/

namespace StreamRing.Unread

variable {r : StreamRing} {n k : ℕ}

lemma positions_read (h : r.Unread n) :
    positions r.readVector = (List.range n).map fun i => (r.head + i) % r.size := by
  rw [h.readVector, positions_pieces h.head_lt h.lt.le]

lemma positions_write (h : r.Unread n) : positions r.writeVector =
    (List.range (r.size - 1 - n)).map fun i => (r.tail + i) % r.size := by
  have hsize := h.size_le
  rw [h.writeVector, positions_pieces h.tail_lt (by omega)]

/-- A window has at most two pieces, of which the first ends with the buffer. -/
lemma pieces_two {size a m : ℕ} (ha : a ≤ size) : (∃ p, pieces size a m = [p]) ∨
    ∃ p l, pieces size a m = [p, (0, l)] ∧ p.1 + p.2 = size := by
  rw [pieces]
  split_ifs
  · exact .inr ⟨_, _, rfl, by simp only; omega⟩
  · exact .inl ⟨_, rfl⟩

/-- Unread and free positions are different. -/
lemma disjoint (h : r.Unread n) :
    (positions r.readVector).Disjoint (positions r.writeVector) := by
  rw [h.positions_read, h.positions_write]
  intro x hx hx'
  obtain ⟨i, hi, rfl⟩ := List.mem_map.1 hx
  obtain ⟨j, hj, he⟩ := List.mem_map.1 hx'
  rw [List.mem_range] at hi hj
  rw [h.tail, Nat.mod_add_mod] at he
  have hlt := h.lt
  exact mod_ne_of_lt (show r.head + i < r.head + n + j by omega) (by omega) he.symm

/-- The vectors of a ring with `n` unread bytes. -/
theorem describe (h : r.Unread n) : VectorsDescribe r n := by
  have hsize := h.size_le
  have hlt := h.lt
  refine ⟨h.positions_read, h.positions_write, fun v hv => ?_, fun x hx => ?_, h.disjoint,
    h.readSpace, ?_⟩
  · rcases List.mem_cons.1 hv with rfl | hv
    · rw [h.readVector]
      exact pieces_two h.head_lt.le
    · obtain rfl := List.mem_singleton.1 hv
      rw [h.writeVector]
      exact pieces_two h.tail_lt.le
  · rw [h.positions_read, h.positions_write] at hx
    rcases List.mem_append.1 hx with hx | hx
    · obtain ⟨i, -, rfl⟩ := List.mem_map.1 hx
      exact Nat.mod_lt _ (by omega)
    · obtain ⟨i, -, rfl⟩ := List.mem_map.1 hx
      exact Nat.mod_lt _ (by omega)
  · rw [h.readSpace, h.writeSpace]
    omega

/-- Positions behind the first `k`. -/
lemma drop_map_range {size a m : ℕ} : (((List.range m).map fun i => (a + i) % size).drop k) =
    (List.range (m - k)).map fun i => ((a + k) % size + i) % size := by
  refine List.ext_getElem (by simp) fun i hi hi' => ?_
  simp only [List.getElem_drop, List.getElem_map, List.getElem_range, Nat.mod_add_mod]
  rw [Nat.add_assoc]

/-- What is left of the read vector. -/
lemma readAdvance_vectors (h : r.Unread n) (hk : k ≤ n) :
    VectorsDescribe (r.readAdvance k) (n - k) ∧
      positions (r.readAdvance k).readVector = (positions r.readVector).drop k := by
  obtain ⟨hring, hhead⟩ := h.readAdvance hk
  refine ⟨hring.describe, ?_⟩
  rw [hring.positions_read, h.positions_read, drop_map_range, hhead]
  rfl

/-- What is left of the write vector. -/
lemma writeAdvance_vectors (h : r.Unread n) (hk : k ≤ r.size - 1 - n) :
    VectorsDescribe (r.writeAdvance k) (n + k) ∧
      positions (r.writeAdvance k).writeVector = (positions r.writeVector).drop k := by
  obtain ⟨hring, -, -⟩ := h.writeAdvance k r.mem hk fun _ _ => rfl
  have hr : { r with mem := r.mem } = r := rfl
  rw [hr] at hring
  have hsize : (r.writeAdvance k).size = r.size := rfl
  have hhead : (r.writeAdvance k).head = r.head := rfl
  refine ⟨hring.describe, ?_⟩
  rw [hring.positions_write, h.positions_write, drop_map_range, hring.tail, h.tail, hsize, hhead,
    Nat.mod_add_mod, Nat.add_assoc, Nat.sub_sub _ n k]

/-- A transfer moves as many bytes as were asked for. -/
lemma total_splitAt (h : r.Unread n) {a m second : ℕ} (ha : a < r.size) (hm : m < r.size) :
    total (r.splitAt a m second) = m := by
  have hsize := h.size_le
  rw [StreamRing.splitAt, wrap32_of_lt (by omega), h.and_mask]
  split_ifs with hsplit
  · rw [Nat.mod_eq_sub_mod hsplit.le, Nat.mod_eq_of_lt (by omega)]
    simp only [total, List.map_cons, List.map_nil, List.sum_cons, List.sum_nil]
    omega
  · simp [total]

end StreamRing.Unread

/-! ### The invariant -/

/-- `n` bytes are unread, behind the bytes that were delivered. What a `stream_read` across
the end of the buffer delivers is not what was accepted. -/
def Behind (s : StreamSys) (n : ℕ) : Prop :=
  ∃ pre, pre.length = s.out.length ∧ StreamInv { s with out := pre } n

namespace Behind

variable {s t : StreamSys} {n : ℕ} {op : StreamOp}

lemma ring (h : Behind s n) : s.ring.Unread n := by
  obtain ⟨pre, -, hinv⟩ := h
  exact hinv.ring

lemma unread (h : Behind s n) : s.unread = n := by
  obtain ⟨pre, hpre, hinv⟩ := h
  have hn := hinv.unread
  rw [StreamSys.unread] at hn ⊢
  rw [← hpre]
  exact hn

/-- `stream_read` advances over the bytes it delivers, also across the end of the buffer. -/
lemma read_step (h : Behind s n) {cnt : ℕ} (hs : s.step (.read cnt) = some t) :
    Behind t (n - min cnt n) := by
  simp only [StreamSys.step] at hs
  split_ifs at hs
  obtain ⟨pre, hpre, hinv⟩ := h
  have hring := hinv.ring
  have hhead := hring.head_lt
  have hlt := hring.lt
  change s.ring.head < s.ring.size at hhead
  change n < s.ring.size at hlt
  obtain ⟨bs, hbs, hread⟩ : ∃ bs, bs.length = min cnt n ∧
      s.ring.read cnt = (s.ring.readAdvance (min cnt n), bs) := by
    rw [StreamRing.read, hring.readSpace]
    split_ifs with hn
    · -- nothing is unread: advancing by no byte changes nothing
      subst hn
      refine ⟨[], by simp, ?_⟩
      have hmask : s.ring.head &&& s.ring.sizeMask = s.ring.head % s.ring.size :=
        hring.and_mask _
      rw [Nat.min_zero, StreamRing.readAdvance, Nat.add_zero,
        wrap32_of_lt (by have := hring.size_le; simp only at this; omega), hmask,
        Nat.mod_eq_of_lt hhead]
    · have htotal : StreamRing.total (s.ring.readPieces cnt) = min cnt n := by
        rw [StreamRing.readPieces, hring.toRead]
        exact hring.total_splitAt hhead (by simp only; omega)
      refine ⟨_, ?_, Prod.ext (congrArg s.ring.readAdvance htotal) rfl⟩
      rw [← htotal]
      generalize s.ring.readPieces cnt = ps
      induction ps with
      | nil => rfl
      | cons p ps ih =>
        simp only [loadPieces, List.length_append, length_loadBytes, StreamRing.total,
          List.map_cons, List.sum_cons] at ih ⊢
        omega
  rw [hread] at hs
  cases hs
  refine ⟨_, ?_, hinv.advance_head (Nat.min_le_right cnt n)⟩
  rw [List.length_append, List.length_append, length_window, hpre, hbs]

/-- Every other operation does the same whatever was delivered before. -/
lemma step_out {pre : List UInt8} (hpre : pre.length = s.out.length) (hs : s.step op = some t)
    (hop : ∀ cnt, op ≠ .read cnt) : ∃ d, t.out = s.out ++ d ∧
      StreamSys.step { s with out := pre } op = some { t with out := pre ++ d } := by
  cases op with
  | read cnt => exact absurd rfl (hop cnt)
  | write src =>
    refine ⟨[], ?_⟩
    simp only [StreamSys.step, List.append_nil] at hs ⊢
    split_ifs at hs ⊢
    cases hs
    exact ⟨rfl, rfl⟩
  | peek cnt =>
    refine ⟨[], ?_⟩
    simp only [StreamSys.step, List.append_nil] at hs ⊢
    split_ifs at hs ⊢
    cases hs
    exact ⟨rfl, rfl⟩
  | readAdvance cnt =>
    refine ⟨s.readable.take cnt, ?_⟩
    simp only [StreamSys.step] at hs ⊢
    split_ifs at hs ⊢
    cases hs
    exact ⟨rfl, rfl⟩
  | fill bs =>
    refine ⟨[], ?_⟩
    simp only [StreamSys.step, List.append_nil] at hs ⊢
    split_ifs at hs ⊢
    cases hs
    exact ⟨rfl, rfl⟩
  | writeAdvance cnt =>
    refine ⟨[], ?_⟩
    simp only [StreamSys.step, List.append_nil] at hs ⊢
    split_ifs at hs ⊢
    cases hs
    exact ⟨rfl, rfl⟩
  | flush =>
    refine ⟨[], ?_⟩
    simp only [StreamSys.step, List.append_nil, hpre] at hs ⊢
    cases hs
    exact ⟨rfl, rfl⟩

/-- Every operation that meets the condition. -/
theorem step (h : Behind s n) (hok : vectorFits s op = true) (hs : s.step op = some t) :
    ∃ n', Behind t n' := by
  by_cases hop : ∃ cnt, op = .read cnt
  · obtain ⟨cnt, rfl⟩ := hop
    exact ⟨_, h.read_step hs⟩
  · rw [not_exists] at hop
    obtain ⟨pre, hpre, hinv⟩ := h
    obtain ⟨d, hd, ht⟩ := step_out hpre hs hop
    have hfit : streamFits { s with out := pre } op = true := by
      cases op with
      | read cnt => exact absurd rfl (hop cnt)
      | _ => exact hok
    obtain ⟨n', hn'⟩ := hinv.step hfit ht
    exact ⟨n', pre ++ d, by rw [hd, List.length_append, List.length_append, hpre], hn'⟩

/-- The vectors of a state with `n` unread bytes. -/
theorem holds (h : Behind s n) : VectorsHold vectorFits s := by
  have hring := h.ring
  have hsize := hring.size_le
  refine ⟨?_, ?_, fun src hfit => ?_, fun k hk => ?_, fun k hk => ?_⟩
  · rw [h.unread]
    exact hring.describe
  · obtain ⟨pre, hpre, hinv⟩ := h
    have hkept := hinv.drop_kept
    rw [StreamSys.readable, hring.readVector, loadPieces_pieces hring.head_lt hring.lt.le, ← hpre]
    exact hkept.symm
  · have hfit' : s.ring.tail + s.ring.toWrite src.length ≤ s.ring.size := of_decide_eq_true hfit
    have htake : s.ring.toWrite src.length ≤ s.ring.size - 1 - n := by
      rw [hring.toWrite]
      exact Nat.min_le_right _ _
    rw [StreamRing.writePieces, hring.splitAt_fit hfit',
      positions_pieces hring.tail_lt (by omega), hring.positions_write, ← List.map_take,
      List.take_range, Nat.min_eq_left htake]
  · rw [hring.readSpace] at hk
    rw [h.unread]
    exact hring.readAdvance_vectors hk
  · rw [hring.writeSpace] at hk
    rw [h.unread]
    exact hring.writeAdvance_vectors hk

end Behind

/-! ### The result -/

/-- **Stream vectors.** In every state that operations within the condition reach, the
vectors describe the unread and the free bytes. -/
theorem stream_vectors {flags size : ℕ} {mem : Mem} {s : StreamSys}
    (hflags : flags &&& ringtypeMask = ringtypeStream) (h1 : 1 ≤ size)
    (h2 : size ≤ 2147483648) (hrun : StreamReach vectorFits flags size mem s) :
    VectorsHold vectorFits s := by
  have hinit : Behind (.init flags size mem) 0 := ⟨[], rfl, .init hflags h1 h2⟩
  have hbehind : ∃ n, Behind s n :=
    hrun.invariant (P := fun s => ∃ n, Behind s n) ⟨0, hinit⟩
      fun ⟨_, h⟩ hok hs => h.step hok hs
  obtain ⟨_, h⟩ := hbehind
  exact h.holds

/-- Unread bytes in two pieces. -/
def wrappedBytes : List StreamOp :=
  [.write (List.replicate 40 1), .read 30, .fill (List.replicate 40 2), .writeAdvance 40]

/-- The vector has two parts. -/
theorem stream_vectors_wrapped :
    ∃ s, run StreamSys.step vectorFits (.init 2 64 fun _ => 0) wrappedBytes = some s ∧
      s.ring.readVector = [(30, 34), (0, 16)] ∧ VectorsHold vectorFits s := by
  have hrun : (run StreamSys.step vectorFits (.init 2 64 fun _ => 0) wrappedBytes).map
      (fun s => s.ring.readVector) = some [(30, 34), (0, 16)] := by decide
  obtain ⟨s, hs, hvec, hr⟩ := run_map hrun
  exact ⟨s, hs, hvec,
    stream_vectors (by decide) (by decide) (by decide) hr⟩

/-- After a `stream_write` across the end of the buffer, over the tail index, one byte is in
the read vector instead of 40. -/
theorem stream_vectors_split :
    ∃ s, StreamReach (fun _ _ => true) 2 64 (fun _ => 0) s ∧
      ¬ VectorsHold (fun _ _ => true) s := by
  have hrun : (run StreamSys.step (fun _ _ => true) (.init 2 64 fun _ => 0)
      (writeAcrossEnd.take 3)).map (fun s => (s.ring.readSpace, s.unread)) = some (1, 40) := by
    decide
  obtain ⟨s, -, hspace, hr⟩ := run_map hrun
  obtain ⟨hread, hunread⟩ := Prod.mk.inj hspace
  refine ⟨s, hr, fun h => ?_⟩
  have hn := h.describe.readSpace
  rw [hread, hunread] at hn
  cases hn

end MachinekitHal
