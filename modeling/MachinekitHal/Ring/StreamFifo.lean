import MachinekitHal.Lib.Runs
import MachinekitHal.Ring.Stream

/-!
Stream rings as queues of bytes.

* `StreamRing.Unread`: `n` bytes are unread; then `readSpace` is `n`, `writeSpace` is
  `size - 1 - n`, and the vectors and `stream_peek` move the pieces of a window of the
  circular buffer.
* `streamFits`: the condition on an operation: `stream_read` and `stream_write` do not
  cross the end of the buffer, and the advances stay within what is available.
* `stream_fifo`: under it what is read is a prefix of what was accepted, and no
  operation leaves the buffer; `stream_fifo_split`: a transfer across the end of the
  buffer goes on behind it, over the tail index.
-/

namespace MachinekitHal

open Bytes Word Circular Runs

/-! ### The property -/

/-- The number of bytes accepted and not read. -/
def StreamSys.unread (s : StreamSys) : ℕ := s.kept.length - s.out.length

/-- The operations `ok` make the ring a queue of bytes. -/
structure StreamHolds (ok : StreamSys → StreamOp → Bool) (s : StreamSys) : Prop where
  /-- what was read is a prefix of what was accepted and not dropped -/
  out : s.out <+: s.kept
  /-- `stream_write` accepts what there is room for -/
  accepts : ∀ src t, ok s (.write src) = true → s.step (.write src) = some t →
    t.count = min src.length (s.ring.size - 1 - s.unread)
  /-- `stream_read` and `stream_peek` give the first bytes that are unread -/
  reads : ∀ cnt t, ok s (.read cnt) = true → s.step (.read cnt) = some t →
    t.got = (s.kept.drop s.out.length).take cnt ∧ t.count = t.got.length
  peeks : ∀ cnt t, ok s (.peek cnt) = true → s.step (.peek cnt) = some t →
    t.got = (s.kept.drop s.out.length).take cnt ∧ t.count = t.got.length
  /-- no operation loads from or stores to a byte outside the buffer -/
  inside : ∀ op t p, ok s op = true → s.step op = some t → p ∈ s.touches op →
    p.1 + p.2 ≤ s.ring.size
  /-- behind the buffer only the tail index changes, and only when bytes are accepted -/
  trailer : ∀ op t x, ok s op = true → s.step op = some t → s.ring.size ≤ x →
    t.ring.mem x ≠ s.ring.mem x →
      x < s.ring.size + 4 ∧ ((∃ src, op = .write src) ∨ ∃ cnt, op = .writeAdvance cnt)

/-- The transfer does not cross the end of the buffer, or the bytes are there to advance
over. -/
def streamFits (s : StreamSys) : StreamOp → Bool
  | .write src => s.ring.tail + s.ring.toWrite src.length ≤ s.ring.size
  | .read cnt => s.ring.head + s.ring.toRead cnt ≤ s.ring.size
  | .readAdvance cnt => cnt ≤ s.ring.readSpace
  | .writeAdvance cnt => cnt ≤ s.ring.writeSpace
  | _ => true

/-! ### The ring with `n` unread bytes -/

namespace StreamRing

/-- `n` bytes are unread. -/
structure Unread (r : StreamRing) (n : ℕ) : Prop where
  pow : ∃ k, 6 ≤ k ∧ k ≤ 31 ∧ r.size = 2 ^ k
  mask : r.sizeMask = r.size - 1
  head_lt : r.head < r.size
  lt : n < r.size
  tail : r.tail = (r.head + n) % r.size

namespace Unread

variable {r : StreamRing} {n : ℕ}

lemma size_le (h : r.Unread n) : 64 ≤ r.size ∧ r.size ≤ 2147483648 := by
  obtain ⟨k, hlo, hhi, hpow⟩ := h.pow
  rw [hpow]
  have h1 : (2 : ℕ) ^ 6 ≤ 2 ^ k := Nat.pow_le_pow_right (by norm_num) hlo
  have h2 : (2 : ℕ) ^ k ≤ 2 ^ 31 := Nat.pow_le_pow_right (by norm_num) hhi
  omega

/-- The mask computes the remainder. -/
lemma and_mask (h : r.Unread n) (x : ℕ) : x &&& r.sizeMask = x % r.size := by
  obtain ⟨k, _, _, hpow⟩ := h.pow
  rw [h.mask, hpow, Nat.and_two_pow_sub_one_eq_mod]

/-- The trailer follows the buffer at once. -/
lemma trailer (h : r.Unread n) : r.trailer = r.size := by
  obtain ⟨k, hlo, _, hpow⟩ := h.pow
  have hle := h.size_le
  obtain ⟨j, rfl⟩ := Nat.exists_eq_add_of_le hlo
  have h64 : r.size = 64 * 2 ^ j := by rw [hpow, pow_add]; norm_num
  rw [StreamRing.trailer, cacheAlign, rtapiCacheline, alignUp_sixtyFour (by omega),
    if_pos (by omega)]
  omega

/-- The tail, without the remainder. -/
lemma tail_eq (h : r.Unread n) :
    r.head + n < r.size ∧ r.tail = r.head + n ∨
      r.size ≤ r.head + n ∧ r.tail + r.size = r.head + n := by
  have h1 := h.head_lt
  have h2 := h.lt
  rcases Nat.lt_or_ge (r.head + n) r.size with hlt | hge
  · exact Or.inl ⟨hlt, by rw [h.tail, Nat.mod_eq_of_lt hlt]⟩
  · refine Or.inr ⟨hge, ?_⟩
    rw [h.tail, Nat.mod_eq_sub_mod hge, Nat.mod_eq_of_lt (by omega)]
    omega

lemma tail_lt (h : r.Unread n) : r.tail < r.size := by
  rw [h.tail]
  exact Nat.mod_lt _ (by have := h.head_lt; omega)

lemma readSpace (h : r.Unread n) : r.readSpace = n := by
  have hsize := h.size_le
  have hhead := h.head_lt
  have hlt := h.lt
  rw [StreamRing.readSpace, h.and_mask]
  rcases h.tail_eq with ⟨h1, h2⟩ | ⟨h1, h2⟩
  · by_cases hn : n = 0
    · have hwrap : wrap32 (sub32 r.tail r.head + r.size) = r.size := by
        rw [sub32, wrap32]
        omega
      rw [if_neg (by omega), hwrap, Nat.mod_self, hn]
    · rw [if_pos (by omega)]
      omega
  · have hwrap : wrap32 (sub32 r.tail r.head + r.size) = n := by
      rw [sub32, wrap32]
      omega
    rw [if_neg (by omega), hwrap, Nat.mod_eq_of_lt hlt]

lemma writeSpace (h : r.Unread n) : r.writeSpace = r.size - 1 - n := by
  have hsize := h.size_le
  have hhead := h.head_lt
  have hlt := h.lt
  rw [StreamRing.writeSpace, h.and_mask]
  rcases h.tail_eq with ⟨h1, h2⟩ | ⟨h1, h2⟩
  · by_cases hn : n = 0
    · rw [if_neg (by omega), if_neg (by omega), sub32]
      omega
    · have hwrap : wrap32 (sub32 r.head r.tail + r.size) = r.size - n := by
        rw [sub32, wrap32]
        omega
      rw [if_pos (by omega), hwrap, Nat.mod_eq_of_lt (by omega), sub32]
      omega
  · rw [if_neg (by omega), if_pos (by omega)]
    omega

/-- A transfer whose second piece starts at the start of the buffer. -/
lemma splitAt_zero (h : r.Unread n) {a m : ℕ} (ha : a < r.size) (hm : m < r.size) :
    r.splitAt a m 0 = pieces r.size a m := by
  have hsize := h.size_le
  rw [StreamRing.splitAt, pieces, wrap32_of_lt (by omega), h.and_mask]
  split_ifs with hsplit
  · rw [Nat.mod_eq_sub_mod hsplit.le, Nat.mod_eq_of_lt (by omega)]
  · rfl

/-- A transfer that does not cross the end of the buffer. -/
lemma splitAt_fit (h : r.Unread n) {a m second : ℕ} (hfit : a + m ≤ r.size) :
    r.splitAt a m second = pieces r.size a m := by
  have hsize := h.size_le
  rw [StreamRing.splitAt, pieces, wrap32_of_lt (by omega), if_neg (by omega),
    if_neg (by omega)]

lemma readVector (h : r.Unread n) : r.readVector = pieces r.size r.head n := by
  rw [StreamRing.readVector, h.readSpace, h.splitAt_zero h.head_lt h.lt]

lemma writeVector (h : r.Unread n) :
    r.writeVector = pieces r.size r.tail (r.size - 1 - n) := by
  have hsize := h.size_le
  rw [StreamRing.writeVector, h.writeSpace, h.splitAt_zero h.tail_lt (by omega)]

lemma toRead (h : r.Unread n) (cnt : ℕ) : r.toRead cnt = min cnt n := by
  rw [StreamRing.toRead, h.readSpace]
  split_ifs <;> omega

lemma toWrite (h : r.Unread n) (cnt : ℕ) : r.toWrite cnt = min cnt (r.size - 1 - n) := by
  rw [StreamRing.toWrite, h.writeSpace]
  split_ifs <;> omega

/-- `stream_peek` wraps its head. -/
lemma peekPieces (h : r.Unread n) (cnt : ℕ) :
    r.peekPieces cnt = pieces r.size r.head (min cnt n) := by
  have hhead := h.head_lt
  have hlt := h.lt
  rw [StreamRing.peekPieces, h.toRead, h.and_mask, Nat.add_sub_cancel' hhead.le, Nat.mod_self,
    h.splitAt_zero hhead (by omega)]

end Unread

@[simp] lemma total_pieces (size a n : ℕ) (ha : a ≤ size) : total (pieces size a n) = n := by
  rw [pieces]
  split_ifs
  · simp only [total, List.map_cons, List.map_nil, List.sum_cons, List.sum_nil]
    omega
  · simp [total]

namespace Unread

variable {r : StreamRing} {n : ℕ}

/-- `stream_read_advance` over unread bytes. -/
lemma readAdvance (h : r.Unread n) {cnt : ℕ} (hcnt : cnt ≤ n) :
    (r.readAdvance cnt).Unread (n - cnt) ∧ (r.readAdvance cnt).head = (r.head + cnt) % r.size := by
  have hsize := h.size_le
  have hhead := h.head_lt
  have hlt := h.lt
  have hnew : wrap32 (r.head + cnt) &&& r.sizeMask = (r.head + cnt) % r.size := by
    rw [wrap32_of_lt (by omega), h.and_mask]
  refine ⟨⟨h.pow, h.mask, ?_, by simp only [StreamRing.readAdvance]; omega, ?_⟩, hnew⟩
  · simp only [StreamRing.readAdvance, hnew]
    exact Nat.mod_lt _ (by omega)
  · show r.tail = ((wrap32 (r.head + cnt) &&& r.sizeMask) + (n - cnt)) % r.size
    rw [hnew, Nat.mod_add_mod, h.tail, show r.head + cnt + (n - cnt) = r.head + n by omega]

/-- The store of the tail index behind `cnt` more bytes, with other bytes in the buffer. -/
lemma writeAdvance (h : r.Unread n) (cnt : ℕ) (mem : Mem) (hcnt : cnt ≤ r.size - 1 - n)
    (hmem : ∀ x, r.size ≤ x → mem x = r.mem x) :
    (StreamRing.writeAdvance { r with mem := mem } cnt).Unread (n + cnt) ∧
      (∀ x, x < r.size → (StreamRing.writeAdvance { r with mem := mem } cnt).mem x = mem x) ∧
      ∀ x, r.size + 4 ≤ x →
        (StreamRing.writeAdvance { r with mem := mem } cnt).mem x = r.mem x := by
  have hsize := h.size_le
  have hhead := h.head_lt
  have hlt := h.lt
  have htrailer := h.trailer
  have htail_lt := h.tail_lt
  set r' : StreamRing := { r with mem := mem }
  have htrailer' : r'.trailer = r.size := htrailer
  have htail : r'.tail = r.tail := by
    rw [StreamRing.tail, StreamRing.tail, htrailer', htrailer]
    exact load32_congr fun x h1 _ => hmem x h1
  have hnew : wrap32 (r'.tail + cnt) &&& r'.sizeMask = (r.tail + cnt) % r.size := by
    rw [htail, wrap32_of_lt (by omega)]
    exact h.and_mask _
  have hmod_lt : (r.tail + cnt) % r.size < r.size := Nat.mod_lt _ (by omega)
  have hstore : (r'.writeAdvance cnt).mem
      = store32 mem r.size ((r.tail + cnt) % r.size) := by
    rw [StreamRing.writeAdvance, hnew, setTail, htrailer']
  refine ⟨⟨h.pow, h.mask, hhead, by show n + cnt < r.size; omega, ?_⟩, fun x hx => ?_,
    fun x hx => ?_⟩
  · have hword : (r'.writeAdvance cnt).tail = (r.tail + cnt) % r.size := by
      rw [StreamRing.tail, show (r'.writeAdvance cnt).trailer = r.size from htrailer, hstore,
        load32_store32 (by omega)]
    show (r'.writeAdvance cnt).tail = (r.head + (n + cnt)) % r.size
    rw [hword, h.tail, Nat.mod_add_mod, Nat.add_assoc]
  · rw [hstore, store32_apply_of_outside (by omega)]
  · rw [hstore, store32_apply_of_outside (by omega), hmem x (by omega)]

end Unread

end StreamRing

/-! ### The invariant -/

/-- `n` bytes are unread, and what was accepted is what was read and these bytes. -/
structure StreamInv (s : StreamSys) (n : ℕ) : Prop where
  ring : s.ring.Unread n
  kept : s.kept = s.out ++ window s.ring.mem s.ring.size s.ring.head n

namespace StreamInv

variable {s t : StreamSys} {n : ℕ}

lemma unread (h : StreamInv s n) : s.unread = n := by
  rw [StreamSys.unread, h.kept, List.length_append, length_window, Nat.add_sub_cancel_left]

/-- The unread bytes, in the history and in the buffer. -/
lemma drop_kept (h : StreamInv s n) :
    s.kept.drop s.out.length = window s.ring.mem s.ring.size s.ring.head n := by
  rw [h.kept, List.drop_left]

/-- Reading `cnt` unread bytes. -/
lemma advance_head (h : StreamInv s n) {cnt c : ℕ} {g : List UInt8} (hcnt : cnt ≤ n) :
    StreamInv { s with
      ring := s.ring.readAdvance cnt
      out := s.out ++ window s.ring.mem s.ring.size s.ring.head cnt, got := g, count := c }
      (n - cnt) := by
  obtain ⟨hring, hhead⟩ := h.ring.readAdvance hcnt
  refine ⟨hring, ?_⟩
  show s.kept = s.out ++ window s.ring.mem s.ring.size s.ring.head cnt
    ++ window s.ring.mem s.ring.size (s.ring.readAdvance cnt).head (n - cnt)
  rw [hhead, window_mod, List.append_assoc, ← window_append, Nat.add_sub_cancel' hcnt, h.kept]

/-- Accepting the `cnt` bytes that stand behind the unread ones. -/
lemma advance_tail (h : StreamInv s n) (cnt : ℕ) {c : ℕ} {mem : Mem}
    (hcnt : cnt ≤ s.ring.size - 1 - n) (hmem : ∀ x, s.ring.size ≤ x → mem x = s.ring.mem x)
    (hold : window mem s.ring.size s.ring.head n
      = window s.ring.mem s.ring.size s.ring.head n) :
    StreamInv { s with
      ring := StreamRing.writeAdvance { s.ring with mem := mem } cnt
      kept := s.kept ++ window mem s.ring.size s.ring.tail cnt, count := c } (n + cnt) := by
  obtain ⟨hring, hin, _⟩ := h.ring.writeAdvance cnt mem hcnt hmem
  have hpos : 0 < s.ring.size := by have := h.ring.head_lt; omega
  refine ⟨hring, ?_⟩
  show s.kept ++ window mem s.ring.size s.ring.tail cnt = s.out ++
    window (StreamRing.writeAdvance { s.ring with mem := mem } cnt).mem s.ring.size s.ring.head
      (n + cnt)
  rw [window_congr fun i _ => hin _ (Nat.mod_lt _ hpos), window_append, hold, h.kept,
    List.append_assoc, h.ring.tail, window_mod]

/-- Stores to the free bytes. -/
lemma store_free (h : StreamInv s n) (m : ℕ) (bs : List UInt8) (hm : m ≤ s.ring.size)
    (hbs : bs.length ≤ m) (hfit : n + bs.length ≤ s.ring.size) :
    (∀ x, s.ring.size ≤ x →
      storePieces s.ring.mem (pieces s.ring.size s.ring.tail m) bs x = s.ring.mem x) ∧
    window (storePieces s.ring.mem (pieces s.ring.size s.ring.tail m) bs) s.ring.size
      s.ring.head n = window s.ring.mem s.ring.size s.ring.head n := by
  have htail := h.ring.tail_lt
  refine ⟨fun x hx => ?_, ?_⟩
  · refine storePieces_apply_of_ne htail hm hbs fun j _ hj => ?_
    have := Nat.mod_lt (s.ring.tail + j) (show 0 < s.ring.size by omega)
    omega
  · rw [h.ring.tail] at htail ⊢
    exact window_storePieces_behind htail hm hbs hfit

/-! ### The operations -/

lemma read_step (h : StreamInv s n) {cnt : ℕ} (hfit : streamFits s (.read cnt) = true)
    (hs : s.step (.read cnt) = some t) : StreamInv t (n - min cnt n) ∧
      t.got = window s.ring.mem s.ring.size s.ring.head (min cnt n) ∧ t.count = min cnt n ∧
      t.ring.mem = s.ring.mem := by
  simp only [StreamSys.step] at hs
  split_ifs at hs with hcnt
  have hhead := h.ring.head_lt
  have hlt := h.ring.lt
  have hfit : s.ring.head + min cnt n ≤ s.ring.size := by
    simpa [streamFits, h.ring.toRead] using hfit
  have hread : s.ring.read cnt = (s.ring.readAdvance (min cnt n),
      window s.ring.mem s.ring.size s.ring.head (min cnt n)) := by
    rw [StreamRing.read, h.ring.readSpace]
    split_ifs with hn
    · -- nothing is unread: advancing by no byte changes nothing
      subst hn
      rw [Nat.min_zero, window_zero, StreamRing.readAdvance, Nat.add_zero, h.ring.and_mask,
        wrap32_of_lt (by have := h.ring.size_le; omega), Nat.mod_eq_of_lt hhead]
    · simp only [StreamRing.readPieces, h.ring.toRead, h.ring.splitAt_fit hfit,
        StreamRing.total_pieces _ _ _ hhead.le]
      rw [loadPieces_pieces hhead (by omega)]
  have hinv := h.advance_head (c := min cnt n)
    (g := window s.ring.mem s.ring.size s.ring.head (min cnt n)) (Nat.min_le_right cnt n)
  rw [hread, h.ring.toRead] at hs
  cases hs
  exact ⟨hinv, rfl, rfl, rfl⟩

lemma peek_step (h : StreamInv s n) {cnt : ℕ} (hs : s.step (.peek cnt) = some t) :
    StreamInv t n ∧ t.got = window s.ring.mem s.ring.size s.ring.head (min cnt n) ∧
      t.count = min cnt n ∧ t.ring.mem = s.ring.mem := by
  simp only [StreamSys.step] at hs
  split_ifs at hs with hcnt
  have hhead := h.ring.head_lt
  have hlt := h.ring.lt
  have hpeek : s.ring.peek cnt = window s.ring.mem s.ring.size s.ring.head (min cnt n) := by
    rw [StreamRing.peek, h.ring.readSpace]
    split_ifs with hn
    · rw [hn, Nat.min_zero, window_zero]
    · rw [h.ring.peekPieces, loadPieces_pieces hhead (by omega)]
  rw [hpeek, h.ring.toRead] at hs
  cases hs
  exact ⟨⟨h.ring, h.kept⟩, rfl, rfl, rfl⟩

lemma write_step (h : StreamInv s n) {src : List UInt8}
    (hfit : streamFits s (.write src) = true) (hs : s.step (.write src) = some t) :
    StreamInv t (n + min src.length (s.ring.size - 1 - n)) ∧
      t.count = min src.length (s.ring.size - 1 - n) ∧
      ∀ x, s.ring.size + 4 ≤ x → t.ring.mem x = s.ring.mem x := by
  simp only [StreamSys.step] at hs
  split_ifs at hs with hlen
  have hsize := h.ring.size_le
  have hlt := h.ring.lt
  have htail := h.ring.tail_lt
  set m := min src.length (s.ring.size - 1 - n) with hm
  have hfit : s.ring.tail + m ≤ s.ring.size := by
    simpa [streamFits, h.ring.toWrite] using hfit
  have hmem := h.store_free m (src.take m) (by omega) (by simp) (by simp; omega)
  have hpieces : pieces s.ring.size s.ring.tail m = [(s.ring.tail, m)] := by
    rw [pieces, if_neg (by omega)]
  have hstore : storePieces s.ring.mem (pieces s.ring.size s.ring.tail m) src
      = storePieces s.ring.mem (pieces s.ring.size s.ring.tail m) (src.take m) := by
    simp only [hpieces, storePieces, List.take_take, Nat.min_self]
  by_cases hspace : s.ring.writeSpace = 0
  · -- the ring is full
    have hm0 : m = 0 := by
      rw [h.ring.writeSpace] at hspace
      omega
    rw [StreamRing.write, if_pos hspace] at hs
    cases hs
    rw [hm0]
    exact ⟨⟨h.ring, by simp [h.kept]⟩, rfl, fun _ _ => rfl⟩
  · have hwrite : s.ring.write src = (StreamRing.writeAdvance { s.ring with
        mem := storePieces s.ring.mem (pieces s.ring.size s.ring.tail m) (src.take m) } m, m) := by
      simp only [StreamRing.write, if_neg hspace, StreamRing.writePieces, h.ring.toWrite, ← hm,
        h.ring.splitAt_fit hfit, StreamRing.total_pieces _ _ _ htail.le, hstore]
    have hnew : window (storePieces s.ring.mem (pieces s.ring.size s.ring.tail m) (src.take m))
        s.ring.size s.ring.tail m = src.take m := by
      have hw : window (storePieces s.ring.mem (pieces s.ring.size s.ring.tail m) (src.take m))
          s.ring.size s.ring.tail (src.take m).length = src.take m :=
        window_storePieces htail (by omega) (by simp)
      rwa [List.length_take, Nat.min_eq_left (by omega)] at hw
    rw [hwrite] at hs
    have hinv := h.advance_tail m (c := m) (by omega) hmem.1 hmem.2
    rw [hnew] at hinv
    have hout := (h.ring.writeAdvance m _ (by omega) hmem.1).2.2
    cases hs
    exact ⟨hinv, rfl, hout⟩

/-- `stream_read_advance` over bytes that are there. -/
lemma readAdvance_step (h : StreamInv s n) {cnt : ℕ}
    (hfit : streamFits s (.readAdvance cnt) = true)
    (hs : s.step (.readAdvance cnt) = some t) :
    StreamInv t (n - cnt) ∧ t.ring.mem = s.ring.mem := by
  simp only [StreamSys.step] at hs
  split_ifs at hs with hcnt
  have hlt := h.ring.lt
  have hle : cnt ≤ n := by simpa [streamFits, h.ring.readSpace] using hfit
  have hread : s.readable.take cnt
      = window s.ring.mem s.ring.size s.ring.head cnt := by
    rw [StreamSys.readable, h.ring.readVector, loadPieces_pieces h.ring.head_lt hlt.le,
      window_take,
      Nat.min_eq_left hle]
  rw [hread] at hs
  have hinv := h.advance_head (g := s.got) (c := s.count) hle
  cases hs
  exact ⟨hinv, rfl⟩

/-- Stores to the bytes of the write vector. -/
lemma fill_step (h : StreamInv s n) {bs : List UInt8} (hs : s.step (.fill bs) = some t) :
    StreamInv t n ∧ ∀ x, s.ring.size ≤ x → t.ring.mem x = s.ring.mem x := by
  simp only [StreamSys.step] at hs
  split_ifs at hs with hlen
  have hlt := h.ring.lt
  have htail := h.ring.tail_lt
  rw [h.ring.writeVector] at hs hlen
  rw [StreamRing.total_pieces _ _ _ htail.le] at hlen
  obtain ⟨hout, hold⟩ := h.store_free (s.ring.size - 1 - n) _ (by omega) hlen (by omega)
  cases hs
  refine ⟨⟨⟨h.ring.pow, h.ring.mask, h.ring.head_lt, hlt, ?_⟩, by rw [h.kept]; simp only [hold]⟩,
    hout⟩
  rw [← h.ring.tail]
  have htrailer := h.ring.trailer
  exact load32_congr fun x h1 _ => hout x (by
    have : s.ring.trailer ≤ x := h1
    omega)

/-- `stream_write_advance` over bytes of the write vector. -/
lemma writeAdvance_step (h : StreamInv s n) {cnt : ℕ}
    (hfit : streamFits s (.writeAdvance cnt) = true)
    (hs : s.step (.writeAdvance cnt) = some t) :
    StreamInv t (n + cnt) ∧ ∀ x, s.ring.size + 4 ≤ x → t.ring.mem x = s.ring.mem x := by
  simp only [StreamSys.step] at hs
  split_ifs at hs with hcnt
  have hlt := h.ring.lt
  have hle : cnt ≤ s.ring.size - 1 - n := by
    simpa [streamFits, h.ring.writeSpace] using hfit
  have hwritable : s.writable.take cnt
      = window s.ring.mem s.ring.size s.ring.tail cnt := by
    rw [StreamSys.writable, h.ring.writeVector, loadPieces_pieces h.ring.tail_lt (by omega),
      window_take,
      Nat.min_eq_left hle]
  rw [hwritable] at hs
  have hinv := h.advance_tail cnt (c := s.count) hle (fun _ _ => rfl) rfl
  have hout := (h.ring.writeAdvance cnt s.ring.mem hle fun _ _ => rfl).2.2
  cases hs
  exact ⟨hinv, hout⟩

lemma flush_step (h : StreamInv s n) (hs : s.step .flush = some t) :
    StreamInv t 0 ∧ t.ring.mem = s.ring.mem := by
  simp only [StreamSys.step] at hs
  have hkept : s.kept.take s.out.length = s.out := by rw [h.kept, List.take_left]
  rw [hkept, h.ring.readSpace] at hs
  obtain ⟨hring, _⟩ := h.ring.readAdvance le_rfl
  have hflush : s.ring.flush.Unread 0 ∧ s.ring.flush.mem = s.ring.mem := by
    rw [StreamRing.flush, h.ring.readSpace]
    split_ifs with hn
    · exact ⟨by simpa using hring, rfl⟩
    · obtain rfl : n = 0 := by omega
      exact ⟨h.ring, rfl⟩
  cases hs
  exact ⟨⟨hflush.1, by simp⟩, hflush.2⟩

/-- Every operation that meets the condition keeps the invariant. -/
theorem step (h : StreamInv s n) {op : StreamOp} (hfit : streamFits s op = true)
    (hs : s.step op = some t) : ∃ n', StreamInv t n' := by
  cases op with
  | write src => exact ⟨_, (h.write_step hfit hs).1⟩
  | read cnt => exact ⟨_, (h.read_step hfit hs).1⟩
  | peek cnt => exact ⟨_, (h.peek_step hs).1⟩
  | readAdvance cnt => exact ⟨_, (h.readAdvance_step hfit hs).1⟩
  | fill bs => exact ⟨_, (h.fill_step hs).1⟩
  | writeAdvance cnt => exact ⟨_, (h.writeAdvance_step hfit hs).1⟩
  | flush => exact ⟨_, (h.flush_step hs).1⟩

/-- What an operation touches lies in the buffer. -/
lemma touches_inside (h : StreamInv s n) {op : StreamOp} (hfit : streamFits s op = true)
    {p : ℕ × ℕ} (hp : p ∈ s.touches op) : p.1 + p.2 ≤ s.ring.size := by
  have hhead := h.ring.head_lt
  have htail := h.ring.tail_lt
  have hlt := h.ring.lt
  cases op with
  | write src =>
    simp only [streamFits, decide_eq_true_eq] at hfit
    simp only [StreamSys.touches] at hp
    split_ifs at hp with hspace
    · cases hp
    · rw [StreamRing.writePieces, h.ring.splitAt_fit hfit] at hp
      exact pieces_inside htail (by omega) p hp
  | read cnt =>
    simp only [streamFits, decide_eq_true_eq] at hfit
    simp only [StreamSys.touches] at hp
    split_ifs at hp with hspace
    · cases hp
    · rw [StreamRing.readPieces, h.ring.splitAt_fit hfit] at hp
      exact pieces_inside hhead (by omega) p hp
  | peek cnt =>
    simp only [StreamSys.touches] at hp
    split_ifs at hp with hspace
    · cases hp
    · rw [h.ring.peekPieces] at hp
      exact pieces_inside hhead (by omega) p hp
  | readAdvance cnt =>
    rw [StreamSys.touches, h.ring.readVector] at hp
    exact pieces_inside hhead hlt.le p hp
  | fill bs =>
    rw [StreamSys.touches, h.ring.writeVector] at hp
    exact pieces_inside htail (by omega) p hp
  | writeAdvance cnt =>
    rw [StreamSys.touches, h.ring.writeVector] at hp
    exact pieces_inside htail (by omega) p hp
  | flush => cases hp

/-- Behind the buffer an operation changes nothing but the tail index. -/
lemma trailer_kept (h : StreamInv s n) {op : StreamOp} (hfit : streamFits s op = true)
    (hs : s.step op = some t) {x : ℕ} (hx : s.ring.size ≤ x)
    (hne : t.ring.mem x ≠ s.ring.mem x) :
    x < s.ring.size + 4 ∧ ((∃ src, op = .write src) ∨ ∃ cnt, op = .writeAdvance cnt) := by
  cases op with
  | write src =>
    refine ⟨?_, Or.inl ⟨src, rfl⟩⟩
    by_contra hfar
    exact hne ((h.write_step hfit hs).2.2 x (by omega))
  | writeAdvance cnt =>
    refine ⟨?_, Or.inr ⟨cnt, rfl⟩⟩
    by_contra hfar
    exact hne ((h.writeAdvance_step hfit hs).2 x (by omega))
  | read cnt => exact absurd (congrFun (h.read_step hfit hs).2.2.2 x) hne
  | peek cnt => exact absurd (congrFun (h.peek_step hs).2.2.2 x) hne
  | readAdvance cnt => exact absurd (congrFun (h.readAdvance_step hfit hs).2 x) hne
  | fill bs => exact absurd ((h.fill_step hs).2 x hx) hne
  | flush => exact absurd (congrFun (h.flush_step hs).2 x) hne

/-- The invariant says all of it. -/
theorem holds (h : StreamInv s n) : StreamHolds streamFits s where
  out := by
    rw [h.kept]
    exact List.prefix_append _ _
  accepts := by
    intro src t hfit hs
    rw [h.unread]
    exact (h.write_step hfit hs).2.1
  reads := by
    intro cnt t hfit hs
    obtain ⟨_, hgot, hcount, _⟩ := h.read_step hfit hs
    rw [h.drop_kept, window_take, hcount, hgot, length_window]
    exact ⟨rfl, rfl⟩
  peeks := by
    intro cnt t hfit hs
    obtain ⟨_, hgot, hcount, _⟩ := h.peek_step hs
    rw [h.drop_kept, window_take, hcount, hgot, length_window]
    exact ⟨rfl, rfl⟩
  inside := fun _ _ _ hfit _ hp => h.touches_inside hfit hp
  trailer := fun _ _ _ hfit hs hx hne => h.trailer_kept hfit hs hx hne

end StreamInv

/-- The runs on a stream ring just set up with the requested size `size`. -/
abbrev StreamReach (ok : StreamSys → StreamOp → Bool) (flags size : ℕ) (mem : Mem) :
    StreamSys → Prop :=
  Reach StreamSys.step (fun s op => ok s op = true) (.init flags size mem)

/-- A stream ring of requested size `1` to `2^31` is empty when it is set up. -/
lemma StreamInv.init {flags size : ℕ} {mem : Mem}
    (hflags : flags &&& ringtypeMask = ringtypeStream) (h1 : 1 ≤ size)
    (h2 : size ≤ 2147483648) : StreamInv (.init flags size mem) 0 := by
  obtain ⟨k, hlo, hhi, hpow, _⟩ := ringStorageAlloc_stream hflags h1 h2
  have hbig : (2 : ℕ) ^ 6 ≤ 2 ^ k := Nat.pow_le_pow_right (by norm_num) hlo
  have hsmall : (2 : ℕ) ^ k ≤ 2 ^ 31 := Nat.pow_le_pow_right (by norm_num) hhi
  refine ⟨⟨⟨k, hlo, hhi, hpow⟩, ?_, ?_, ?_, ?_⟩, rfl⟩
  · show sub32 (ringStorageAlloc flags size) 1 = ringStorageAlloc flags size - 1
    rw [hpow, sub32]
    omega
  · show 0 < ringStorageAlloc flags size
    omega
  · show 0 < ringStorageAlloc flags size
    omega
  · show load32 (store32 mem _ 0) _ = (0 + 0) % _
    rw [Nat.zero_mod]
    exact load32_store32 (by omega)

/-- A stream ring is a queue of bytes in every run whose operations meet the condition. -/
theorem stream_fifo {flags size : ℕ} {mem : Mem} {s : StreamSys}
    (hflags : flags &&& ringtypeMask = ringtypeStream) (h1 : 1 ≤ size)
    (h2 : size ≤ 2147483648) (hrun : StreamReach streamFits flags size mem s) :
    StreamHolds streamFits s := by
  have hinv : ∃ n, StreamInv s n :=
    hrun.invariant (P := fun s => ∃ n, StreamInv s n) ⟨0, .init hflags h1 h2⟩
      fun ⟨_, h⟩ hok hs => h.step hok hs
  obtain ⟨_, h⟩ := hinv
  exact h.holds

/-- Bytes are written, peeked at and read; more are written behind the vector's back. -/
def writeAndRead : List StreamOp :=
  [.write [1, 2, 3], .peek 2, .read 2, .fill [4, 5], .writeAdvance 2, .readAdvance 1, .read 9]

/-- The bytes come out in order. -/
theorem stream_fifo_writeAndRead :
    ∃ s, run StreamSys.step streamFits (.init 2 100 fun _ => 0) writeAndRead = some s ∧
      s.out = [1, 2, 3, 4, 5] ∧ StreamHolds streamFits s := by
  have hrun : (run StreamSys.step streamFits (.init 2 100 fun _ => 0) writeAndRead).map
      StreamSys.out = some [1, 2, 3, 4, 5] := by decide +kernel
  obtain ⟨s, hs, hout, hreach⟩ := run_map hrun
  exact ⟨s, hs, hout, stream_fifo (by decide) (by decide) (by decide) hreach⟩

/-- In a buffer of 64 bytes 40 bytes are written and read. The next 40 go on behind the end
of the buffer, over the tail index; then 10 more are written and some read. -/
def writeAcrossEnd : List StreamOp :=
  [.write (List.replicate 40 1), .read 40, .write (List.replicate 40 1),
    .write (List.replicate 10 2), .read 11]

/-- The tail index is overwritten. -/
theorem stream_fifo_split :
    ∃ s, StreamReach (fun _ _ => true) 2 64 (fun _ => 0) s ∧
      ¬ StreamHolds (fun _ _ => true) s := by
  have hrun : (run StreamSys.step (fun _ _ => true) (.init 2 64 fun _ => 0)
      writeAcrossEnd).map (fun s => (s.out[41]?, s.kept[41]?)) = some (some 2, some 1) := by
    decide +kernel
  obtain ⟨s, -, hbytes, hreach⟩ := run_map hrun
  obtain ⟨hout, hkept⟩ := Prod.mk.inj hbytes
  refine ⟨s, hreach, fun h => ?_⟩
  obtain ⟨rest, hrest⟩ := h.out
  rw [← hrest, List.getElem?_append_left (List.getElem?_eq_some_iff.mp hout).1, hout] at hkept
  cases hkept

end MachinekitHal
