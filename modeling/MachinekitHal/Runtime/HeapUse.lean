import MachinekitHal.Lib.Runs
import MachinekitHal.Runtime.HeapBlocks

/-!
A heap in use.

* `HeapUse`, `HeapOp`, `useStep`: a heap with its memory and the blocks its users hold, and their
  calls and stores as steps. A call that does not return has no step.
* `UseCall`: what the users keep to.
* `Unwrapped`, `TagFits`, `MergeFits`, `Returned`: the conditions under which a call does what it
  should.
* `UseInv`, `UseInv.step`: the chunks are in order and the blocks are in them, after every step.
* `Ledger`: what a step allocates and frees.
-/

namespace MachinekitHal

open Linking Runs

/-- A heap, the memory that was added to it, the blocks its users hold, and the chunks that were
taken and not handed out. -/
structure HeapUse where
  heap : CountedHeap
  arenas : List (ℕ × BitVec 64)
  live : List HeapBlock
  lost : List ℕ

/-- What users of a heap do. `write` is a store of a user to a byte. -/
inductive HeapOp where
  | addmem (space : ℕ) (size : BitVec 64)
  | malloc (nbytes : BitVec 64)
  | calloc (nelem elsize : BitVec 64)
  | mallocAligned (nbytes align : BitVec 64)
  | free (ptr : ℕ)
  | realloc (ptr : ℕ) (size : BitVec 64)
  | write (a : ℕ) (v : BitVec 8)
  | setflags (trim : Bool)

namespace HeapUse

variable (s : HeapUse)

/-- The units of the memory that was added. -/
def arena : List ℕ := s.arenas.flatMap fun m => List.range' m.1 (m.2.toNat / 8)

/-- The chunks that were taken. -/
def taken : List ℕ := s.live.map (fun b => b.chunk) ++ s.lost

/-- A heap before memory is added to it. -/
def init (addr : ℕ) (mem : ℕ → MallocHdr) : HeapUse :=
  ⟨.rtapiHeapInit addr mem, [], [], []⟩

/-- The answer to a request for a block of `n` bytes. -/
def obtain (n : ℕ) : Option ℕ × CountedHeap → HeapUse
  | (none, h) => { s with heap := h }
  | (some p, h) => { s with heap := h, live := ⟨p, n, false, p / 8 - 1⟩ :: s.live }

/-- The answer to a request for an aligned block of `n` bytes in the chunk of `base`. -/
def obtainAligned (n : ℕ) (base : Option ℕ) : Option ℕ × CountedHeap → HeapUse
  | (none, h) => { s with heap := h, lost := (base.map fun b => b / 8 - 1).toList ++ s.lost }
  | (some p, h) =>
    { s with heap := h, live := ⟨p, n, true, base.elim 0 fun b => b / 8 - 1⟩ :: s.live }

/-- The blocks apart from the one at `ptr`. -/
def without (ptr : ℕ) : List HeapBlock := s.live.filter fun b => b.ptr ≠ ptr

/-- The answer to a request for `n` bytes instead of the block at `ptr`. -/
def obtainInstead (ptr n : ℕ) : Option ℕ × CountedHeap → HeapUse
  | (none, h) => { s with heap := h }
  | (some p, h) =>
    if p = ptr then
      { s with
        heap := h
        live := s.live.map fun b => if b.ptr = ptr then { b with nbytes := n } else b }
    else { s with heap := h, live := ⟨p, n, false, p / 8 - 1⟩ :: s.without ptr }

end HeapUse

/-- A call that returned. -/
def returned {α : Type*} (f : α → HeapUse) : Except HeapFault α → Option HeapUse
  | .error _ => none
  | .ok r => some (f r)

/-- One step. -/
def useStep (s : HeapUse) : HeapOp → Option HeapUse
  | .addmem space size =>
    returned (fun h => { s with heap := h, arenas := s.arenas ++ [(space, size)] })
      (s.heap.rtapiHeapAddmem space size)
  | .malloc n => returned (s.obtain n.toNat) (s.heap.rtapiMalloc n)
  | .calloc nelem elsize =>
    returned (s.obtain (nelem.toNat * elsize.toNat)) (s.heap.rtapiCalloc nelem elsize)
  | .mallocAligned n align =>
    returned (s.obtainAligned n.toNat (s.heap.innerRegion n align))
      (s.heap.rtapiMallocAligned n align)
  | .free ptr =>
    returned (fun h => { s with heap := h, live := s.without ptr }) (s.heap.rtapiFree ptr)
  | .realloc ptr n => returned (s.obtainInstead ptr n.toNat) (s.heap.rtapiRealloc ptr n)
  | .write a v => some { s with heap := s.heap.withHeap (s.heap.setByte a v) }
  | .setflags trim => some { s with heap := s.heap.rtapiHeapSetflags trim }

/-- What the users keep to: memory that is added is behind the descriptor and apart from the
memory there is, has room for a header, and ends less than 4 GiB above the descriptor; blocks
that are given back or written to are live. -/
def UseCall (s : HeapUse) : HeapOp → Prop
  | .addmem space size =>
    sizeofRtapiHeap ≤ space ∧ 8 ≤ size.toNat ∧ space + size.toNat / 8 ≤ 2 ^ 29 ∧
      ∀ m ∈ s.arenas, m.1 + m.2.toNat / 8 ≤ space ∨ space + (size.toNat + 7) / 8 ≤ m.1
  | .free ptr => ∃ b ∈ s.live, b.ptr = ptr
  | .realloc ptr _ => ∃ b ∈ s.live, b.ptr = ptr
  | .write a _ => ∃ b ∈ s.live, b.ptr ≤ a ∧ a < b.ptr + b.nbytes
  | _ => True

/-- A request does not wrap around when memory is found for it, and a block that is kept has room
for the bytes asked for. -/
def Unwrapped (s : HeapUse) : HeapOp → Prop
  | .malloc n => ∀ _c ∈ s.heap.firstFit (nunits n.toNat), n.toNat + 7 < 2 ^ 64
  | .calloc nelem elsize =>
    ∀ _c ∈ s.heap.firstFit (nunits (nelem * elsize).toNat),
      nelem.toNat * elsize.toNat + 7 < 2 ^ 64
  | .mallocAligned n align =>
    align &&& (align - 1) = 0 → ∀ _c ∈ s.heap.firstFit (nunits (n + align).toNat),
      n.toNat + align.toNat + 7 < 2 ^ 64
  | .realloc ptr n =>
    if n ≤ s.heap.rtapiAllocsize ptr then
      ptr + n.toNat ≤ 8 * (s.heap.headerAt ptr + s.heap.size (s.heap.headerAt ptr))
    else ∀ _c ∈ s.heap.firstFit (nunits n.toNat), n.toNat + 7 < 2 ^ 64
  | _ => True

/-- The region of an aligned block starts less than 16 MiB above the descriptor. -/
def TagFits (s : HeapUse) : HeapOp → Prop
  | .mallocAligned n align =>
    align &&& (align - 1) = 0 → 4 ≤ align →
      ∀ c ∈ s.heap.firstFit (nunits (n + align).toNat),
        8 * (c + (s.heap.size c - nunits (n + align).toNat) + 1) < 2 ^ 24
  | _ => True

/-- The chunk `c` can be freed after a request for memory, if it was met. -/
def MergeAfter (c : ℕ) : Except HeapFault (Option ℕ × CountedHeap) → Prop
  | .ok (some _, g) => g.FreeFits g.freeList c (g.size c)
  | _ => True

/-- A chunk that is freed has less than `2 ^ 24` units with the free chunks it touches. -/
def MergeFits (s : HeapUse) : HeapOp → Prop
  | .addmem space size => s.heap.FreeFits s.heap.freeList space (size.toNat / 8)
  | .free ptr =>
    s.heap.FreeFits s.heap.freeList (s.heap.headerAt ptr) (s.heap.size (s.heap.headerAt ptr))
  | .realloc ptr n =>
    n ≤ s.heap.rtapiAllocsize ptr ∨
      MergeAfter (s.heap.headerAt ptr) (s.heap.rtapiMalloc n)
  | _ => True

/-- An alignment is not too small for the tag when memory is found for it. -/
def Returned (s : HeapUse) : HeapOp → Prop
  | .mallocAligned n align =>
    align &&& (align - 1) = 0 → align < 4 →
      s.heap.firstFit (nunits (n + align).toNat) = none
  | _ => True

/-- Counting is right: nothing is trimmed, and less than 2 GiB are given back. -/
def Counted (s : HeapUse) : HeapOp → Prop
  | .mallocAligned n align =>
    s.heap.trim = true → align &&& (align - 1) = 0 →
      ∀ c ∈ s.heap.firstFit (nunits (n + align).toNat), align.toNat ∣
        8 * s.heap.addr + 8 * (c + (s.heap.size c - nunits (n + align).toNat) + 1)
  | .free ptr => s.heap.freed.toNat + 8 * (s.heap.size (s.heap.headerAt ptr) - 1) < 2 ^ 31
  | .realloc ptr n =>
    n ≤ s.heap.rtapiAllocsize ptr ∨ s.heap.firstFit (nunits n.toNat) = none ∨
      s.heap.freed.toNat + 8 * (s.heap.size (s.heap.headerAt ptr) - 1) < 2 ^ 31
  | _ => True

/-! ### The invariant -/

/-- The chunks are in order, and the blocks are in theirs. -/
structure UseInv (s : HeapUse) (fs : List ℕ) : Prop where
  ok : HeapOk s.heap.toRtapiHeap fs s.taken s.arena
  blocks : ∀ b ∈ s.live, BlockIn s.heap.toRtapiHeap b

variable {s t : HeapUse} {h' : CountedHeap} {fs : List ℕ} {b b' : HeapBlock} {a : HeapOp}
  {n align : BitVec 64}

lemma HeapUse.mem_taken (hb : b ∈ s.live) : b.chunk ∈ s.taken :=
  List.mem_append_left _ (List.mem_map_of_mem hb)

/-- Blocks have chunks of their own. -/
lemma UseInv.chunk_inj (hI : UseInv s fs) (hb : b ∈ s.live) (hb' : b' ∈ s.live)
    (he : b.chunk = b'.chunk) : b = b' := by
  have hnd := (List.nodup_append.1 (hI.ok.chunks.nodup hI.ok.arenas)).2.1
  exact List.inj_on_of_nodup_map (List.nodup_append.1 hnd).1 hb hb' he

/-- Blocks start at places of their own. -/
lemma UseInv.ptr_inj (hI : UseInv s fs) (hb : b ∈ s.live) (hb' : b' ∈ s.live)
    (he : b.ptr = b'.ptr) : b = b' := by
  refine hI.chunk_inj hb hb' ?_
  rw [← (hI.blocks b hb).headerAt, ← (hI.blocks b' hb').headerAt, he]

/-- Blocks whose chunks are as they were. -/
lemma UseInv.frame (hI : UseInv s fs) {r : RtapiHeap}
    (hm : ∀ x ∈ s.taken.flatMap s.heap.units, r.mem x = s.heap.mem x) (hb : b ∈ s.live) :
    BlockIn r b :=
  (hI.blocks b hb).congr fun x hx => hm x (List.mem_flatMap.2 ⟨_, s.mem_taken hb, hx⟩)

lemma UseInv.without_perm (hI : UseInv s fs) (hb : b ∈ s.live) :
    (b :: s.without b.ptr).Perm s.live := by
  obtain ⟨pre, post, he⟩ := List.append_of_mem hb
  have hnd := (List.nodup_append.1 (hI.ok.chunks.nodup hI.ok.arenas)).2.1
  have hmap := (List.nodup_append.1 hnd).1
  rw [he, List.map_append, List.map_cons, List.perm_middle.nodup_iff, List.nodup_cons,
    ← List.map_append] at hmap
  have hwithout : s.without b.ptr = pre ++ post := by
    have hother : ∀ c ∈ pre ++ post, decide (c.ptr ≠ b.ptr) = true := by
      intro c hc
      refine decide_eq_true fun hcb => hmap.1 (List.mem_map.2 ⟨c, hc, ?_⟩)
      have hc' : c ∈ s.live := he ▸ List.perm_middle.mem_iff.2 (.tail _ hc)
      rw [hI.ptr_inj hc' hb hcb]
    have hself : decide (b.ptr ≠ b.ptr) = false := decide_eq_false (not_not.2 rfl)
    rw [HeapUse.without, he, List.filter_append, List.filter_cons, hself,
      if_neg Bool.false_ne_true, ← List.filter_append]
    exact List.filter_eq_self.2 hother
  rw [hwithout, he]
  exact List.perm_middle.symm

/-- The other chunks, when a block is taken away. -/
lemma UseInv.without (hI : UseInv s fs) (hb : b ∈ s.live) :
    (b.chunk :: ((s.without b.ptr).map (fun b => b.chunk) ++ s.lost)).Perm s.taken :=
  ((hI.without_perm hb).map HeapBlock.chunk).append_right s.lost

/-- The free chunks are those that a walk finds. -/
lemma UseInv.freeList (hI : UseInv s fs) : s.heap.freeList = fs :=
  hI.ok.chunks.freeList_eq hI.ok.arenas

/-! ### What is counted -/

/-- The bytes behind the headers of chunks. -/
def payloads (r : RtapiHeap) (cs : List ℕ) : ℕ := (cs.map fun c => 8 * (r.size c - 1)).sum

@[simp] lemma payloads_cons {r : RtapiHeap} {c : ℕ} {cs : List ℕ} :
    payloads r (c :: cs) = 8 * (r.size c - 1) + payloads r cs := by
  rw [payloads, payloads, List.map_cons, List.sum_cons]

lemma payloads_perm {r : RtapiHeap} {cs cs' : List ℕ} (hp : cs.Perm cs') :
    payloads r cs = payloads r cs' := (hp.map _).sum_eq

lemma payloads_congr {r r' : RtapiHeap} {cs : List ℕ} (hs : ∀ c ∈ cs, r'.size c = r.size c) :
    payloads r' cs = payloads r cs := by
  rw [payloads, payloads]
  congr 1
  exact List.map_congr_left fun c hc => by rw [hs c hc]

/-- A step that allocates `gained` bytes and frees `paid` bytes. -/
structure Ledger (s t : HeapUse) (gained paid : ℕ) : Prop where
  payload : payloads t.heap.toRtapiHeap t.taken + paid =
    payloads s.heap.toRtapiHeap s.taken + gained
  allocated : t.heap.allocated = s.heap.allocated + BitVec.ofNat 64 gained
  freed : t.heap.freed = s.heap.freed + BitVec.ofNat 32 paid

/-- A step keeps the invariant, and is counted. -/
def UseStepOk (s : HeapUse) (a : HeapOp) (t : HeapUse) : Prop :=
  (∃ fs', UseInv t fs') ∧ (Counted s a → ∃ gained paid, Ledger s t gained paid ∧
    (s.heap.freed.toNat < 2 ^ 31 → s.heap.freed.toNat + paid < 2 ^ 31))

/-- What a free adds to the `int`. -/
lemma freed_bytes {m : ℕ} (hm : 0 < m) :
    8 * (BitVec.ofNat 32 m - 1) = BitVec.ofNat 32 (8 * (m - 1)) := by
  refine BitVec.eq_of_toNat_eq ?_
  rw [BitVec.toNat_mul, BitVec.toNat_sub, BitVec.toNat_ofNat, BitVec.toNat_ofNat]
  change 8 * ((2 ^ 32 - 1 + m % 2 ^ 32) % 2 ^ 32) % 2 ^ 32 = _
  omega

/-! ### Steps -/

/-- The units of a chunk that was taken. -/
lemma UseInv.header_mem (hI : UseInv s fs) {c : ℕ} (hc : c ∈ s.taken) :
    c ∈ s.taken.flatMap s.heap.units :=
  List.mem_flatMap.2 ⟨c, hc, hI.ok.chunks.self_mem (List.mem_append_right _ hc)⟩

/-- A chunk that was taken, for a new block or for none. -/
lemma UseInv.gained {q : ℕ} {t : HeapUse} (hI : UseInv s fs)
    (hT : Taken s.heap.toRtapiHeap t.heap.toRtapiHeap s.taken s.arena q)
    (htaken : t.taken.Perm (q :: s.taken)) (harenas : t.arenas = s.arenas)
    (hlive : ∀ b ∈ t.live, b ∈ s.live ∨ BlockIn t.heap.toRtapiHeap b) :
    (∃ fs', UseInv t fs') ∧ payloads t.heap.toRtapiHeap t.taken =
      payloads s.heap.toRtapiHeap s.taken + 8 * (t.heap.size q - 1) := by
  constructor
  · obtain ⟨fs', hok⟩ := hT.heapOk hI.ok
    refine ⟨fs', ⟨?_, ?_, hok.addr⟩, fun b hb => (hlive b hb).elim (hI.frame hT.same) id⟩
    · rw [HeapUse.arena, harenas]
      exact hok.chunks.perm htaken
    · rw [HeapUse.arena, harenas]
      exact hok.arenas
  · rw [payloads_perm htaken, payloads_cons, payloads_congr fun c hc =>
      RtapiHeap.size_congr (hT.same c (hI.header_mem hc)), Nat.add_comm]

/-- A step after which everything is where it was. -/
lemma UseStepOk.stay {t : HeapUse} (htaken : t.taken = s.taken) (hinv : ∃ fs', UseInv t fs')
    (hs : ∀ c ∈ s.taken, t.heap.size c = s.heap.size c)
    (halloc : t.heap.allocated = s.heap.allocated) (hfreed : t.heap.freed = s.heap.freed) :
    UseStepOk s a t := by
  refine ⟨hinv, fun _ => ⟨0, 0, ⟨?_, ?_, ?_⟩, id⟩⟩
  · rw [htaken, payloads_congr hs]
  · rw [halloc]
    exact (BitVec.add_zero _).symm
  · rw [hfreed]
    exact (BitVec.add_zero _).symm

/-- A call that changes nothing. -/
lemma UseInv.same (hI : UseInv s fs) : UseStepOk s a s :=
  UseStepOk.stay rfl ⟨fs, hI⟩ (fun _ _ => rfl) rfl rfl

/-- A new block without a tag. -/
lemma UseInv.plain {q m : ℕ} (hI : UseInv s fs)
    (hP : PlainBlock s.heap h' s.taken s.arena q m) :
    UseStepOk s a (s.obtain m (some (8 * (q + 1)), h')) := by
  have hq : 8 * (q + 1) / 8 - 1 = q := by omega
  obtain ⟨hinv, hpay⟩ := hI.gained (t := s.obtain m (some (8 * (q + 1)), h')) hP.taken
    (List.Perm.of_eq (congrArg (· :: s.taken) hq)) rfl fun b hb => by
      rcases List.mem_cons.1 hb with rfl | hb
      · refine .inr ?_
        rw [hq]
        exact hP.blockIn
      · exact .inl hb
  exact ⟨hinv, fun _ => ⟨_, 0, ⟨hpay, hP.allocated, hP.freed.trans (BitVec.add_zero _).symm⟩, id⟩⟩

lemma UseInv.malloc (hI : UseInv s fs) (hfit : Unwrapped s (.malloc n))
    (ht : useStep s (.malloc n) = some t) : UseStepOk s (.malloc n) t := by
  rcases s.heap.rtapiMalloc_plain hI.ok hfit with hrun | ⟨q, h', hrun, hP⟩
  · rw [useStep, hrun] at ht
    cases ht
    exact hI.same
  · rw [useStep, hrun] at ht
    cases ht
    exact hI.plain hP

lemma UseInv.calloc {nelem elsize : BitVec 64} (hI : UseInv s fs)
    (hfit : Unwrapped s (.calloc nelem elsize)) (ht : useStep s (.calloc nelem elsize) = some t) :
    UseStepOk s (.calloc nelem elsize) t := by
  rcases s.heap.rtapiCalloc_plain hI.ok hfit with hrun | ⟨q, h', hrun, hP⟩
  · rw [useStep, hrun] at ht
    cases ht
    exact hI.same
  · rw [useStep, hrun] at ht
    cases ht
    exact hI.plain hP

/-- What a call that returned has returned. -/
lemma returned_eq {α : Type*} {f : α → HeapUse} {e : Except HeapFault α}
    (ht : returned f e = some t) : ∃ r, e = .ok r ∧ t = f r := by
  cases e with
  | error e => cases ht
  | ok r => exact ⟨r, rfl, (Option.some.inj ht).symm⟩

lemma UseInv.mallocAligned (hI : UseInv s fs) (hfit : Unwrapped s (.mallocAligned n align))
    (htag : TagFits s (.mallocAligned n align))
    (ht : useStep s (.mallocAligned n align) = some t) :
    UseStepOk s (.mallocAligned n align) t := by
  obtain ⟨⟨res, h'⟩, hrun, rfl⟩ := returned_eq ht
  by_cases hno : align &&& (align - 1) = 0 → s.heap.firstFit (nunits (n + align).toNat) = none
  · obtain ⟨hinner, hres⟩ := s.heap.rtapiMallocAligned_nothing hI.ok hno
    obtain ⟨rfl, rfl⟩ := hres _ _ hrun
    rw [hinner]
    exact hI.same
  obtain ⟨hpow, hfound⟩ := Classical.not_imp.1 hno
  obtain ⟨c, hc⟩ := Option.ne_none_iff_exists'.1 hfound
  have hlt := hfit hpow c hc
  by_cases h4 : align < 4
  · -- the chunk is lost
    obtain ⟨q, hinner, hres⟩ := s.heap.rtapiMallocAligned_leak hI.ok hpow h4 hlt hfound
    obtain ⟨rfl, hP⟩ := hres _ _ hrun
    rw [hinner]
    have hq : 8 * (q + 1) / 8 - 1 = q := by omega
    have htaken : (s.obtainAligned n.toNat (some (8 * (q + 1))) (none, h')).taken.Perm
        (q :: s.taken) := by
      have hlost : (s.obtainAligned n.toNat (some (8 * (q + 1))) (none, h')).taken =
          s.live.map (fun b => b.chunk) ++ q :: s.lost :=
        congrArg (fun q => s.live.map (fun b => b.chunk) ++ q :: s.lost) hq
      rw [hlost]
      exact List.perm_middle
    obtain ⟨hinv, hpay⟩ := hI.gained hP.taken htaken rfl fun b hb => .inl hb
    exact ⟨hinv, fun _ =>
      ⟨_, 0, ⟨hpay, hP.allocated, hP.freed.trans (BitVec.add_zero _).symm⟩, id⟩⟩
  · have h0 : align ≠ 0 := by
      rintro rfl
      exact h4 (by decide)
    obtain ⟨k, _, hk⟩ := (Word.and_sub_one_eq_zero h0).1 hpow
    have h4' : 2 ^ 2 ≤ 2 ^ k := hk ▸ BitVec.le_def.1 (BitVec.not_lt.1 h4)
    have h2 : 2 ≤ k := (Nat.pow_le_pow_iff_right (by norm_num)).1 h4'
    obtain ⟨q, p, h'', hrun', hB, c', _, hfirst, _, hq⟩ :=
      s.heap.rtapiMallocAligned_spec hI.ok hk h2 (hk ▸ hlt)
        ⟨c, hI.ok.chunks.firstFit_mem hI.ok.arenas (Nat.succ_pos _) hc⟩
    obtain rfl := Option.some.inj (hfirst.symm.trans hc)
    rw [hrun'] at hrun
    obtain ⟨rfl, rfl⟩ := Prod.mk.inj (Except.ok.inj hrun)
    have hinner := s.heap.innerRegion_eq hI.ok hpow hc
    rw [← hq] at hinner
    rw [hinner]
    have hfit24 : 8 * (q + 1) < 2 ^ 24 := hq ▸ htag hpow (BitVec.not_lt.1 h4) c' hc
    have hwords : p % 4 = 0 := by
      have h4k : 4 ∣ align.toNat := hk ▸ pow_dvd_pow 2 h2
      have := h4k.trans hB.aligned
      omega
    have hq8 : 8 * (q + 1) / 8 - 1 = q := by omega
    obtain ⟨hinv, hpay⟩ := hI.gained
      (t := s.obtainAligned n.toNat (some (8 * (q + 1))) (some p, h'')) hB.taken
      (List.Perm.of_eq (congrArg (· :: s.taken) hq8)) rfl fun b hb => by
        rcases List.mem_cons.1 hb with rfl | hb
        · refine .inr ?_
          change BlockIn h''.toRtapiHeap ⟨p, n.toNat, true, 8 * (q + 1) / 8 - 1⟩
          rw [hq8]
          exact hB.blockIn hfit24 hwords
        · exact .inl hb
    refine ⟨hinv, fun hcount => ?_⟩
    obtain ⟨hfreed, hsize⟩ := hB.freed fun htrim => hq ▸ hcount htrim hpow c' hc
    refine ⟨_, 0, ⟨hpay, ?_, hfreed.trans (BitVec.add_zero _).symm⟩, id⟩
    refine hB.allocated.trans ?_
    rw [← hsize]
    rfl

/-- Freeing a live block: it is gone, and the bytes of the others are as they were. -/
lemma UseInv.free (hI : UseInv s fs) (hb : b ∈ s.live)
    (hfit : s.heap.FreeFits fs b.chunk (s.heap.size b.chunk)) :
    ∃ h', s.heap.rtapiFree b.ptr = .ok h' ∧
      UseStepOk s (.free b.ptr) { s with heap := h', live := s.without b.ptr } := by
  have hperm := hI.without hb
  have hhdr := (hI.blocks b hb).headerAt
  have hok : HeapOk s.heap.toRtapiHeap fs
      (b.chunk :: ((s.without b.ptr).map (fun b => b.chunk) ++ s.lost)) s.arena :=
    ⟨hI.ok.chunks.perm hperm, hI.ok.arenas, hI.ok.addr⟩
  obtain ⟨h', hfree, hsame, _, halloc, hfreed, hfin⟩ := s.heap.rtapiFree_spec hok hhdr
  obtain ⟨fs', hok'⟩ := hfin hfit
  have hpos : 0 < s.heap.size b.chunk :=
    hI.ok.chunks.pos _ (List.mem_append_right _ (s.mem_taken hb))
  refine ⟨h', hfree, ⟨fs', hok', fun c hc => ?_⟩, fun hcount =>
    ⟨0, 8 * (s.heap.size b.chunk - 1), ⟨?_, ?_, ?_⟩, fun _ => ?_⟩⟩
  · have hclive : c ∈ s.live := (List.mem_filter.1 hc).1
    refine (hI.blocks c hclive).congr fun x hx => hsame x (List.mem_flatMap.2 ⟨c.chunk, ?_, hx⟩)
    exact List.mem_append_left _ (List.mem_map_of_mem hc)
  · rw [Nat.add_zero, ← payloads_perm hperm, payloads_cons, Nat.add_comm]
    congr 1
    refine payloads_congr fun c hc =>
      RtapiHeap.size_congr (hsame c (List.mem_flatMap.2 ⟨c, hc, ?_⟩))
    exact hok.chunks.self_mem (List.mem_append_right _ (.tail _ hc))
  · rw [halloc]
    exact (BitVec.add_zero _).symm
  · rw [hfreed, freed_bytes hpos]
  · rw [Counted, hhdr] at hcount
    exact hcount

/-- A block that keeps its place gets another size. -/
lemma UseInv.resize {m : ℕ} (hI : UseInv s fs) (hb : b ∈ s.live)
    (hroom : b.ptr + m ≤ 8 * (b.chunk + s.heap.size b.chunk)) :
    UseStepOk s a { s with
      live := s.live.map fun c => if c.ptr = b.ptr then { c with nbytes := m } else c } := by
  have htaken : HeapUse.taken { s with
      live := s.live.map fun c => if c.ptr = b.ptr then { c with nbytes := m } else c } =
      s.taken := by
    rw [HeapUse.taken, HeapUse.taken, List.map_map]
    congr 1
    refine List.map_congr_left fun c _ => ?_
    rw [Function.comp_apply]
    split_ifs <;> rfl
  refine UseStepOk.stay htaken ⟨fs, htaken ▸ hI.ok, fun d hd => ?_⟩ (fun _ _ => rfl) rfl rfl
  obtain ⟨c, hc, rfl⟩ := List.mem_map.1 hd
  split_ifs with hcb
  · obtain rfl := hI.ptr_inj hc hb hcb
    have hin := hI.blocks c hc
    exact ⟨hin.behind, hroom, hin.words, hin.plain, hin.tagged⟩
  · exact hI.blocks c hc

lemma UseInv.realloc {ptr : ℕ} (hI : UseInv s fs) (hcall : UseCall s (.realloc ptr n))
    (hfit : Unwrapped s (.realloc ptr n)) (hmerge : MergeFits s (.realloc ptr n))
    (ht : useStep s (.realloc ptr n) = some t) : UseStepOk s (.realloc ptr n) t := by
  obtain ⟨b, hb, rfl⟩ := hcall
  have hbin := hI.blocks b hb
  have hhdr := hbin.headerAt
  rw [Unwrapped, hhdr] at hfit
  rw [MergeFits, hhdr] at hmerge
  by_cases hle : n ≤ s.heap.rtapiAllocsize b.ptr
  · -- the block is kept
    rw [if_pos hle] at hfit
    have hrun : s.heap.rtapiRealloc b.ptr n = .ok (some b.ptr, s.heap) := by
      rw [CountedHeap.rtapiRealloc, if_pos hle]
    rw [useStep, hrun] at ht
    cases ht
    rw [HeapUse.obtainInstead, if_pos rfl]
    exact hI.resize hb hfit
  rw [if_neg hle] at hfit
  have hperm := hI.without hb
  have hok : HeapOk s.heap.toRtapiHeap fs
      (b.chunk :: ((s.without b.ptr).map (fun b => b.chunk) ++ s.lost)) s.arena :=
    ⟨hI.ok.chunks.perm hperm, hI.ok.arenas, hI.ok.addr⟩
  rcases s.heap.rtapiRealloc_moved hok hbin hle hfit with hrun | ⟨q, h', hrun, hM, hfin⟩
  · rw [useStep, hrun] at ht
    cases ht
    exact hI.same
  · rw [useStep, hrun] at ht
    cases ht
    rw [HeapUse.obtainInstead, if_neg (hM.ptr_ne hbin)]
    have hq : 8 * (q + 1) / 8 - 1 = q := by omega
    rw [hq]
    obtain ⟨fs', hok'⟩ := hfin fun p g hmalloc => by
      rw [hmalloc] at hmerge
      exact hmerge.resolve_left hle
    refine ⟨⟨fs', hok', fun d hd => ?_⟩, fun hcount =>
      ⟨8 * (h'.size q - 1), 8 * (s.heap.size b.chunk - 1), ⟨?_, hM.allocated, ?_⟩, fun _ => ?_⟩⟩
    · rcases List.mem_cons.1 hd with rfl | hd
      · exact hM.block
      · refine (hI.blocks d (List.mem_filter.1 hd).1).congr fun x hx =>
          hM.same x (List.mem_flatMap.2 ⟨d.chunk, ?_, hx⟩)
        exact List.mem_append_left _ (List.mem_map_of_mem hd)
    · have hrest : payloads h'.toRtapiHeap
            ((s.without b.ptr).map (fun b => b.chunk) ++ s.lost) =
          payloads s.heap.toRtapiHeap
            ((s.without b.ptr).map (fun b => b.chunk) ++ s.lost) :=
        payloads_congr fun c hc =>
          RtapiHeap.size_congr (hM.same c (List.mem_flatMap.2 ⟨c, hc,
            hok.chunks.self_mem (List.mem_append_right _ (.tail _ hc))⟩))
      rw [← payloads_perm hperm, payloads_cons, ← hrest]
      change payloads h'.toRtapiHeap (q :: ((s.without b.ptr).map (fun b => b.chunk) ++ s.lost)) +
        _ = _
      rw [payloads_cons]
      omega
    · rw [hM.freed, freed_bytes (hI.ok.chunks.pos _ (List.mem_append_right _ (s.mem_taken hb)))]
    · rcases hcount with hin | hnone | hlt
      · exact absurd hin hle
      · -- no memory was found
        have hmalloc := s.heap.rtapiMalloc_none hI.ok hnone
        simp only [CountedHeap.rtapiRealloc, if_neg hle, hmalloc] at hrun
        cases hrun
      · rwa [hhdr] at hlt

/-- A store to a byte of a block. -/
lemma UseInv.write {i : ℕ} {v : BitVec 8} (hI : UseInv s fs) (hcall : UseCall s (.write i v)) :
    UseStepOk s (.write i v) { s with heap := s.heap.withHeap (s.heap.setByte i v) } := by
  obtain ⟨b, hb, h1, h2⟩ := hcall
  obtain ⟨hlt, hmem⟩ := (hI.blocks b hb).mem_units h1 h2
  have hb' := List.mem_append_right fs (s.mem_taken hb)
  have hother : ∀ c ∈ 0 :: (fs ++ s.taken), (s.heap.setByte i v).mem c = s.heap.mem c := by
    intro c hc
    refine RtapiHeap.setByte_mem_of_ne ?_
    rintro rfl
    rcases List.mem_cons.1 hc with h0 | hc
    · omega
    · have := hI.ok.chunks.eq_of_mem hI.ok.arenas hc hb' (hI.ok.chunks.self_mem hc) hmem
      omega
  refine UseStepOk.stay rfl ⟨fs, ⟨hI.ok.chunks.congr hother rfl, hI.ok.arenas, hI.ok.addr⟩,
    fun c hc => ?_⟩ (fun c hc => RtapiHeap.size_congr (hother c ?_)) rfl rfl
  · refine (hI.blocks c hc).setByte (hI.blocks b hb) h1 h2 (hI.chunk_inj hc hb) fun hne x hx hx' =>
      hne ?_
    exact hI.ok.chunks.eq_of_mem hI.ok.arenas (List.mem_append_right _ (s.mem_taken hc)) hb' hx hx'
  · exact .tail _ (List.mem_append_right _ hc)

/-- Memory that is apart from the memory there is. -/
lemma UseCall.notMem {space u : ℕ} {size : BitVec 64} (hcall : UseCall s (.addmem space size))
    (hu : u ∈ List.range' space ((size.toNat + 7) / 8)) : u ∉ s.arena := by
  intro hin
  obtain ⟨m, hm, hum⟩ := List.mem_flatMap.1 hin
  have h1 := List.mem_range'_1.1 hu
  have h2 := List.mem_range'_1.1 hum
  have := hcall.2.2.2 m hm
  omega

lemma HeapUse.arena_concat {space : ℕ} {size : BitVec 64} {h : CountedHeap} :
    HeapUse.arena { s with heap := h, arenas := s.arenas ++ [(space, size)] } =
      s.arena ++ List.range' space (size.toNat / 8) := by
  rw [HeapUse.arena, List.flatMap_append, List.flatMap_singleton]
  rfl

lemma UseInv.addmem {space : ℕ} {size : BitVec 64} (hI : UseInv s fs)
    (hcall : UseCall s (.addmem space size)) (hmerge : MergeFits s (.addmem space size))
    (ht : useStep s (.addmem space size) = some t) : UseStepOk s (.addmem space size) t := by
  have hfit : s.heap.FreeFits fs space (size.toNat / 8) := hI.freeList ▸ hmerge
  obtain ⟨hlo, hsize, hhi, _⟩ := id hcall
  obtain ⟨h', fs', hrun, hok, hsame, _, _, halloc, hfreed⟩ :=
    s.heap.rtapiHeapAddmem_spec hI.ok hlo hsize (fun _ => hcall.notMem) hhi hfit
  rw [useStep, hrun] at ht
  cases ht
  refine UseStepOk.stay rfl ⟨fs', ?_, fun b hb => hI.frame hsame hb⟩
    (fun c hc => RtapiHeap.size_congr (hsame c (hI.header_mem hc))) halloc hfreed
  rw [HeapUse.arena_concat]
  exact hok

lemma UseInv.setflags {trim : Bool} (hI : UseInv s fs) :
    UseStepOk s (.setflags trim) { s with heap := s.heap.rtapiHeapSetflags trim } :=
  UseStepOk.stay rfl ⟨fs, ⟨hI.ok.chunks.congr (fun _ _ => rfl) rfl, hI.ok.arenas, hI.ok.addr⟩,
    fun b hb => (hI.blocks b hb).congr fun _ _ => rfl⟩ (fun _ _ => rfl) rfl rfl

/-- The conditions under which every step keeps the chunks in order. -/
def UseOk (s : HeapUse) (a : HeapOp) : Prop :=
  UseCall s a ∧ Unwrapped s a ∧ TagFits s a ∧ MergeFits s a

/-- What one call preserves. -/
theorem UseInv.step (hI : UseInv s fs) (ha : UseOk s a) (ht : useStep s a = some t) :
    UseStepOk s a t := by
  obtain ⟨hcall, hwrap, htag, hmerge⟩ := ha
  cases a with
  | addmem space size => exact hI.addmem hcall hmerge ht
  | malloc n => exact hI.malloc hwrap ht
  | calloc nelem elsize => exact hI.calloc hwrap ht
  | mallocAligned n align => exact hI.mallocAligned hwrap htag ht
  | free ptr =>
    obtain ⟨b, hb, rfl⟩ := hcall
    have hfit : s.heap.FreeFits fs b.chunk (s.heap.size b.chunk) := by
      rw [MergeFits, (hI.blocks b hb).headerAt, hI.freeList] at hmerge
      exact hmerge
    obtain ⟨h', hrun, hstep⟩ := hI.free hb hfit
    rw [useStep, hrun] at ht
    cases ht
    exact hstep
  | realloc ptr n => exact hI.realloc hcall hwrap hmerge ht
  | write i v =>
    cases ht
    exact hI.write hcall
  | setflags trim =>
    cases ht
    exact hI.setflags

/-- A heap before memory is added to it is in order. -/
lemma useInv_init {addr : ℕ} (haddr : 8 * addr + 2 ^ 32 < 2 ^ 64) (mem : ℕ → MallocHdr) :
    UseInv (HeapUse.init addr mem) [] :=
  ⟨CountedHeap.rtapiHeapInit_ok haddr mem, fun _ hb => absurd hb List.not_mem_nil⟩

/-- The chunks are in order in every state reached. -/
theorem UseInv.reach {addr : ℕ} (haddr : 8 * addr + 2 ^ 32 < 2 ^ 64) {mem : ℕ → MallocHdr}
    (hs : Reach useStep UseOk (HeapUse.init addr mem) s) : ∃ fs, UseInv s fs :=
  hs.invariant (P := fun s => ∃ fs, UseInv s fs) ⟨[], useInv_init haddr mem⟩
    fun ⟨_, hI⟩ ha ht => (hI.step ha ht).1

/-! ### Checks of the conditions -/

section

variable (s : HeapUse) (a : HeapOp)

instance : Decidable (UseCall s a) :=
  match a with
  | .addmem .. => inferInstanceAs (Decidable (_ ∧ _ ∧ _ ∧ ∀ m ∈ s.arenas, _ ∨ _))
  | .free _ | .realloc .. => inferInstanceAs (Decidable (∃ b ∈ s.live, _ = _))
  | .write .. => inferInstanceAs (Decidable (∃ b ∈ s.live, _ ∧ _))
  | .malloc _ | .calloc .. | .mallocAligned .. | .setflags _ => .isTrue trivial

instance : Decidable (Unwrapped s a) :=
  match a with
  | .malloc _ | .calloc .. => inferInstanceAs (Decidable (∀ _c ∈ s.heap.firstFit _, _ + 7 < 2 ^ 64))
  | .mallocAligned .. => inferInstanceAs (Decidable (_ → ∀ _c ∈ s.heap.firstFit _, _ + 7 < 2 ^ 64))
  | .realloc ptr n => inferInstanceAs (Decidable (if n ≤ s.heap.rtapiAllocsize ptr then _ ≤ _
      else ∀ _c ∈ s.heap.firstFit _, _ + 7 < 2 ^ 64))
  | .addmem .. | .free _ | .write .. | .setflags _ => .isTrue trivial

instance : Decidable (TagFits s a) :=
  match a with
  | .mallocAligned .. => inferInstanceAs (Decidable (_ → _ → ∀ c ∈ s.heap.firstFit _, _ < 2 ^ 24))
  | .addmem .. | .malloc _ | .calloc .. | .free _ | .realloc .. | .write .. | .setflags _ =>
    .isTrue trivial

instance (c : ℕ) (r : Except HeapFault (Option ℕ × CountedHeap)) : Decidable (MergeAfter c r) :=
  match r with
  | .ok (some _, g) => inferInstanceAs (Decidable (g.FreeFits _ _ _))
  | .ok (none, _) | .error _ => .isTrue trivial

instance : Decidable (MergeFits s a) :=
  match a with
  | .addmem .. | .free _ => inferInstanceAs (Decidable (s.heap.FreeFits _ _ _))
  | .realloc .. => inferInstanceAs (Decidable (_ ∨ MergeAfter _ _))
  | .malloc _ | .calloc .. | .mallocAligned .. | .write .. | .setflags _ => .isTrue trivial

instance : Decidable (UseOk s a) := inferInstanceAs (Decidable (_ ∧ _))

instance : Decidable (Returned s a) :=
  match a with
  | .mallocAligned .. => inferInstanceAs (Decidable (_ → _ → _ = _))
  | .addmem .. | .malloc _ | .calloc .. | .free _ | .realloc .. | .write .. | .setflags _ =>
    .isTrue trivial

instance : Decidable (Counted s a) :=
  match a with
  | .mallocAligned .. => inferInstanceAs (Decidable (_ → _ → ∀ c ∈ s.heap.firstFit _, _ ∣ _))
  | .free _ => inferInstanceAs (Decidable (_ < _))
  | .realloc .. => inferInstanceAs (Decidable (_ ∨ _ ∨ _))
  | .addmem .. | .malloc _ | .calloc .. | .write .. | .setflags _ => .isTrue trivial

end

end MachinekitHal
