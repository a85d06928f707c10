import MachinekitHal.Lib.Runs
import MachinekitHal.Runtime.HeapAlloc

/-!
Safety of the shared memory allocator.

* `HeapSys`, `HeapAct`, `heapStep`: a heap with the blocks its users hold, and their calls and
  writes as steps.
* `heapCall`: what the callers keep to; `heapFits`: the bounds on offsets.
* `HeapSafe`: the chunks partition the arena, and the blocks lie in their chunks.
* `heap_safety`: this holds in every state reached when all offsets are in bounds;
  `heap_safety_high` is a block behind the first 16 MiB, whose tag is cut off.
-/

namespace MachinekitHal

open Linking Runs

/-- A block a user holds: its payload, the bytes and the alignment that were asked for. -/
structure Block where
  ptr : ℕ
  nbytes : ℕ
  align : ℕ
  deriving DecidableEq

/-- The units of the payload of a block. -/
def Block.payload (b : Block) : List ℕ := List.range' b.ptr ((b.nbytes + 7) / 8)

/-- A heap, the units of the memory that was added to it, and the live blocks. -/
structure HeapSys where
  heap : RtapiHeap
  arena : List ℕ
  live : List Block

/-- What users of a heap do. `write` is a write of a user to a unit. -/
inductive HeapAct where
  | addmem (space size : ℕ)
  | malloc (nbytes : ℕ)
  | calloc (nelem elsize : ℕ)
  | mallocAligned (nbytes align : ℕ)
  | free (ptr : ℕ)
  | write (unit : ℕ) (u : MallocHdr)
  | setTrim (trim : Bool)

namespace HeapSys

variable (s : HeapSys)

/-- The result of an allocation: a new block, or none. -/
def obtain (nbytes align : ℕ) : Option ℕ × RtapiHeap → HeapSys
  | (some p, h) => { s with heap := h, live := ⟨p, nbytes, align⟩ :: s.live }
  | (none, h) => { s with heap := h }

/-- The headers of the chunks of the live blocks. -/
def headers : List ℕ := s.live.map fun b => s.heap.hdrOf b.ptr

end HeapSys

/-- One step. -/
def heapStep (s : HeapSys) : HeapAct → Option HeapSys
  | .addmem space size =>
    (s.heap.addmem space size).map fun h =>
      { s with heap := h, arena := s.arena ++ List.range' space (size / 8) }
  | .malloc nbytes => (s.heap.malloc nbytes).map (s.obtain nbytes 8)
  | .calloc nelem elsize => (s.heap.calloc nelem elsize).map (s.obtain (nelem * elsize) 8)
  | .mallocAligned nbytes align => (s.heap.mallocAligned nbytes align).map (s.obtain nbytes align)
  | .free ptr =>
    (s.heap.unlockedFree ptr).map fun h =>
      { s with heap := h, live := s.live.filter fun b => b.ptr ≠ ptr }
  | .write unit u => some { s with heap := s.heap.write unit u }
  | .setTrim trim => some { s with heap := { s.heap with trim := trim } }

/-- What the callers keep to: memory that is added is above the descriptor, apart from the
memory there is, and less than 16 MiB with it; requests fit the memory there is; alignments
are powers of two, and requests with an alignment can be met; blocks that are freed or
written to are live. -/
def heapCall (s : HeapSys) : HeapAct → Prop
  | .addmem space size =>
    sizeofRtapiHeap ≤ space ∧ 8 ≤ size ∧ 8 * s.arena.length + size < 2 ^ 24 ∧
      ∀ u ∈ List.range' space ((size + 7) / 8), u ∉ s.arena
  | .malloc nbytes => nbytes ≤ 8 * s.arena.length
  | .calloc nelem elsize => nelem * elsize ≤ 8 * s.arena.length
  | .mallocAligned nbytes align =>
    (∃ k, align = 2 ^ k) ∧ 8 ≤ align ∧ nbytes + align ≤ 8 * s.arena.length ∧
      ∃ p h, s.heap.malloc (nbytes + align) = some (some p, h)
  | .free ptr => ∃ b ∈ s.live, b.ptr = ptr
  | .write unit _ => ∃ b ∈ s.live, unit ∈ b.payload
  | .setTrim _ => True

/-- The bounds on offsets: memory that is added ends less than 4 GiB above the descriptor, and
memory for an alignment is found in the first 16 MiB. -/
def heapFits (s : HeapSys) : HeapAct → Prop
  | .addmem space size => space + size / 8 ≤ 2 ^ 29
  | .mallocAligned nbytes align => s.heap.alignedFits (nunits (nbytes + align))
  | _ => True

/-- The heap is safe, with the chunks `free` on its free list. -/
structure HeapSafe (s : HeapSys) (free : List ℕ) : Prop where
  /-- these are the chunks on the free list -/
  ring : Path s.heap.next 0 free 0
  /-- the free and the live chunks have the units of the arena -/
  part : ((free ++ s.headers).flatMap s.heap.units).Perm s.arena
  /-- each once -/
  apart : (free ++ s.headers).Pairwise fun c d => (s.heap.units c).Disjoint (s.heap.units d)
  /-- a block lies behind the header in its chunk -/
  inside : ∀ b ∈ s.live, s.heap.hdrOf b.ptr < b.ptr ∧
    8 * b.ptr + b.nbytes ≤ 8 * (s.heap.hdrOf b.ptr + s.heap.size (s.heap.hdrOf b.ptr))
  /-- no header is in a payload -/
  headers : ∀ b ∈ s.live, ∀ c ∈ 0 :: (free ++ s.headers), c ∉ b.payload
  /-- no tag is in a payload -/
  tags : ∀ b ∈ s.live, ∀ b' ∈ s.live, b'.ptr - 1 ∉ b.payload
  /-- payloads have nothing in common -/
  payloads : s.live.Pairwise fun b b' => b.payload.Disjoint b'.payload
  /-- a block is aligned as asked -/
  aligned : ∀ b ∈ s.live, b.align ∣ 8 * (s.heap.addr + b.ptr)

/-! ### Blocks -/

/-- A block lies in its chunk, aligned as asked. -/
structure BlockOk (h : RtapiHeap) (b : Block) : Prop where
  below : h.hdrOf b.ptr < b.ptr
  inside : b.ptr + (b.nbytes + 7) / 8 ≤ h.hdrOf b.ptr + h.size (h.hdrOf b.ptr)
  aligned : b.align ∣ 8 * (h.addr + b.ptr)

/-- The chunks of a heap, with those of the live blocks, and the blocks in them. -/
structure HeapInv (s : HeapSys) (fs : List ℕ) : Prop where
  arena : Arena s.arena
  chunks : Chunks s.heap fs s.headers s.arena
  blocks : ∀ b ∈ s.live, BlockOk s.heap b

variable {h h' : RtapiHeap} {s s' : HeapSys} {fs ls arena : List ℕ} {b : Block} {x : ℕ}

lemma HeapInv.arenas (hI : HeapInv s fs) : Arenas s.arena := hI.arena.toArenas

/-- The tag in front of a payload and the payload are in the chunk. -/
lemma BlockOk.mem_units (hb : BlockOk h b) (hx : b.ptr - 1 ≤ x)
    (hlt : x < b.ptr + (b.nbytes + 7) / 8 ∨ x < b.ptr) : x ∈ h.units (h.hdrOf b.ptr) := by
  have h1 := hb.below
  have h2 := hb.inside
  exact h.mem_units.2 ⟨by omega, by omega⟩

/-- A block whose tag and header are as they were. -/
lemma BlockOk.congr (hb : BlockOk h b) (ha : h'.addr = h.addr)
    (htag : h'.mem (b.ptr - 1) = h.mem (b.ptr - 1))
    (hhdr : h'.mem (h.hdrOf b.ptr) = h.mem (h.hdrOf b.ptr)) :
    h'.hdrOf b.ptr = h.hdrOf b.ptr ∧ BlockOk h' b := by
  have he : h'.hdrOf b.ptr = h.hdrOf b.ptr := RtapiHeap.hdrOf_congr htag
  refine ⟨he, ?_, ?_, ?_⟩
  · rw [he]
    exact hb.below
  · rw [he, RtapiHeap.size_congr hhdr]
    exact hb.inside
  · rw [ha]
    exact hb.aligned

/-- Blocks whose chunks are as they were. -/
lemma HeapInv.frame (hI : HeapInv s fs) (ha : h'.addr = s.heap.addr) {live : List Block}
    (hl : ∀ b ∈ live, b ∈ s.live)
    (hm : ∀ x ∈ (live.map fun b => s.heap.hdrOf b.ptr).flatMap s.heap.units,
      h'.mem x = s.heap.mem x) :
    (live.map fun b => h'.hdrOf b.ptr) = (live.map fun b => s.heap.hdrOf b.ptr) ∧
      ∀ b ∈ live, BlockOk h' b := by
  have hall : ∀ b ∈ live, h'.hdrOf b.ptr = s.heap.hdrOf b.ptr ∧ BlockOk h' b := by
    intro b hb
    have hok := hI.blocks b (hl b hb)
    have hin : ∀ x ∈ s.heap.units (s.heap.hdrOf b.ptr), h'.mem x = s.heap.mem x := fun x hx =>
      hm x (List.mem_flatMap.2 ⟨_, List.mem_map_of_mem hb, hx⟩)
    have h1 := hok.below
    have h2 := hok.inside
    refine hok.congr ha (hin _ (hok.mem_units (le_refl _) (.inr (by omega)))) (hin _ ?_)
    exact s.heap.mem_units.2 ⟨le_refl _, by omega⟩
  exact ⟨List.map_congr_left fun b hb => (hall b hb).1, fun b hb => (hall b hb).2⟩

/-! ### Safety of a state -/

/-- The live chunks are chunks. -/
lemma HeapInv.hdr_mem (_ : HeapInv s fs) (hb : b ∈ s.live) :
    s.heap.hdrOf b.ptr ∈ fs ++ s.headers :=
  List.mem_append_right _ (List.mem_map_of_mem hb)

/-- Live blocks have chunks of their own. -/
lemma HeapInv.hdr_inj (hI : HeapInv s fs) {b b' : Block} (hb : b ∈ s.live) (hb' : b' ∈ s.live)
    (he : s.heap.hdrOf b.ptr = s.heap.hdrOf b'.ptr) : b = b' :=
  List.inj_on_of_nodup_map (List.nodup_append.1 (hI.chunks.nodup hI.arenas)).2.1 hb hb' he

/-- A heap whose chunks and blocks are in order is safe. -/
lemma HeapInv.safe (hI : HeapInv s fs) : HeapSafe s fs := by
  have hpay : ∀ b ∈ s.live, ∀ x ∈ b.payload, b.ptr ≤ x ∧ x ∈ s.heap.units (s.heap.hdrOf b.ptr) := by
    intro b hb x hx
    have hx' := List.mem_range'_1.1 hx
    exact ⟨hx'.1, (hI.blocks b hb).mem_units (by omega) (.inl hx'.2)⟩
  refine ⟨hI.chunks.ring, hI.chunks.part, hI.chunks.disjoint hI.arenas, fun b hb => ?_, ?_, ?_, ?_,
    fun b hb => (hI.blocks b hb).aligned⟩
  · have h1 := (hI.blocks b hb).below
    have h2 := (hI.blocks b hb).inside
    exact ⟨h1, by omega⟩
  · intro b hb c hc hcb
    obtain ⟨hle, hcu⟩ := hpay b hb c hcb
    rcases List.mem_cons.1 hc with rfl | hc
    · have habove := hI.arena.above 0 (hI.chunks.mem_arena (hI.hdr_mem hb) hcu)
      simp [sizeofRtapiHeap] at habove
    · have he := hI.chunks.eq_of_mem hI.arenas hc (hI.hdr_mem hb) (hI.chunks.self_mem hc) hcu
      have := (hI.blocks b hb).below
      omega
  · intro b hb b' hb' hmem
    obtain ⟨hle, hcu⟩ := hpay b hb _ hmem
    have hbelow := (hI.blocks b' hb').below
    have hcu' := (hI.blocks b' hb').mem_units (le_refl _) (.inr (by omega))
    obtain rfl := hI.hdr_inj hb hb'
      (hI.chunks.eq_of_mem hI.arenas (hI.hdr_mem hb) (hI.hdr_mem hb') hcu hcu')
    omega
  · have hdis := (List.pairwise_append.1 (hI.chunks.disjoint hI.arenas)).2.1
    rw [HeapSys.headers, List.pairwise_map] at hdis
    refine List.Pairwise.imp_of_mem ?_ hdis
    intro b b' hb hb' hd x hx hx'
    exact hd (hpay b hb x hx).2 (hpay b' hb' x hx').2

/-! ### Steps -/

/-- A chunk that was taken for a new block. -/
lemma HeapInv.taken {q : ℕ} (hI : HeapInv s fs)
    (hT : Taken s.heap h' s.headers s.arena q) (hq : h'.hdrOf b.ptr = q) (hb : BlockOk h' b) :
    ∃ fs', HeapInv { s with heap := h', live := b :: s.live } fs' := by
  obtain ⟨fs', hC⟩ := hT.chunks
  obtain ⟨hheaders, hblocks⟩ := hI.frame hT.addr (fun b hb => hb) hT.same
  refine ⟨fs', hI.arena, ?_, fun b' hb' => ?_⟩
  · have hcons : HeapSys.headers { s with heap := h', live := b :: s.live } = q :: s.headers :=
      congrArg₂ List.cons hq hheaders
    rw [hcons]
    exact hC
  · rcases List.mem_cons.1 hb' with rfl | hb'
    · exact hb
    · exact hblocks b' hb'

/-- `malloc` and what follows in the payload of the chunk it takes. -/
lemma HeapInv.malloc {nbytes : ℕ} (hI : HeapInv s fs) (hn : nbytes < 2 ^ 24)
    {f : ℕ → RtapiHeap → RtapiHeap}
    (hf : ∀ q h', Carved s.heap h' s.headers s.arena q → (nbytes + 7) / 8 < h'.size q →
      Taken s.heap (f (q + 1) h') s.headers s.arena q ∧ (f (q + 1) h').mem q = h'.mem q) :
    s.heap.malloc nbytes = some (none, s.heap) ∨
      ∃ p h', s.heap.malloc nbytes = some (some p, h') ∧
        ∃ fs', HeapInv { s with heap := f p h', live := ⟨p, nbytes, 8⟩ :: s.live } fs' := by
  rcases hI.chunks.malloc hI.arenas nbytes with ⟨hnone, -⟩ | ⟨q, h', hmalloc, hT, hsize, hattr, _⟩
  · exact .inl hnone
  · rw [nunits_eq (by omega)] at hsize
    obtain ⟨hT', hmem⟩ := hf q h' hT (by omega)
    have hhdr' : (f (q + 1) h').hdrOf (q + 1) = q :=
      (RtapiHeap.hdrOf_congr hmem).trans (RtapiHeap.hdrOf_of_attr hattr)
    refine .inr ⟨q + 1, h', hmalloc, hI.taken hT' hhdr' ⟨?_, ?_, ⟨_, rfl⟩⟩⟩
    · rw [hhdr']
      exact Nat.lt_succ_self q
    · rw [hhdr', RtapiHeap.size_congr hmem, hsize]
      change q + 1 + (nbytes + 7) / 8 ≤ _
      omega

lemma HeapInv.free (hI : HeapInv s fs) (hb : b ∈ s.live) :
    ∃ h' fs', s.heap.unlockedFree b.ptr = some h' ∧
      HeapInv { s with heap := h', live := s.live.filter fun c => c.ptr ≠ b.ptr } fs' ∧
      ∀ c ∈ s.live, c.ptr ≠ b.ptr → ∀ u ∈ c.payload, h'.mem u = s.heap.mem u := by
  obtain ⟨pre, post, he⟩ := List.append_of_mem hb
  have hnd := (List.nodup_append.1 (hI.chunks.nodup hI.arenas)).2.1
  rw [HeapSys.headers, he, List.map_append, List.map_cons, List.perm_middle.nodup_iff,
    List.nodup_cons, ← List.map_append] at hnd
  have hfilter : (s.live.filter fun c => c.ptr ≠ b.ptr) = pre ++ post := by
    have hother : ∀ c ∈ pre ++ post, decide (c.ptr ≠ b.ptr) = true := by
      intro c hc
      refine decide_eq_true fun hcb => hnd.1 (List.mem_map.2 ⟨c, hc, ?_⟩)
      rw [hcb]
    have hb' : decide (b.ptr ≠ b.ptr) = false := decide_eq_false (not_not.2 rfl)
    rw [he, List.filter_append, List.filter_cons, hb', if_neg Bool.false_ne_true,
      ← List.filter_append]
    exact List.filter_eq_self.2 hother
  have hperm : (s.heap.hdrOf b.ptr :: (pre ++ post).map fun c => s.heap.hdrOf c.ptr).Perm
      s.headers := by
    rw [HeapSys.headers, he, List.map_append, List.map_append, List.map_cons]
    exact List.perm_middle.symm
  have hC₀ := hI.chunks.perm hperm
  obtain ⟨h', fs', hfree, hC, hsame⟩ := hC₀.free hI.arenas
    (hC₀.freeFits hI.arena (List.mem_append_right _ (.head _)))
  have haddr := RtapiHeap.freeChunk_addr hfree
  have hsub : ∀ c ∈ pre ++ post, c ∈ s.live := fun c hc =>
    he ▸ List.perm_middle.mem_iff.2 (.tail _ hc)
  obtain ⟨hheaders, hblocks⟩ := hI.frame haddr hsub hsame
  refine ⟨h', fs', hfree, ?_, fun c hc hcb u hu => hsame u ?_⟩
  · rw [hfilter]
    refine ⟨hI.arena, ?_, hblocks⟩
    rw [HeapSys.headers, hheaders]
    exact hC
  · have hc' : c ∈ pre ++ post := hfilter ▸ List.mem_filter.2 ⟨hc, decide_eq_true hcb⟩
    have hu' := List.mem_range'_1.1 hu
    exact List.mem_flatMap.2 ⟨_, List.mem_map_of_mem hc',
      (hI.blocks c hc).mem_units (by omega) (.inl hu'.2)⟩

/-- Memory that is added is a free chunk. -/
lemma HeapInv.addmem {space size : ℕ} (hI : HeapInv s fs) (hlo : sizeofRtapiHeap ≤ space)
    (hsize : 8 ≤ size) (hsum : 8 * s.arena.length + size < 2 ^ 24)
    (hnew : ∀ u ∈ List.range' space ((size + 7) / 8), u ∉ s.arena)
    (hhi : space + size / 8 ≤ 2 ^ 29) :
    ∃ h' fs', s.heap.addmem space size = some h' ∧
      HeapInv { s with heap := h', arena := s.arena ++ List.range' space (size / 8) } fs' := by
  have hA : Arena (s.arena ++ List.range' space (size / 8)) :=
    hI.arena.add hlo hsum (fun u hu => hnew u (List.mem_range'_1.2 (by
      have hu' := List.mem_range'_1.1 hu
      omega))) hhi
  obtain ⟨hsz, hattr⟩ := @RtapiHeap.newMem_header s.heap size space hsize (by omega)
  obtain ⟨h₁, hh₁⟩ : ∃ h₁, (s.heap.zeroMem space size).setSize space (size / 8) = h₁ := ⟨_, rfl⟩
  have hold : ∀ x, x = 0 ∨ x ∈ s.arena → h₁.mem x = s.heap.mem x := by
    intro x hx
    rw [← hh₁]
    refine RtapiHeap.newMem_mem hsize ?_
    rcases hx with rfl | hx
    · rw [sizeofRtapiHeap] at hlo
      omega
    · by_contra hin
      exact hnew x (List.mem_range'_1.2 (by omega)) hx
  have hf₁ : h₁.freeP = s.heap.freeP := hh₁ ▸ rfl
  have ha₁ : h₁.addr = s.heap.addr := hh₁ ▸ rfl
  rw [hh₁] at hsz hattr
  have hC₁ := hI.chunks.add (by omega) hsz hold hf₁
  obtain ⟨h', fs', hfree, hC, hsame⟩ := hC₁.free hA.toArenas
    (hC₁.freeFits hA (List.mem_append_right _ (.head _)))
  have hmem : ∀ x ∈ s.headers.flatMap s.heap.units, h'.mem x = s.heap.mem x := by
    intro x hx
    obtain ⟨c, hc, hxc⟩ := List.mem_flatMap.1 hx
    have hxa := hI.chunks.mem_arena (List.mem_append_right _ hc) hxc
    refine (hsame x (List.mem_flatMap.2 ⟨c, hc, ?_⟩)).trans (hold x (.inr hxa))
    have hca := hI.chunks.mem_arena (List.mem_append_right _ hc)
      (hI.chunks.self_mem (List.mem_append_right _ hc))
    rw [RtapiHeap.mem_units, RtapiHeap.size_congr (hold c (.inr hca))]
    exact s.heap.mem_units.1 hxc
  have haddr : h'.addr = s.heap.addr := (RtapiHeap.freeChunk_addr hfree).trans ha₁
  obtain ⟨hheaders, hblocks⟩ := hI.frame haddr (fun b hb => hb) hmem
  refine ⟨h', fs', ?_, hA, ?_, hblocks⟩
  · rw [RtapiHeap.addmem, hh₁, RtapiHeap.unlockedFree_of_attr hattr]
    exact hfree
  · rw [HeapSys.headers, hheaders]
    exact hC

/-- A user writes to a payload. -/
lemma HeapInv.write {unit : ℕ} (hI : HeapInv s fs) (hb : b ∈ s.live) (hu : unit ∈ b.payload)
    (u : MallocHdr) : HeapInv { s with heap := s.heap.write unit u } fs := by
  have hsafe := hI.safe
  have hne : ∀ c ∈ 0 :: (fs ++ s.headers), c ≠ unit := by
    rintro c hc rfl
    exact hsafe.headers b hb c hc hu
  have hok : ∀ c ∈ s.live, (s.heap.write unit u).hdrOf c.ptr = s.heap.hdrOf c.ptr ∧
      BlockOk (s.heap.write unit u) c := by
    intro c hc
    refine (hI.blocks c hc).congr rfl (s.heap.mem_write_of_ne _ ?_) (s.heap.mem_write_of_ne _ ?_)
    · rintro rfl
      exact hsafe.tags b hb c hc hu
    · exact hne _ (.tail _ (hI.hdr_mem hc))
  have hheaders : HeapSys.headers { s with heap := s.heap.write unit u } = s.headers :=
    List.map_congr_left fun c hc => (hok c hc).1
  refine ⟨hI.arena, ?_, fun c hc => (hok c hc).2⟩
  rw [hheaders]
  exact hI.chunks.congr (fun c hc => s.heap.mem_write_of_ne _ (hne c hc)) rfl

/-- Every call that fits is answered, and leaves the chunks and blocks in order. -/
lemma HeapInv.step {a : HeapAct} (hI : HeapInv s fs) (ha : heapCall s a) (hf : heapFits s a) :
    ∃ s' fs', heapStep s a = some s' ∧ HeapInv s' fs' := by
  have hlen := hI.arena.length
  cases a with
  | addmem space size =>
    obtain ⟨hlo, hsize, hsum, hnew⟩ := ha
    obtain ⟨h', fs', hadd, hI'⟩ := hI.addmem hlo hsize hsum hnew hf
    exact ⟨_, fs', by rw [heapStep, hadd]; rfl, hI'⟩
  | malloc nbytes =>
    have hn : nbytes < 2 ^ 24 := lt_of_le_of_lt ha (by omega)
    rcases hI.malloc hn (f := fun _ h => h) (fun q h' hT _ => ⟨hT.toTaken, rfl⟩) with
      hnone | ⟨p, h', hp, fs', hI'⟩
    · exact ⟨_, fs, by rw [heapStep, hnone]; rfl, hI⟩
    · exact ⟨_, fs', by rw [heapStep, hp]; rfl, hI'⟩
  | calloc nelem elsize =>
    have hn : nelem * elsize < 2 ^ 24 := lt_of_le_of_lt ha (by omega)
    have hmod : nelem * elsize % 2 ^ 64 = nelem * elsize := Nat.mod_eq_of_lt (by omega)
    rcases hI.malloc hn (f := fun p h => h.zeroMem p (nelem * elsize))
      (fun q h' hT hlt => (hT.zeroMem hI.chunks hI.arenas hlt).imp_left Carved.toTaken) with
      hnone | ⟨p, h', hp, fs', hI'⟩
    · exact ⟨_, fs, by rw [heapStep, RtapiHeap.calloc, hmod, hnone]; rfl, hI⟩
    · exact ⟨_, fs', by rw [heapStep, RtapiHeap.calloc, hmod, hp]; rfl, hI'⟩
  | mallocAligned nbytes align =>
    obtain ⟨⟨k, rfl⟩, hal, hle, hok⟩ := ha
    obtain ⟨j, hj⟩ : ∃ j, 2 ^ k = 8 * 2 ^ j := by
      have hk : 3 ≤ k := by
        by_contra hlt
        have := Nat.pow_lt_pow_right (a := 2) (by norm_num) (show k < 3 by omega)
        omega
      exact ⟨k - 3, by rw [show (8 : ℕ) = 2 ^ 3 from rfl, ← pow_add]; congr 1; omega⟩
    obtain ⟨q, r, h', hmal, hT, hhdr, hlt, hin, hdvd⟩ := hI.chunks.mallocAligned hI.arenas hj
      (by positivity) (Nat.and_two_pow_sub_one_eq_mod _ k ▸ by simp) (by omega) hok hf
    obtain ⟨fs', hI'⟩ := hI.taken hT (b := ⟨r, nbytes, 2 ^ k⟩) hhdr
      ⟨by rw [hhdr]; exact hlt, by rw [hhdr]; exact hin, by rw [hT.addr]; exact hdvd⟩
    exact ⟨_, fs', by rw [heapStep, hmal]; rfl, hI'⟩
  | free ptr =>
    obtain ⟨b, hb, rfl⟩ := ha
    obtain ⟨h', fs', hfree, hI', _⟩ := hI.free hb
    exact ⟨_, fs', by rw [heapStep, hfree]; rfl, hI'⟩
  | write unit u =>
    obtain ⟨b, hb, hu⟩ := ha
    exact ⟨_, fs, rfl, hI.write hb hu u⟩
  | setTrim trim =>
    exact ⟨_, fs, rfl, hI.arena, hI.chunks.congr (fun _ _ => rfl) rfl, fun b hb =>
      ⟨(hI.blocks b hb).below, (hI.blocks b hb).inside, (hI.blocks b hb).aligned⟩⟩

/-- A heap that was initialised, with no memory yet. -/
def HeapSys.init (addr : ℕ) (mem : ℕ → MallocHdr) : HeapSys := ⟨RtapiHeap.init addr mem, [], []⟩

/-- The descriptor is the only entry of the free list. -/
lemma heapInv_init (addr : ℕ) (mem : ℕ → MallocHdr) : HeapInv (HeapSys.init addr mem) [] := by
  have hnext : (RtapiHeap.init addr mem).next 0 = 0 := by
    simp [RtapiHeap.next, RtapiHeap.init]
  have hsize : (RtapiHeap.init addr mem).size 0 = 0 := by
    simp [RtapiHeap.size, RtapiHeap.init]
  refine ⟨⟨⟨List.nodup_nil, fun u hu => absurd hu List.not_mem_nil,
    fun u hu => absurd hu List.not_mem_nil⟩, by norm_num [HeapSys.init]⟩, ?_,
    fun b hb => absurd hb List.not_mem_nil⟩
  exact chunks_init hnext hsize rfl

/-- When all offsets are in bounds a heap is safe in every state reached, every call is
answered, and freeing a block leaves the other payloads alone. -/
theorem heap_safety {addr : ℕ} {mem : ℕ → MallocHdr} {s : HeapSys}
    (hs : Reach heapStep (fun s a => heapCall s a ∧ heapFits s a) (HeapSys.init addr mem) s) :
    (∃ free, HeapSafe s free) ∧
    (∀ a, heapCall s a → heapFits s a → (heapStep s a).isSome) ∧
    ∀ ptr s', heapCall s (.free ptr) → heapStep s (.free ptr) = some s' →
      ∀ b ∈ s'.live, ∀ u ∈ b.payload, s'.heap.mem u = s.heap.mem u := by
  obtain ⟨fs, hI⟩ : ∃ fs, HeapInv s fs := by
    refine hs.invariant (P := fun s => ∃ fs, HeapInv s fs) ⟨[], heapInv_init addr mem⟩ ?_
    rintro s a t ⟨fs, hI⟩ ⟨hcall, hfits⟩ ht
    obtain ⟨s', fs', hs', hI'⟩ := hI.step hcall hfits
    rw [ht] at hs'
    cases hs'
    exact ⟨fs', hI'⟩
  refine ⟨⟨fs, hI.safe⟩, fun a hcall hfits => ?_, fun ptr s' hcall hs' b hb u hu => ?_⟩
  · obtain ⟨s', _, hs', _⟩ := hI.step hcall hfits
    rw [hs']
    rfl
  · obtain ⟨c, hc, rfl⟩ := hcall
    obtain ⟨h', _, hfree, _, hsame⟩ := hI.free hc
    rw [heapStep, hfree] at hs'
    cases hs'
    obtain ⟨hb, hne⟩ := List.mem_filter.1 hb
    exact hsame b hb (of_decide_eq_true hne) u hu

/-! ### Runs -/

/-- A check of calls. -/
instance (s : HeapSys) (a : HeapAct) : Decidable (heapCall s a) :=
  match a with
  | .addmem .. => inferInstanceAs (Decidable (_ ∧ _ ∧ _ ∧ ∀ u ∈ List.range' _ _, u ∉ s.arena))
  | .malloc _ | .calloc .. => inferInstanceAs (Decidable (_ ≤ _))
  | .mallocAligned nbytes align =>
    decidable_of_iff (align = 2 ^ align.log2 ∧ 8 ≤ align ∧ nbytes + align ≤ 8 * s.arena.length ∧
      (s.heap.malloc (nbytes + align)).any (fun r => r.1.isSome) = true) <| by
      refine and_congr ⟨fun h => ⟨_, h⟩, ?_⟩
        (and_congr_right fun _ => and_congr_right fun _ => ?_)
      · rintro ⟨k, rfl⟩
        rw [Nat.log2_two_pow]
      · rw [Option.any_eq_true]
        constructor
        · rintro ⟨⟨_ | p, h⟩, hr, hp⟩
          · cases hp
          · exact ⟨p, h, hr⟩
        · rintro ⟨p, h, hr⟩
          exact ⟨_, hr, rfl⟩
  | .free _ => inferInstanceAs (Decidable (∃ b ∈ s.live, _ = _))
  | .write .. => inferInstanceAs (Decidable (∃ b ∈ s.live, _ ∈ b.payload))
  | .setTrim _ => .isTrue trivial

/-- A check of the bounds on offsets, for memory that is found at once. -/
def fitsAtOnce (s : HeapSys) : HeapAct → Bool
  | .addmem space size => space + size / 8 ≤ 2 ^ 29
  | .mallocAligned nbytes align =>
    let n := nunits (nbytes + align)
    let c := s.heap.next s.heap.freeP
    n ≤ s.heap.size c ∧ 8 * (c + (s.heap.size c - n) + 1) < 2 ^ 24
  | _ => true

/-- The first chunk behind `free_p` is big enough. -/
lemma fitsAtOnce_fits {s : HeapSys} {a : HeapAct} (h : fitsAtOnce s a = true) : heapFits s a := by
  cases a with
  | addmem space size =>
    have h' : space + size / 8 ≤ 2 ^ 29 := of_decide_eq_true h
    exact h'
  | mallocAligned nbytes align =>
    obtain ⟨hbig, hlt⟩ := of_decide_eq_true h
    intro ys pre c post hring he hpre _
    have hnext : (ys ++ [s.heap.freeP]).head? = some (s.heap.next s.heap.freeP) := by
      rw [← hring.map]
      rfl
    cases pre with
    | nil =>
      rw [he] at hnext
      cases hnext
      exact hlt
    | cons y pre =>
      rw [he] at hnext
      cases hnext
      exact absurd (hpre _ (.head _)) (not_lt.2 hbig)
  | malloc _ => trivial
  | calloc _ _ => trivial
  | free _ => trivial
  | write _ _ => trivial
  | setTrim _ => trivial

/-- Blocks of several sizes, of which the first is freed. -/
def heapActs (space : ℕ) : List HeapAct :=
  [.setTrim true, .addmem space 1024, .malloc 5, .mallocAligned 8 64, .calloc 2 8,
    .free (space + 127)]

/-- Memory right above the descriptor, with blocks of several kinds. -/
theorem heap_safety_low : ∃ s : HeapSys, s.live.map (fun b => b.ptr) = [134, 128] ∧
    (∃ free, HeapSafe s free) ∧ (heapStep s (.free 128)).isSome := by
  have hv : (run heapStep (fun s a => decide (heapCall s a) && fitsAtOnce s a)
      (HeapSys.init 0 fun _ => .zero) (heapActs 10)).map (fun s => s.live.map fun b => b.ptr) =
      some [134, 128] := by decide +kernel
  obtain ⟨s, -, hlive, hr⟩ := run_map hv
  have hreach : Reach heapStep (fun s a => heapCall s a ∧ heapFits s a)
      (HeapSys.init 0 fun _ => .zero) s := by
    refine hr.mono fun hok => ?_
    rw [Bool.and_eq_true] at hok
    exact ⟨of_decide_eq_true hok.1, fitsAtOnce_fits hok.2⟩
  obtain ⟨hsafe, hanswer, _⟩ := heap_safety hreach
  have hcall : heapCall s (.free 128) :=
    List.mem_map.1 (show 128 ∈ s.live.map fun b => b.ptr by rw [hlive]; decide)
  exact ⟨s, hlive, hsafe, hanswer _ hcall trivial⟩

/-- The tag of an aligned block 16 MiB above the descriptor refers to a place outside of all
chunks. -/
theorem heap_safety_high : ∃ s : HeapSys,
    Reach heapStep heapCall (HeapSys.init 0 fun _ => .zero) s ∧ ¬∃ free, HeapSafe s free := by
  have hv : (run heapStep (fun s a => decide (heapCall s a)) (HeapSys.init 0 fun _ => .zero)
      [.addmem (2 ^ 21) 1024, .mallocAligned 8 16]).map (fun s => s.live.map fun b =>
        (b, s.heap.hdrOf b.ptr, s.heap.size (s.heap.hdrOf b.ptr))) =
      some [(⟨2 ^ 21 + 126, 8, 16⟩, 124, 0)] := by decide +kernel
  obtain ⟨s, -, hlive, hr⟩ := run_map hv
  refine ⟨s, hr.mono fun hok => of_decide_eq_true hok, ?_⟩
  rintro ⟨free, hsafe⟩
  obtain ⟨b, hb, he⟩ := List.mem_map.1 (show (⟨2 ^ 21 + 126, 8, 16⟩, 124, 0) ∈ s.live.map
    fun b => (b, s.heap.hdrOf b.ptr, s.heap.size (s.heap.hdrOf b.ptr)) by
      rw [hlive]
      exact (.head _))
  obtain ⟨rfl, hhdr, hsize⟩ : b = ⟨2 ^ 21 + 126, 8, 16⟩ ∧ s.heap.hdrOf b.ptr = 124 ∧
      s.heap.size (s.heap.hdrOf b.ptr) = 0 := by
    simpa only [Prod.mk.injEq] using he
  have hin := (hsafe.inside _ hb).2
  rw [hsize, hhdr] at hin
  norm_num at hin

end MachinekitHal
