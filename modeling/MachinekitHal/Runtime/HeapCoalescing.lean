import MachinekitHal.Runtime.HeapAccounts

/-!
The free chunks of a heap of less than 16 MiB.

* `SmallOk`, `UseInv.mergeFits`: the conditions on the calls; in less than 16 MiB chunks can be
  merged.
* `Chunks.exists_of_run`: free units in a row are in one chunk.
* `UseInv.free_all`: all blocks can be freed, in any order.
* `heap_coalescing`: the free list in every state reached; `heap_coalescing_leak` is a chunk that
  was lost.
-/

namespace MachinekitHal

open Linking Runs

/-- The memory is less than 16 MiB. -/
def InSmall (s : HeapUse) : HeapOp → Prop
  | .addmem _ size => 8 * s.arena.length + size.toNat < 2 ^ 24
  | _ => True

/-- The conditions on the calls. -/
def SmallOk (s : HeapUse) (a : HeapOp) : Prop :=
  UseCall s a ∧ InSmall s a ∧ Unwrapped s a ∧ TagFits s a ∧ Returned s a

/-- The free chunks are the memory, each as long as it can be. -/
def OneChunkEach (r : RtapiHeap) (arena : List ℕ) : Prop :=
  (r.freeList.flatMap r.units).Perm arena ∧
    ∀ c ∈ r.freeList, c + r.size c ∉ arena ∧ ∀ u ∈ arena, u + 1 ≠ c

instance (s : HeapUse) (a : HeapOp) : Decidable (InSmall s a) :=
  match a with
  | .addmem .. => inferInstanceAs (Decidable (_ < _))
  | .malloc _ | .calloc .. | .mallocAligned .. | .free _ | .realloc .. | .write .. | .setflags _ =>
    .isTrue trivial

instance (s : HeapUse) (a : HeapOp) : Decidable (SmallOk s a) :=
  inferInstanceAs (Decidable (_ ∧ _))

variable {s t : HeapUse} {r : RtapiHeap} {fs ls arena : List ℕ} {a : HeapOp} {c d u m : ℕ}

/-! ### Free units in a row -/

namespace Chunks

/-- Free chunks have a gap between them. -/
lemma gap (hC : Chunks r fs ls arena) (hc : c ∈ fs) (hd : d ∈ fs) (hlt : c < d) :
    c + r.size c < d := by
  obtain ⟨lo, hi, rfl⟩ := List.append_of_mem hc
  have hsorted := (List.pairwise_cons.1 hC.sorted).2
  rcases List.mem_append.1 hd with hd | hd
  · have := (List.pairwise_append.1 hsorted).2.2 d hd c (.head _)
    omega
  · rcases List.mem_cons.1 hd with rfl | hd
    · omega
    · exact (List.pairwise_cons.1 (List.pairwise_append.1 hC.gaps).2.1).1 d hd

/-- What is behind a free chunk is not free. -/
lemma end_notMem_units (hC : Chunks r fs ls arena) (hc : c ∈ fs) :
    c + r.size c ∉ fs.flatMap r.units := by
  intro hin
  obtain ⟨d, hd, hcd⟩ := List.mem_flatMap.1 hin
  have hcd' := r.mem_units.1 hcd
  rcases lt_trichotomy c d with hlt | rfl | hlt
  · have := hC.gap hc hd hlt
    omega
  · omega
  · have := hC.gap hd hc hlt
    omega

/-- Free units in a row are in one chunk. -/
lemma exists_of_run (hC : Chunks r fs ls arena) (hm : 0 < m)
    (hrun : ∀ v ∈ List.range' u m, v ∈ fs.flatMap r.units) : ∃ c ∈ fs, m ≤ r.size c := by
  obtain ⟨c, hc, huc⟩ := List.mem_flatMap.1 (hrun u (List.mem_range'_1.2 ⟨le_refl u, by omega⟩))
  have huc' := r.mem_units.1 huc
  refine ⟨c, hc, ?_⟩
  by_contra hlt
  exact hC.end_notMem_units hc (hrun _ (List.mem_range'_1.2 ⟨by omega, by omega⟩))

/-- Without live chunks there is one free chunk for memory in a row. -/
lemma oneChunkEach (hC : Chunks r fs [] arena) (hA : Arenas arena) : OneChunkEach r arena := by
  rw [OneChunkEach, hC.freeList_eq hA]
  have hpart := hC.part
  rw [List.append_nil] at hpart
  refine ⟨hpart, fun c hc => ⟨fun hin => ?_, fun u hu huc => ?_⟩⟩
  · exact hC.end_notMem_units hc (hpart.mem_iff.2 hin)
  · obtain ⟨d, hd, hud⟩ := List.mem_flatMap.1 (hpart.mem_iff.2 hu)
    have hud' := r.mem_units.1 hud
    have := hC.gap hd hc (by omega)
    omega

end Chunks

/-! ### Less than 16 MiB -/

/-- In less than 16 MiB of memory chunks can be merged. -/
lemma UseInv.mergeFits (hI : UseInv s fs) (hsmall : s.arena.length < 2 ^ 21)
    (ha : SmallOk s a) : MergeFits s a := by
  have hA : Arena s.arena := ⟨hI.ok.arenas, hsmall⟩
  obtain ⟨hcall, hin, hwrap, _⟩ := ha
  cases a with
  | addmem space size =>
    rw [MergeFits, hI.freeList]
    have hlt : ∀ p ∈ 0 :: fs, s.heap.size p < 2 ^ 21 := fun p hp => by
      rcases List.mem_cons.1 hp with rfl | hp
      · rw [hI.ok.chunks.base]
        norm_num
      · exact hI.ok.chunks.size_lt hA (List.mem_append_left _ hp)
    have hsize : 8 * s.arena.length + size.toNat < 2 ^ 24 := hin
    intro p hp y hy _ _
    have h1 := hlt p hp
    have h2 := hlt y hy
    omega
  | free ptr =>
    obtain ⟨b, hb, rfl⟩ := hcall
    rw [MergeFits, hI.freeList, (hI.blocks b hb).headerAt]
    exact hI.ok.chunks.freeFits hA (List.mem_append_right _ (s.mem_taken hb))
  | realloc ptr n =>
    obtain ⟨b, hb, rfl⟩ := hcall
    rw [Unwrapped] at hwrap
    rw [MergeFits, (hI.blocks b hb).headerAt]
    refine or_iff_not_imp_left.2 fun hle => ?_
    rw [if_neg hle] at hwrap
    rcases s.heap.rtapiMalloc_plain hI.ok hwrap with hrun | ⟨q, g, hrun, hP⟩
    · rw [hrun]
      trivial
    · obtain ⟨fs', hC⟩ := hP.taken.chunks
      rw [hrun, MergeAfter, hC.freeList_eq hI.ok.arenas]
      exact hC.freeFits hA (List.mem_append_right _ (.tail _ (s.mem_taken hb)))
  | malloc _ => trivial
  | calloc _ _ => trivial
  | mallocAligned _ _ => trivial
  | write _ _ => trivial
  | setflags _ => trivial

/-- The memory stays less than 16 MiB. -/
lemma small_step (hsmall : s.arena.length < 2 ^ 21) (ha : InSmall s a)
    (ht : useStep s a = some t) : t.arena.length < 2 ^ 21 := by
  cases a with
  | addmem space size =>
    obtain ⟨h', _, rfl⟩ := returned_eq ht
    have hsize : 8 * s.arena.length + size.toNat < 2 ^ 24 := ha
    rw [HeapUse.arena_concat, List.length_append, List.length_range']
    omega
  | malloc n =>
    obtain ⟨⟨res, h'⟩, _, rfl⟩ := returned_eq ht
    cases res <;> exact hsmall
  | calloc nelem elsize =>
    obtain ⟨⟨res, h'⟩, _, rfl⟩ := returned_eq ht
    cases res <;> exact hsmall
  | mallocAligned n align =>
    obtain ⟨⟨res, h'⟩, _, rfl⟩ := returned_eq ht
    cases res <;> exact hsmall
  | free ptr =>
    obtain ⟨h', _, rfl⟩ := returned_eq ht
    exact hsmall
  | realloc ptr n =>
    obtain ⟨⟨res, h'⟩, _, rfl⟩ := returned_eq ht
    cases res with
    | none => exact hsmall
    | some p =>
      rw [HeapUse.obtainInstead]
      split_ifs <;> exact hsmall
  | write i v =>
    cases ht
    exact hsmall
  | setflags trim =>
    cases ht
    exact hsmall

/-- All blocks can be freed, in any order. -/
lemma UseInv.free_all (hI : UseInv s fs) (hsmall : s.arena.length < 2 ^ 21) {order : List ℕ}
    (horder : order.Perm (s.live.map fun b => b.ptr)) :
    ∃ t fs', run useStep (fun _ _ => true) s (order.map .free) = some t ∧ UseInv t fs' ∧
      t.live = [] ∧ t.lost = s.lost ∧ t.arenas = s.arenas := by
  induction order generalizing s fs with
  | nil => exact ⟨s, fs, rfl, hI, List.map_eq_nil_iff.1 horder.nil_eq.symm, rfl, rfl⟩
  | cons p order ih =>
    obtain ⟨b, hb, rfl⟩ := List.mem_map.1 (horder.mem_iff.1 (.head _))
    have hfit := hI.ok.chunks.freeFits ⟨hI.ok.arenas, hsmall⟩
      (List.mem_append_right _ (s.mem_taken hb))
    obtain ⟨h', hrun, ⟨fs', hI'⟩, _⟩ := hI.free hb hfit
    have hrest : order.Perm ((s.without b.ptr).map fun b => b.ptr) :=
      (horder.trans ((hI.without_perm hb).map fun b => b.ptr).symm).cons_inv
    obtain ⟨t, fs'', ht, hIt, hlive, hlost, harenas⟩ := ih hI' hsmall hrest
    refine ⟨t, fs'', ?_, hIt, hlive, hlost, harenas⟩
    rw [List.map_cons, run, if_pos rfl, useStep, hrun]
    exact ht

/-- In every state reached the free list is a ring in the order of the addresses, without two
free chunks that touch; a request finds no memory only if no free units in a row are enough for
it; and when all blocks are freed, in any order, memory in a row is one free chunk. -/
theorem heap_coalescing {addr : ℕ} (haddr : 8 * addr + 2 ^ 32 < 2 ^ 64) {mem : ℕ → MallocHdr}
    (hs : Reach useStep SmallOk (HeapUse.init addr mem) s) :
    (Path s.heap.next 0 s.heap.freeList 0 ∧ (0 :: s.heap.freeList).Pairwise (· < ·) ∧
      s.heap.freeList.Pairwise fun c d => c + s.heap.size c < d) ∧
    (∀ (n : BitVec 64) h', s.heap.rtapiMalloc n = .ok (none, h') →
      ¬ ∃ u, ∀ v ∈ List.range' u ((n.toNat + 7) / 8 + 1),
        v ∈ s.heap.freeList.flatMap s.heap.units) ∧
    ∀ order : List ℕ, order.Perm (s.live.map fun b => b.ptr) →
      ∃ t, run useStep (fun _ _ => true) s (order.map .free) = some t ∧ t.live = [] ∧
        OneChunkEach t.heap.toRtapiHeap s.arena := by
  obtain ⟨hsmall, hlost, fs, hI⟩ : s.arena.length < 2 ^ 21 ∧ s.lost = [] ∧ ∃ fs, UseInv s fs := by
    refine hs.invariant
      (P := fun s => s.arena.length < 2 ^ 21 ∧ s.lost = [] ∧ ∃ fs, UseInv s fs)
      ⟨by norm_num [HeapUse.init, HeapUse.arena], rfl, [], useInv_init haddr mem⟩ ?_
    rintro s a t ⟨hsmall, hlost, fs, hI⟩ ha ht
    have hok : UseOk s a := ⟨ha.1, ha.2.2.1, ha.2.2.2.1, hI.mergeFits hsmall ha⟩
    exact ⟨small_step hsmall ha.2.1 ht, (hI.lost_step hok ha.2.2.2.2 ht).trans hlost,
      (hI.step hok ht).1⟩
  rw [hI.freeList]
  refine ⟨⟨hI.ok.chunks.ring, hI.ok.chunks.sorted, hI.ok.chunks.gaps⟩, fun n h' hnone => ?_,
    fun order horder => ?_⟩
  · rintro ⟨u, hrun⟩
    obtain ⟨c, hc, hle⟩ := hI.ok.chunks.exists_of_run (Nat.succ_pos _) hrun
    rcases s.heap.rtapigMalloc_spec hI.ok n with ⟨_, hno⟩ | ⟨q, r, hmalloc, _⟩
    · have hlt := hno c (.tail _ hc)
      have hn : nunits n.toNat ≤ (n.toNat + 7) / 8 + 1 := by
        rw [nunits]
        have := Nat.mod_le (n.toNat + 7) (2 ^ 64)
        omega
      omega
    · rw [CountedHeap.rtapiMalloc, hmalloc] at hnone
      cases hnone
  · obtain ⟨t, fs', ht, hIt, hlive, hlost', harenas⟩ := hI.free_all hsmall horder
    refine ⟨t, ht, hlive, ?_⟩
    have htaken : t.taken = [] := by rw [HeapUse.taken, hlive, hlost', hlost]; rfl
    have harena : t.arena = s.arena := by rw [HeapUse.arena, harenas, HeapUse.arena]
    have hC := hIt.ok.chunks
    rw [htaken, harena] at hC
    exact hC.oneChunkEach hI.ok.arenas

/-- Three blocks that are freed in another order. -/
theorem heap_coalescing_run : ∃ s : HeapUse,
    s.live.map (fun b => b.ptr) = [1056, 1072, 1088] ∧
    ∃ t, run useStep (fun _ _ => true) s ([1072, 1088, 1056].map .free) = some t ∧ t.live = [] ∧
      OneChunkEach t.heap.toRtapiHeap s.arena := by
  have hv : (run useStep (fun s a => decide (SmallOk s a)) (HeapUse.init 0 fun _ => .zero)
      [.addmem 10 1024, .malloc 12, .malloc 5, .calloc 2 4]).map
        (fun s => s.live.map fun b => b.ptr) = some [1056, 1072, 1088] := by decide
  obtain ⟨s, -, hlive, hr⟩ := run_map hv
  refine ⟨s, hlive, (heap_coalescing (by norm_num)
    (hr.mono fun hok => of_decide_eq_true hok)).2.2 _ ?_⟩
  rw [hlive]
  decide

/-- A request with an alignment of one byte takes a chunk for good. -/
theorem heap_coalescing_leak : ∃ s : HeapUse,
    Reach useStep (fun s a => UseCall s a ∧ InSmall s a ∧ Unwrapped s a ∧ TagFits s a)
      (HeapUse.init 0 fun _ => .zero) s ∧
    s.live = [] ∧ ¬ OneChunkEach s.heap.toRtapiHeap s.arena := by
  have hv : (run useStep
      (fun s a => decide (UseCall s a ∧ InSmall s a ∧ Unwrapped s a ∧ TagFits s a))
      (HeapUse.init 0 fun _ => .zero) [.addmem 10 1024, .mallocAligned 8 1]).map (fun s =>
        (s.live, (s.heap.freeList.flatMap s.heap.units).length, s.arena.length)) =
      some ([], 125, 128) := by decide +kernel
  obtain ⟨s, -, he, hr⟩ := run_map hv
  obtain ⟨hlive, hlen⟩ := Prod.mk.inj he
  obtain ⟨hfree, harena⟩ := Prod.mk.inj hlen
  refine ⟨s, hr.mono fun hok => of_decide_eq_true hok, hlive, fun hone => ?_⟩
  have := hone.1.length_eq
  omega

end MachinekitHal
