import MachinekitHal.Runtime.HeapUse

/-!
What is stored in the size fields of tags.

* `freeStores`, `mallocStores`, `regionStores`, `HeapUse.tagStores`: the values that a call stores
  in size fields, as the code computes them, before they are cut to 24 bits.
* `Chunks.freeStores_lt`, `regionStores_lt`: they fit.
* `heap_tags`: no value is cut off in any state reached, the chunks have all of the memory, and
  the header of every block is found; `heap_tags_cut` is memory that is too big for a tag.
-/

namespace MachinekitHal

open Linking Runs

namespace RtapiHeap

variable (h : RtapiHeap)

/-- What `_rtapi_unlocked_free` stores in size fields. -/
def freeStores (bp : ℕ) : List ℕ :=
  match h.findPlace bp with
  | none => []
  | some p =>
    let g := h.joinUpper bp p
    (if bp + h.size bp = h.next p then [h.size bp + h.size (h.next p)] else []) ++
      if p + g.size p = bp then [g.size p + g.size bp] else []

/-- What `_rtapig_malloc` stores in size fields. -/
def mallocStores (nbytes : ℕ) : List ℕ :=
  let n := nunits nbytes
  match h.findFit n with
  | none => []
  | some prevp =>
    let p := h.next prevp
    if n < h.size p then [h.size p - n, n] else []

end RtapiHeap

namespace CountedHeap

variable (h : CountedHeap)

/-- What the second half of `rtapi_malloc_aligned` stores in size fields: the offset of the
region, and the sizes of the pieces where it is trimmed. -/
def regionStores (base : Option ℕ) (align : BitVec 64) : List ℕ :=
  let result := (h.address base + align) &&& -align
  let slack := result - h.address base
  if slack < 4 then []
  else
    match base with
    | none => []
    | some b =>
      let r := b + slack.toNat
      let this := b / 8 - 1
      if 8 * (this + h.size this) < r then []
      else
        let h := h.withHeap (h.setTag (r - 4) ⟨BitVec.ofNat 24 b, attrAligned⟩)
        let trim := ((align - slack) / 8).toNat
        b :: if h.trim ∧ 0 < trim ∧ trim ≤ h.size this then
          let new := this + (h.size this - trim)
          trim :: (h.size this - trim) ::
            (h.split this trim).freeStores ((h.split this trim).headerAt (8 * (new + 1)))
        else []

/-- What `rtapi_malloc_aligned` stores in size fields. -/
def alignedStores (n align : BitVec 64) : List ℕ :=
  if align &&& (align - 1) ≠ 0 then []
  else
    h.mallocStores (n + align).toNat ++
      match h.rtapigMalloc (n + align) with
      | .error _ => []
      | .ok (base, g) => g.regionStores base align

/-- What `rtapi_realloc` stores in size fields. -/
def reallocStores (ptr : ℕ) (n : BitVec 64) : List ℕ :=
  let sz := h.rtapiAllocsize ptr
  if n ≤ sz then []
  else
    h.mallocStores n.toNat ++
      match h.rtapiMalloc n with
      | .ok (some p, g) =>
        let g := g.withHeap (g.memcpy p ptr (if n < sz then n else sz).toNat)
        g.freeStores (g.headerAt ptr)
      | _ => []

/-- What `rtapi_heap_addmem` stores in size fields. -/
def addmemStores (space : ℕ) (size : BitVec 64) : List ℕ :=
  let clicks := size.toNat / 8
  let g := (h.zeroMem space size.toNat).setSize space clicks
  clicks :: g.freeStores (g.headerAt (8 * (space + 1)))

end CountedHeap

/-- What a call stores in size fields. -/
def HeapUse.tagStores (s : HeapUse) : HeapOp → List ℕ
  | .addmem space size => s.heap.addmemStores space size
  | .malloc n => s.heap.mallocStores n.toNat
  | .calloc nelem elsize => s.heap.mallocStores (nelem * elsize).toNat
  | .mallocAligned n align => s.heap.alignedStores n align
  | .free ptr => s.heap.freeStores (s.heap.headerAt ptr)
  | .realloc ptr n => s.heap.reallocStores ptr n
  | .write _ _ | .setflags _ => []

variable {r : RtapiHeap} {h : CountedHeap} {s : HeapUse} {fs ls arena : List ℕ} {b q v : ℕ}
  {a : HeapOp} {n align : BitVec 64}

/-- The pieces of a chunk fit. -/
lemma RtapiHeap.mallocStores_lt {nbytes : ℕ} (hv : v ∈ r.mallocStores nbytes) : v < 2 ^ 24 := by
  cases hfind : r.findFit (nunits nbytes) with
  | none =>
    simp only [mallocStores, hfind] at hv
    cases hv
  | some prevp =>
    simp only [mallocStores, hfind] at hv
    have hlt := r.size_lt (x := r.next prevp)
    split_ifs at hv with hn
    · rcases List.mem_cons.1 hv with rfl | hv
      · omega
      · obtain rfl := List.mem_singleton.1 hv
        omega
    · cases hv

/-- A merged chunk fits, if the chunks that touch are not too big. -/
lemma Chunks.freeStores_lt (hC : Chunks r fs (b :: ls) arena) (hA : Arenas arena)
    (hfit : r.FreeFits fs b (r.size b)) (hv : v ∈ r.freeStores b) : v < 2 ^ 24 := by
  obtain ⟨lo, hi, p, rfl, hlo, hhi, hp, hp0, hpb, hplace⟩ := hC.findPlace_live hA
  obtain ⟨_, y, hy, htouch, hsize⟩ := hC.joinUpper hA hlo hhi hp hfit
  have hsp : (r.joinUpper b p).size p = r.size p :=
    RtapiHeap.size_congr (RtapiHeap.joinUpper_mem hpb)
  simp only [RtapiHeap.freeStores, hplace, hsp, hsize] at hv
  rcases List.mem_append.1 hv with hv | hv
  · split_ifs at hv with hup
    · obtain rfl := List.mem_singleton.1 hv
      have := hfit 0 List.mem_cons_self _ (hC.next_mem hp0) (.inl rfl) (.inr hup)
      omega
    · cases hv
  · split_ifs at hv with hlow
    · obtain rfl := List.mem_singleton.1 hv
      have := hfit p hp0 y hy (.inr hlow) htouch
      omega
    · cases hv

namespace CountedHeap

/-- The tag of an aligned block and the pieces of its chunk fit, if it starts in the first
16 MiB. -/
lemma regionStores_lt {k : ℕ} (hok : HeapOk h.toRtapiHeap fs ls arena)
    (hk : align.toNat = 2 ^ k) (h2 : 2 ≤ k) (hlt : n.toNat + 2 ^ k + 7 < 2 ^ 64)
    (hT : Carved h.toRtapiHeap r ls arena q) (hsize : r.size q = nunits (n + align).toNat)
    (hfit : 8 * (q + 1) < 2 ^ 24)
    (hv : v ∈ (h.granted r (8 * (q + 1)) (n + align)).regionStores (some (8 * (q + 1))) align) :
    v < 2 ^ 24 := by
  have hm : (n + align).toNat = n.toNat + 2 ^ k := by
    rw [BitVec.toNat_add, hk, Nat.mod_eq_of_lt (by omega)]
  have hsz : r.size q = (n.toNat + 2 ^ k + 7) / 8 + 1 := by rw [hsize, hm, nunits_of_lt hlt]
  obtain ⟨slack, hS⟩ := slackAt hok hk h2 hT
  have hpos := hS.pos
  have hle := hS.le
  have h4 := Nat.le_of_dvd hpos hS.four
  obtain ⟨hTg, hgsize⟩ := hT.setTag (p := 8 * (q + 1) + slack) hok (by omega) (by omega)
    ⟨BitVec.ofNat 24 (8 * (q + 1)), attrAligned⟩
  obtain ⟨g, hg⟩ : ∃ g, r.setTag (8 * (q + 1) + slack - 4)
    ⟨BitVec.ofNat 24 (8 * (q + 1)), attrAligned⟩ = g := ⟨_, rfl⟩
  rw [hg] at hTg hgsize
  have hin : ¬ 8 * (q + r.size q) < 8 * (q + 1) + slack := by omega
  have hstores : (h.granted r (8 * (q + 1)) (n + align)).regionStores (some (8 * (q + 1))) align =
      8 * (q + 1) :: if g.trim ∧ 0 < (2 ^ k - slack) / 8 ∧ (2 ^ k - slack) / 8 ≤ g.size q then
        (2 ^ k - slack) / 8 :: (g.size q - (2 ^ k - slack) / 8) ::
          (g.split q ((2 ^ k - slack) / 8)).freeStores
            ((g.split q ((2 ^ k - slack) / 8)).headerAt
              (8 * (q + (g.size q - (2 ^ k - slack) / 8) + 1)))
      else [] := by
    rw [regionStores]
    simp only [granted_address hT, if_neg hS.not_lt, hS.toNat, hS.cut,
      show 8 * (q + 1) / 8 - 1 = q by omega]
    simp only [granted, withHeap, if_neg hin, hg]
  rw [hstores] at hv
  rcases List.mem_cons.1 hv with rfl | hv
  · exact hfit
  split_ifs at hv with hcut
  · obtain ⟨_, hcut, _⟩ := hcut
    have hlt24 := g.size_lt (x := q)
    rcases List.mem_cons.1 hv with rfl | hv
    · omega
    rcases List.mem_cons.1 hv with rfl | hv
    · omega
    · obtain ⟨fs', hC, htop⟩ := hTg.top
      have hcutlt : (2 ^ k - slack) / 8 < g.size q := by omega
      rw [RtapiHeap.headerAt_of_attr (RtapiHeap.split_attr hcutlt)] at hv
      exact (hC.split hok.arenas hcut hcutlt).freeStores_lt hok.arenas
        (hC.freeFits_split hok.arenas hcut hcutlt htop) hv
  · cases hv

/-- With an alignment that is too small nothing is stored in the region. -/
lemma regionStores_small (hok : HeapOk h.toRtapiHeap fs ls arena)
    (hpow : align &&& (align - 1) = 0) (h4 : align < 4)
    (hT : Carved h.toRtapiHeap r ls arena q) :
    (h.granted r (8 * (q + 1)) (n + align)).regionStores (some (8 * (q + 1))) align = [] := by
  have hbase := granted_address hT (n + align)
  rcases small_slack hok hpow h4 hT rfl with hslack | ⟨hslack, hwild⟩
  · simp only [regionStores, hbase, if_pos hslack]
  · simp only [regionStores, hbase, if_neg hslack, show 8 * (q + 1) / 8 - 1 = q by omega]
    exact if_pos hwild

lemma regionStores_none : h.regionStores none align = [] := by
  rw [regionStores]
  split_ifs <;> rfl

end CountedHeap

/-! ### The calls -/

lemma UseInv.alignedStores_lt (hI : UseInv s fs) (ha : UseOk s (.mallocAligned n align))
    (hv : v ∈ s.heap.alignedStores n align) : v < 2 ^ 24 := by
  obtain ⟨_, hwrap, htag, _⟩ := ha
  rw [CountedHeap.alignedStores] at hv
  split_ifs at hv with hpow
  · cases hv
  replace hpow := not_not.1 hpow
  rcases List.mem_append.1 hv with hv | hv
  · exact RtapiHeap.mallocStores_lt hv
  rcases s.heap.rtapigMalloc_spec hI.ok (n + align) with ⟨hnone, _⟩ |
    ⟨q, r, hmalloc, hT, hsize, _, _, c, _, hfirst, _, hq⟩
  · simp only [hnone, CountedHeap.regionStores_none] at hv
    cases hv
  simp only [hmalloc] at hv
  by_cases h4 : align < 4
  · rw [CountedHeap.regionStores_small hI.ok hpow h4 hT] at hv
    cases hv
  · have h0 : align ≠ 0 := by
      rintro rfl
      exact h4 (by decide)
    obtain ⟨k, _, hk⟩ := (Word.and_sub_one_eq_zero h0).1 hpow
    have h4' : 2 ^ 2 ≤ 2 ^ k := hk ▸ BitVec.le_def.1 (BitVec.not_lt.1 h4)
    have hlt := hwrap hpow c hfirst
    rw [hk] at hlt
    exact CountedHeap.regionStores_lt hI.ok hk ((Nat.pow_le_pow_iff_right (by norm_num)).1 h4')
      hlt hT hsize (hq ▸ htag hpow (BitVec.not_lt.1 h4) c hfirst) hv

lemma UseInv.addmemStores_lt {space : ℕ} {size : BitVec 64} (hI : UseInv s fs)
    (ha : UseOk s (.addmem space size)) (hv : v ∈ s.heap.addmemStores space size) :
    v < 2 ^ 24 := by
  obtain ⟨hcall, _, _, hmerge⟩ := ha
  rw [MergeFits, hI.freeList] at hmerge
  obtain ⟨hok, hfit, hsize, hhdr, _⟩ := CountedHeap.newMem_chunks hI.ok hcall.1 hcall.2.1
    (fun _ => hcall.notMem) hcall.2.2.1 hmerge rfl
  rcases List.mem_cons.1 hv with rfl | hv
  · have := hmerge 0 (.head _) 0 (.head _) (.inl rfl) (.inl rfl)
    omega
  · rw [hhdr] at hv
    exact hok.chunks.freeStores_lt hok.arenas hfit hv

lemma UseInv.freeStores_lt {ptr : ℕ} (hI : UseInv s fs) (ha : UseOk s (.free ptr))
    (hv : v ∈ s.heap.freeStores (s.heap.headerAt ptr)) : v < 2 ^ 24 := by
  obtain ⟨⟨b, hb, rfl⟩, _, _, hmerge⟩ := ha
  rw [(hI.blocks b hb).headerAt] at hv
  rw [MergeFits, hI.freeList, (hI.blocks b hb).headerAt] at hmerge
  exact (hI.ok.chunks.perm (hI.without hb)).freeStores_lt hI.ok.arenas hmerge hv

lemma UseInv.reallocStores_lt {ptr : ℕ} (hI : UseInv s fs) (ha : UseOk s (.realloc ptr n))
    (hv : v ∈ s.heap.reallocStores ptr n) : v < 2 ^ 24 := by
  obtain ⟨⟨b, hb, rfl⟩, hwrap, _, hmerge⟩ := ha
  have hhdr := (hI.blocks b hb).headerAt
  rw [Unwrapped] at hwrap
  rw [MergeFits, hhdr] at hmerge
  by_cases hle : n ≤ s.heap.rtapiAllocsize b.ptr
  · simp only [CountedHeap.reallocStores, if_pos hle] at hv
    cases hv
  rw [if_neg hle] at hwrap
  have hnot : ¬ n < s.heap.rtapiAllocsize b.ptr := fun hlt => hle (BitVec.le_of_lt hlt)
  simp only [CountedHeap.reallocStores, if_neg hle, if_neg hnot] at hv
  rcases List.mem_append.1 hv with hv | hv
  · exact RtapiHeap.mallocStores_lt hv
  have hok : HeapOk s.heap.toRtapiHeap fs
      (b.chunk :: ((s.without b.ptr).map (fun b => b.chunk) ++ s.lost)) s.arena :=
    ⟨hI.ok.chunks.perm (hI.without hb), hI.ok.arenas, hI.ok.addr⟩
  rcases s.heap.rtapiMalloc_plain hok hwrap with hrun | ⟨q, g, hrun, hP⟩
  · simp only [hrun] at hv
    cases hv
  · simp only [hrun] at hv
    obtain ⟨fs₁, _, hokc, hT, _, hfit⟩ :=
      hP.copied hok (BitVec.lt_def.1 (BitVec.not_le.1 hle)) b.ptr
    have hsame : ∀ x ∈ s.heap.units b.chunk,
        (g.memcpy (8 * (q + 1)) b.ptr (s.heap.rtapiAllocsize b.ptr).toNat).mem x = s.heap.mem x :=
      fun x hx => hT.same x (List.mem_flatMap.2 ⟨_, (.head _), hx⟩)
    have hhdr' : (g.memcpy (8 * (q + 1)) b.ptr (s.heap.rtapiAllocsize b.ptr).toNat).headerAt
        b.ptr = b.chunk := ((hI.blocks b hb).congr hsame).headerAt
    rw [hrun] at hmerge
    change v ∈ (g.memcpy (8 * (q + 1)) b.ptr (s.heap.rtapiAllocsize b.ptr).toNat).freeStores
      ((g.memcpy (8 * (q + 1)) b.ptr (s.heap.rtapiAllocsize b.ptr).toNat).headerAt b.ptr) at hv
    rw [hhdr'] at hv
    exact hokc.chunks.freeStores_lt hokc.arenas (hfit (hmerge.resolve_left hle)) hv

/-- What the calls store in size fields fits. -/
lemma UseInv.tagStores_lt (hI : UseInv s fs) (ha : UseOk s a) (hv : v ∈ s.tagStores a) :
    v < 2 ^ 24 := by
  cases a with
  | addmem space size => exact hI.addmemStores_lt ha hv
  | malloc n => exact RtapiHeap.mallocStores_lt hv
  | calloc nelem elsize => exact RtapiHeap.mallocStores_lt hv
  | mallocAligned n align => exact hI.alignedStores_lt ha hv
  | free ptr => exact hI.freeStores_lt ha hv
  | realloc ptr n => exact hI.reallocStores_lt ha hv
  | write _ _ => cases hv
  | setflags _ => cases hv

/-- In every state reached, what a call stores in a size field is read back unchanged; the chunks
have all of the memory, and the header of every block is that of the chunk it was allocated in. -/
theorem heap_tags {addr : ℕ} (haddr : 8 * addr + 2 ^ 32 < 2 ^ 64) {mem : ℕ → MallocHdr}
    (hs : Reach useStep UseOk (HeapUse.init addr mem) s) :
    (∀ a, UseOk s a → ∀ v ∈ s.tagStores a, (BitVec.ofNat 24 v).toNat = v) ∧
    ((s.heap.freeList ++ s.taken).flatMap s.heap.units).Perm s.arena ∧
    ∀ b ∈ s.live, s.heap.headerAt b.ptr = b.chunk := by
  obtain ⟨fs, hI⟩ := UseInv.reach haddr hs
  refine ⟨fun a ha v hv => ?_, ?_, fun b hb => (hI.blocks b hb).headerAt⟩
  · rw [BitVec.toNat_ofNat, Nat.mod_eq_of_lt (hI.tagStores_lt ha hv)]
  · rw [hI.freeList]
    exact hI.ok.chunks.part

/-- A run with an aligned block that is trimmed, and one that is freed. -/
theorem heap_tags_run : ∃ s : HeapUse, s.live.map (fun b => (b.ptr, b.chunk)) = [(1088, 128)] ∧
    (∀ a, UseOk s a → ∀ v ∈ s.tagStores a, (BitVec.ofNat 24 v).toNat = v) ∧
    ((s.heap.freeList ++ s.taken).flatMap s.heap.units).Perm s.arena ∧
    ∀ b ∈ s.live, s.heap.headerAt b.ptr = b.chunk := by
  have hv : (run useStep (fun s a => decide (UseOk s a)) (HeapUse.init 0 fun _ => .zero)
      [.setflags true, .addmem 10 1024, .mallocAligned 8 64, .mallocAligned 5 16,
        .free 1008]).map (fun s => s.live.map fun b => (b.ptr, b.chunk)) =
      some [(1088, 128)] := by decide
  obtain ⟨s, -, hlive, hr⟩ := run_map hv
  exact ⟨s, hlive, heap_tags (by norm_num)
    (hr.mono fun hok => of_decide_eq_true hok)⟩

/-- The size of 128 MiB does not fit the field, and `rtapi_heap_addmem` takes the memory. -/
theorem heap_tags_cut : ∃ s : HeapUse,
    Reach useStep UseOk (HeapUse.init 0 fun _ => .zero) s ∧
    UseCall s (.addmem 10 134217728) ∧ 2 ^ 24 ∈ s.tagStores (.addmem 10 134217728) ∧
    (BitVec.ofNat 24 (2 ^ 24)).toNat ≠ 2 ^ 24 := by
  exact ⟨_, .refl, by decide, (.head _), by decide⟩

end MachinekitHal
