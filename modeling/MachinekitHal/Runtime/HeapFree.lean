import MachinekitHal.Runtime.HeapChunks

/-!
Freeing a chunk of a heap.

A freed chunk is put between the chunks of the free list below and above it, and joined to
each of them that touches it.

* `Chunks.findPlace`: the search finds the last chunk below.
* `Joining`: the freed chunk in front of what follows it, not yet behind what precedes it;
  `Chunks.joinUpper` leads there and `Joining.joinLower` to the chunks afterwards.
* `Chunks.free`: the whole.
-/

namespace MachinekitHal

open Linking

/-- A list in ascending order around a number that is not in it. -/
lemma exists_around {l : List ℕ} {b : ℕ} (hl : l.Pairwise (· < ·)) (hb : b ∉ l) :
    ∃ lo hi, l = lo ++ hi ∧ (∀ x ∈ lo, x < b) ∧ ∀ x ∈ hi, b < x := by
  induction l with
  | nil => exact ⟨[], [], rfl, nofun, nofun⟩
  | cons x l ih =>
    rw [List.pairwise_cons] at hl
    rw [List.mem_cons, not_or] at hb
    rcases lt_or_gt_of_ne hb.1 with hx | hx
    · refine ⟨[], x :: l, rfl, nofun, fun y hy => ?_⟩
      rcases List.mem_cons.1 hy with rfl | hy
      · exact hx
      · exact hx.trans (hl.1 y hy)
    · obtain ⟨lo, hi, rfl, hlo, hhi⟩ := ih hl.2 hb.2
      refine ⟨x :: lo, hi, rfl, fun y hy => ?_, hhi⟩
      rcases List.mem_cons.1 hy with rfl | hy
      · exact hx
      · exact hlo y hy

/-- A chunk `b` that leads to the chunks `hi` above it, and is not yet on the free list. -/
structure Joining (h : RtapiHeap) (lo hi : List ℕ) (b : ℕ) (ls arena : List ℕ) : Prop where
  below : ∃ z, Path h.next 0 lo z
  above : Path h.next b hi 0
  sorted : (0 :: (lo ++ b :: hi)).Pairwise (· < ·)
  base : h.size 0 = 0
  pos : ∀ c ∈ lo ++ b :: hi ++ ls, 0 < h.size c
  part : ((lo ++ b :: hi ++ ls).flatMap h.units).Perm arena
  gaps : (lo ++ hi).Pairwise fun c d => c + h.size c < d
  gap : ∀ y ∈ hi, b + h.size b < y

/-- The free chunks `fs` that touch the `n` units from `b` on have less than `2 ^ 24` units with
them. The descriptor stands for none. -/
def RtapiHeap.FreeFits (h : RtapiHeap) (fs : List ℕ) (b n : ℕ) : Prop :=
  ∀ p ∈ 0 :: fs, ∀ y ∈ 0 :: fs, p = 0 ∨ p + h.size p = b → y = 0 ∨ b + n = y →
    h.size p + n + h.size y < 2 ^ 24
  deriving Decidable

variable {h : RtapiHeap} {lo hi fs ls arena : List ℕ} {b p x : ℕ}

/-- Only the sizes of the free chunks matter. -/
lemma RtapiHeap.FreeFits.congr {h' : RtapiHeap} {n : ℕ} (hfit : h.FreeFits fs b n)
    (hs : ∀ c ∈ 0 :: fs, h'.size c = h.size c) : h'.FreeFits fs b n := by
  intro p hp y hy hbelow habove
  rw [hs p hp] at hbelow ⊢
  rw [hs y hy]
  exact hfit p hp y hy hbelow habove

namespace Chunks

/-- The free list up to the place of a chunk. -/
lemma path_below (hC : Chunks h (lo ++ hi) ls arena) : ∃ z, Path h.next 0 lo z := by
  cases hi with
  | nil => exact ⟨0, by simpa using hC.ring⟩
  | cons y hi => exact ⟨y, (path_append.1 hC.ring).1⟩

/-- The search for the place of a chunk finds the last one below it. -/
lemma findPlace (hC : Chunks h (lo ++ hi) ls arena) (hA : Arenas arena) (hb : 0 < b)
    (hlo : ∀ x ∈ lo, x < b) (hhi : ∀ x ∈ hi, b < x) (hp : p = (0 :: lo).getLast (by simp)) :
    h.findPlace b = some p := by
  obtain ⟨ys, hring, hperm, hlen⟩ := hC.rotate hA
  have hplo : p ∈ 0 :: lo := hp ▸ List.getLast_mem _
  have hlt : ∀ x ∈ 0 :: lo, x < b := by
    intro x hx
    rcases List.mem_cons.1 hx with rfl | hx
    · exact hb
    · exact hlo x hx
  have hmem : ∀ x ∈ 0 :: lo, x ∈ 0 :: (lo ++ hi) := by
    intro x hx
    rcases List.mem_cons.1 hx with rfl | hx
    · exact (.head _)
    · exact .tail _ (List.mem_append_left _ hx)
  have hsub : (0 :: lo).Pairwise (· < ·) :=
    hC.sorted.sublist (List.Sublist.cons_cons 0 (List.sublist_append_left lo hi))
  refine seek_eq hring (hperm.mem_iff.2 (hmem p hplo)) ?_ ?_ hlen
  · -- the last chunk below leads to the first one above, or to the descriptor
    rw [decide_eq_true_iff]
    cases hi with
    | nil =>
      have hring0 := hC.ring
      rw [List.append_nil] at hring0
      have hlast : h.next p = 0 := hp ▸ hring0.last
      exact .inr ⟨by omega, .inl (hlt p hplo)⟩
    | cons y hi =>
      have hlast : h.next p = y := hp ▸ (path_append.1 hC.ring).1.last
      exact .inl ⟨hlt p hplo, hlast ▸ hhi y (.head _)⟩
  · intro x hx hxp
    rw [decide_eq_false_iff_not]
    have hx' := hperm.mem_iff.1 hx
    rw [← List.cons_append, List.mem_append] at hx'
    rcases hx' with hx' | hx'
    · -- another chunk below leads to a later one below
      obtain ⟨z, hz⟩ := hC.path_below
      obtain ⟨hnext, hgt⟩ := (hz.step hsub hx').resolve_left (hp ▸ hxp)
      have := hlo _ hnext
      omega
    · -- a chunk above leads to a later one, the last to the descriptor
      have hbx := hhi x hx'
      cases hi with
      | nil => cases hx'
      | cons y hi =>
        have hup := (path_append.1 hC.ring).2
        have hsup : (y :: hi).Pairwise (· < ·) :=
          hC.sorted.sublist ((List.sublist_append_right lo (y :: hi)).cons 0)
        rcases hup.step hsup hx' with hlast | ⟨_, hgt⟩
        · have h0 : h.next x = 0 := hlast ▸ hup.last
          omega
        · omega

/-- A chunk in its place on the sorted list. -/
lemma sorted_insert (hs : (0 :: (lo ++ hi)).Pairwise (· < ·)) (hb : 0 < b)
    (hlo : ∀ x ∈ lo, x < b) (hhi : ∀ x ∈ hi, b < x) :
    (0 :: (lo ++ b :: hi)).Pairwise (· < ·) := by
  rw [List.pairwise_cons, List.pairwise_append] at hs ⊢
  obtain ⟨h0, h1, h2, h3⟩ := hs
  refine ⟨?_, h1, List.pairwise_cons.2 ⟨hhi, h2⟩, ?_⟩
  · intro x hx
    rcases List.mem_append.1 hx with hx | hx
    · exact h0 x (List.mem_append_left _ hx)
    rcases List.mem_cons.1 hx with rfl | hx
    · exact hb
    · exact h0 x (List.mem_append_right _ hx)
  · intro x hx y hy
    rcases List.mem_cons.1 hy with rfl | hy
    · exact hlo x hx
    · exact h3 x hx y hy

/-- The last chunk below is not the freed one. -/
lemma ne_of_below (hb : 0 < b) (hlo : ∀ x ∈ lo, x < b) : ∀ x ∈ 0 :: lo, x ≠ b := by
  intro x hx
  rcases List.mem_cons.1 hx with rfl | hx
  · exact hb.ne
  · exact (hlo x hx).ne

/-- The freed chunk takes in the first chunk above it, which it touches. -/
lemma joinUpper_touching {y : ℕ} (hC : Chunks h (lo ++ y :: hi) (b :: ls) arena)
    (hA : Arenas arena) (hlo : ∀ x ∈ lo, x < b) (hhi : ∀ x ∈ y :: hi, b < x)
    (hjoin : h.joinUpper b p = (h.setSize b (h.size b + h.size y)).copyNext b y)
    (htouch : b + h.size b = y) (hfit : h.size b + h.size y < 2 ^ 24) :
    Joining (h.joinUpper b p) lo hi b ls arena ∧
      (h.joinUpper b p).size b = h.size b + h.size y := by
  have hball : b ∈ lo ++ y :: hi ++ b :: ls := List.mem_append_right _ (.head _)
  have hb0 : 0 < b := Nat.pos_of_ne_zero (hC.ne_zero hA hball)
  have hbpos : 0 < h.size b := hC.pos b hball
  have hnext : ∀ x, (h.joinUpper b p).next x = if x = b then h.next y else h.next x := by
    intro x
    rw [hjoin, RtapiHeap.next_copyNext, RtapiHeap.next_setSize, RtapiHeap.next_setSize]
  have hsize : ∀ x, (h.joinUpper b p).size x =
      if x = b then h.size b + h.size y else h.size x := by
    intro x
    rw [hjoin, RtapiHeap.size_copyNext, RtapiHeap.size_setSize _ (by omega)]
  have hperm : (lo ++ y :: hi ++ b :: ls).Perm (b :: y :: (lo ++ hi ++ ls)) := by
    refine List.perm_middle.trans (List.Perm.cons b ?_)
    rw [List.append_assoc, List.append_assoc]
    exact List.perm_middle
  have hperm' : (lo ++ b :: hi ++ ls).Perm (b :: (lo ++ hi ++ ls)) := by
    rw [List.append_assoc, List.append_assoc]
    exact List.perm_middle
  have hrest : ∀ c ∈ lo ++ hi ++ ls, c ≠ b := by
    rintro c hc rfl
    have hnd := hperm.nodup_iff.1 (hC.nodup hA)
    exact (List.nodup_cons.1 hnd).1 (.tail _ hc)
  obtain ⟨z, hz⟩ := hC.path_below
  have hgap : ∀ w ∈ hi, y + h.size y < w :=
    (List.pairwise_cons.1 (List.pairwise_append.1 hC.gaps).2.1).1
  refine ⟨⟨⟨z, hz.congr fun x hx => ?_⟩, ?_, ?_, ?_, ?_, ?_, ?_, fun w hw => ?_⟩,
    by rw [hsize, if_pos rfl]⟩
  · rw [hnext, if_neg (ne_of_below hb0 hlo x hx)]
  · have hupper : Path h.next y ([] ++ hi) 0 := (path_append.1 hC.ring).2
    refine hupper.fork (p := y) rfl (by rw [hnext, if_pos rfl]) fun c hc => ?_
    rw [hnext, if_neg (hhi c (.tail _ hc)).ne']
  · refine (sorted_insert hC.sorted hb0 hlo hhi).sublist
      (List.Sublist.cons_cons 0 (List.Sublist.append_left ?_ lo))
    exact (List.sublist_cons_self y hi).cons_cons b
  · rw [hsize, if_neg hb0.ne]
    exact hC.base
  · intro c hc
    rcases List.mem_cons.1 (hperm'.mem_iff.1 hc) with rfl | hc
    · rw [hsize, if_pos rfl]
      omega
    · rw [hsize, if_neg (hrest c hc)]
      exact hC.pos c (hperm.mem_iff.2 (.tail _ (.tail _ hc)))
  · refine (flatMap_merge hperm hperm' htouch (by rw [hsize, if_pos rfl]) ?_).trans hC.part
    intro c hc
    rw [hsize, if_neg (hrest c hc)]
  · refine gaps_congr (hC.gaps.sublist ((List.sublist_cons_self y hi).append_left lo))
      fun c hc => ?_
    rw [hsize, if_neg (hrest c (List.mem_append_left _ hc))]
  · have hw' := hgap w hw
    rw [hsize, if_pos rfl]
    omega

/-- The freed chunk in front of the chunks above it, the first of which it does not touch. -/
lemma joinUpper_apart (hC : Chunks h (lo ++ hi) (b :: ls) arena) (hA : Arenas arena)
    (hlo : ∀ x ∈ lo, x < b) (hhi : ∀ x ∈ hi, b < x) (hp : p = (0 :: lo).getLast (by simp))
    (hup : b + h.size b ≠ h.next p) : Joining (h.copyNext b p) lo hi b ls arena := by
  have hball : b ∈ lo ++ hi ++ b :: ls := List.mem_append_right _ (.head _)
  have hb0 : 0 < b := Nat.pos_of_ne_zero (hC.ne_zero hA hball)
  have hperm : (lo ++ b :: hi ++ ls).Perm (lo ++ hi ++ b :: ls) := by
    rw [List.append_assoc, List.append_assoc]
    refine List.Perm.append_left lo ?_
    exact List.perm_middle.symm
  obtain ⟨z, hz⟩ := hC.path_below
  refine ⟨⟨z, hz.congr fun x hx => ?_⟩, ?_, sorted_insert hC.sorted hb0 hlo hhi, ?_, ?_, ?_, ?_,
    fun w hw => ?_⟩
  · rw [RtapiHeap.next_copyNext, if_neg (ne_of_below hb0 hlo x hx)]
  · refine hC.ring.fork hp (by rw [RtapiHeap.next_copyNext, if_pos rfl]) fun y hy => ?_
    rw [RtapiHeap.next_copyNext, if_neg (hhi y hy).ne']
  · rw [RtapiHeap.size_copyNext]
    exact hC.base
  · intro c hc
    rw [RtapiHeap.size_copyNext]
    exact hC.pos c (hperm.mem_iff.1 hc)
  · rw [flatMap_units fun c _ => RtapiHeap.size_copyNext h]
    exact (hperm.flatMap_right _).trans hC.part
  · exact gaps_congr hC.gaps fun c _ => (RtapiHeap.size_copyNext h).le
  · rw [RtapiHeap.size_copyNext]
    have hend : ∀ w ∈ hi, b + h.size b ≤ w := fun w hw =>
      have hw' : w ∈ lo ++ hi ++ b :: ls :=
        List.mem_append_left _ (List.mem_append_right _ hw)
      end_le_of_part hC.part hA hball hw' (hC.pos w hw') (hhi w hw)
    cases hi with
    | nil => cases hw
    | cons y hi =>
      -- the first chunk above does not touch, the others are behind it
      have hlast : h.next p = y := hp ▸ (path_append.1 hC.ring).1.last
      have hy := lt_of_le_of_ne (hend y (.head _)) (hlast ▸ hup)
      rcases List.mem_cons.1 hw with rfl | hw
      · exact hy
      · have hs := (List.pairwise_append.1 (List.pairwise_cons.1 hC.sorted).2).2.1
        exact hy.trans ((List.pairwise_cons.1 hs).1 w hw)

/-- The freed chunk leads to the chunks above it, and has taken in the first of them if the
two touch. -/
lemma joinUpper (hC : Chunks h (lo ++ hi) (b :: ls) arena) (hA : Arenas arena)
    (hlo : ∀ x ∈ lo, x < b) (hhi : ∀ x ∈ hi, b < x) (hp : p = (0 :: lo).getLast (by simp))
    (hfit : h.FreeFits (lo ++ hi) b (h.size b)) :
    (∃ hi', Joining (h.joinUpper b p) lo hi' b ls arena) ∧
      ∃ y ∈ 0 :: (lo ++ hi), (y = 0 ∨ b + h.size b = y) ∧
        (h.joinUpper b p).size b = h.size b + h.size y := by
  by_cases hup : b + h.size b = h.next p
  · -- the first chunk above is there, and touches
    obtain ⟨y, hi, rfl⟩ : ∃ y hi', hi = y :: hi' := by
      cases hi with
      | nil =>
        have hbpos := hC.pos b (List.mem_append_right _ (.head _))
        have hring := hC.ring
        rw [List.append_nil] at hring
        have hlast : h.next p = 0 := hp ▸ hring.last
        omega
      | cons y hi => exact ⟨y, hi, rfl⟩
    have hlast : h.next p = y := hp ▸ (path_append.1 hC.ring).1.last
    have hjoin : h.joinUpper b p = (h.setSize b (h.size b + h.size y)).copyNext b y := by
      rw [RtapiHeap.joinUpper, if_pos hup, hlast]
    have hyfs : y ∈ 0 :: (lo ++ y :: hi) :=
      .tail _ (List.mem_append_right _ (.head _))
    have htouch := hup.trans hlast
    have hfit' := hfit 0 (.head _) y hyfs (.inl rfl) (.inr htouch)
    obtain ⟨hjoined, hsize⟩ := hC.joinUpper_touching hA hlo hhi hjoin htouch (by omega)
    exact ⟨⟨hi, hjoined⟩, y, hyfs, .inr htouch, hsize⟩
  · have hjoin : h.joinUpper b p = h.copyNext b p := by rw [RtapiHeap.joinUpper, if_neg hup]
    rw [hjoin]
    refine ⟨⟨hi, hC.joinUpper_apart hA hlo hhi hp hup⟩, 0, (.head _), .inl rfl, ?_⟩
    rw [RtapiHeap.size_copyNext, hC.base, Nat.add_zero]

end Chunks

/-- A chunk below that does not touch ends before the freed one. -/
lemma Joining.lower_lt (hJ : Joining h lo hi b ls arena) (hA : Arenas arena) {c : ℕ}
    (hc : c ∈ lo)
    (hlow : (0 :: lo).getLast (by simp) + h.size ((0 :: lo).getLast (by simp)) ≠ b) :
    c + h.size c < b := by
  have hmem : ∀ d ∈ lo, d ∈ lo ++ b :: hi ++ ls := fun d hd =>
    List.mem_append_left _ (List.mem_append_left _ hd)
  have hball : b ∈ lo ++ b :: hi ++ ls :=
    List.mem_append_left _ (List.mem_append_right _ (.head _))
  have hlt : ∀ d ∈ lo, d < b := fun d hd =>
    (List.pairwise_append.1 (List.pairwise_cons.1 hJ.sorted).2).2.2 d hd b (.head _)
  rcases List.eq_nil_or_concat lo with rfl | ⟨lo', q, rfl⟩
  · cases hc
  · rw [List.concat_eq_append] at *
    have hq : q ∈ lo' ++ [q] := List.mem_append_right _ (List.mem_singleton.2 rfl)
    have hend := Chunks.end_le_of_part hJ.part hA (hmem q hq) hball (hJ.pos b hball) (hlt q hq)
    have hlast : (0 :: (lo' ++ [q])).getLast (by simp) = q := by simp
    rw [hlast] at hlow
    have hgaps := (List.pairwise_append.1 (List.pairwise_append.1 hJ.gaps).1).2.2
    rcases List.mem_append.1 hc with hc | hc
    · exact (hgaps c hc q (List.mem_singleton.2 rfl)).trans (hlt q hq)
    · obtain rfl := List.mem_singleton.1 hc
      exact lt_of_le_of_ne hend hlow

namespace Joining

lemma mem_self : b ∈ lo ++ b :: hi ++ ls :=
  List.mem_append_left _ (List.mem_append_right _ (.head _))

/-- The freed chunk is in the arena. -/
lemma mem_arena (hJ : Joining h lo hi b ls arena) : b ∈ arena :=
  hJ.part.mem_iff.1 (List.mem_flatMap.2 ⟨b, mem_self, h.mem_units.2 ⟨le_refl b, by
    have := hJ.pos b mem_self
    omega⟩⟩)

lemma nodup_below (hJ : Joining h lo hi b ls arena) : (0 :: lo).Nodup := by
  have hnd : (0 :: (lo ++ b :: hi)).Nodup := hJ.sorted.imp fun h => h.ne
  exact hnd.sublist (List.sublist_append_left (0 :: lo) (b :: hi))

/-- What is above is not below. -/
lemma above_ne (hJ : Joining h lo hi b ls arena) (hp : p ∈ 0 :: lo) : ∀ y ∈ b :: hi, y ≠ p := by
  rintro y hy rfl
  have hnd : ((0 :: lo) ++ (b :: hi)).Nodup := hJ.sorted.imp fun h => h.ne
  exact List.disjoint_of_nodup_append hnd hp hy

/-- The chunk below takes in the freed one, which it touches. -/
lemma joinLower_touching (hJ : Joining h (lo ++ [p]) hi b ls arena) (hA : Arenas arena)
    (hp0 : p ≠ 0) (hlow : p + h.size p = b) (hfit : h.size p + h.size b < 2 ^ 24) :
    Chunks { h.joinLower b p with freeP := p } (lo ++ [p] ++ hi) ls arena := by
  obtain ⟨z, hz⟩ := hJ.below
  have hp : p = (0 :: (lo ++ [p])).getLast (by simp) := by simp
  have hpup := hJ.above_ne (hp ▸ List.getLast_mem _)
  have hjoin : h.joinLower b p = (h.setSize p (h.size p + h.size b)).copyNext p b := by
    rw [RtapiHeap.joinLower, if_pos hlow]
  have hpall : p ∈ lo ++ [p] ++ b :: hi ++ ls :=
    List.mem_append_left _ (List.mem_append_left _ (List.mem_append_right _
      (List.mem_singleton.2 rfl)))
  have hnext : ∀ x, (h.joinLower b p).next x = if x = p then h.next b else h.next x := by
    intro x
    rw [hjoin, RtapiHeap.next_copyNext, RtapiHeap.next_setSize, RtapiHeap.next_setSize]
  have hsize : ∀ x, (h.joinLower b p).size x =
      if x = p then h.size p + h.size b else h.size x := by
    intro x
    rw [hjoin, RtapiHeap.size_copyNext, RtapiHeap.size_setSize _ (by omega)]
  have hperm : (lo ++ [p] ++ b :: hi ++ ls).Perm (p :: b :: (lo ++ hi ++ ls)) := by
    have hlists : lo ++ [p] ++ b :: hi ++ ls = lo ++ p :: (b :: (hi ++ ls)) := by simp
    rw [hlists, List.append_assoc]
    exact List.perm_middle.trans (List.Perm.cons p List.perm_middle)
  have hperm' : (lo ++ [p] ++ hi ++ ls).Perm (p :: (lo ++ hi ++ ls)) := by
    have hlists : lo ++ [p] ++ hi ++ ls = lo ++ p :: (hi ++ ls) := by simp
    rw [hlists, List.append_assoc]
    exact List.perm_middle
  have hrest : ∀ c ∈ lo ++ hi ++ ls, c ≠ p := by
    rintro c hc rfl
    have hnd := hperm.nodup_iff.1 (Chunks.nodup_of_part hJ.part hA hJ.pos)
    exact (List.nodup_cons.1 hnd).1 (.tail _ hc)
  refine ⟨?_, ?_, ?_, ?_, ?_, ?_, ?_⟩
  · refine hz.splice hp hJ.nodup_below hJ.above (fun x _ hx => (hnext x).trans (if_neg hx))
      (fun y hy => ?_) ((hnext p).trans (if_pos rfl))
    exact (hnext y).trans (if_neg (hpup y (.tail _ hy)))
  · exact hJ.sorted.sublist (List.Sublist.cons_cons 0
      ((List.sublist_cons_self b hi).append_left _))
  · exact .tail _ (List.mem_append_left _ (List.mem_append_right _
      (List.mem_singleton.2 rfl)))
  · exact ((hsize 0).trans (if_neg hp0.symm)).trans hJ.base
  · intro c hc
    rcases List.mem_cons.1 (hperm'.mem_iff.1 hc) with rfl | hc
    · exact lt_of_lt_of_eq (by have := hJ.pos c hpall; omega) ((hsize c).trans (if_pos rfl)).symm
    · refine lt_of_lt_of_eq (hJ.pos c ?_) ((hsize c).trans (if_neg (hrest c hc))).symm
      exact hperm.mem_iff.2 (.tail _ (.tail _ hc))
  · refine (Chunks.flatMap_merge hperm hperm' hlow ((hsize p).trans (if_pos rfl)) ?_).trans
      hJ.part
    exact fun c hc => (hsize c).trans (if_neg (hrest c hc))
  · have hsame : ∀ c ∈ lo ++ hi, (h.joinLower b p).size c = h.size c := fun c hc =>
      (hsize c).trans (if_neg (hrest c (List.mem_append_left _ hc)))
    have hgaps := hJ.gaps
    rw [List.append_assoc, List.pairwise_append, List.singleton_append,
      List.pairwise_cons] at hgaps ⊢
    obtain ⟨h1, ⟨_, h3⟩, h4⟩ := hgaps
    refine ⟨Chunks.gaps_congr h1 fun c hc => (hsame c (List.mem_append_left _ hc)).le,
      ⟨fun y hy => ?_, Chunks.gaps_congr h3 fun c hc =>
        (hsame c (List.mem_append_right _ hc)).le⟩, fun c hc y hy => ?_⟩
    · have hgap := hJ.gap y hy
      have hsp : (h.joinLower b p).size p = h.size p + h.size b :=
        (hsize p).trans (if_pos rfl)
      exact lt_of_eq_of_lt (congrArg (p + ·) hsp) (by omega)
    · exact lt_of_eq_of_lt (congrArg (c + ·) (hsame c (List.mem_append_left _ hc)))
        (h4 c hc y hy)

/-- The freed chunk behind what precedes it, which it does not touch. -/
lemma joinLower_apart (hJ : Joining h lo hi b ls arena) (hA : Arenas arena)
    (hp : p = (0 :: lo).getLast (by simp)) (hlow : p + h.size p ≠ b) :
    Chunks { h.joinLower b p with freeP := p } (lo ++ b :: hi) ls arena := by
  obtain ⟨z, hz⟩ := hJ.below
  have hplo : p ∈ 0 :: lo := hp ▸ List.getLast_mem _
  have hjoin : h.joinLower b p = h.setNext p b := by rw [RtapiHeap.joinLower, if_neg hlow]
  have hnext : ∀ x, (h.joinLower b p).next x = if x = p then b else h.next x := by
    intro x
    rw [hjoin, h.next_setNext (hA.below b hJ.mem_arena)]
  have hsize : ∀ x, (h.joinLower b p).size x = h.size x := by
    intro x
    rw [hjoin, RtapiHeap.size_setNext]
  refine ⟨?_, hJ.sorted, ?_, (hsize 0).trans hJ.base, ?_, ?_, ?_⟩
  · refine path_append.2
      ⟨hz.setLast hp hJ.nodup_below (fun x _ hx => ?_) ?_, hJ.above.congr ?_⟩
    · exact (hnext x).trans (if_neg hx)
    · exact (hnext p).trans (if_pos rfl)
    · exact fun y hy => (hnext y).trans (if_neg (hJ.above_ne hplo y hy))
  · rcases List.mem_cons.1 hplo with h0 | hplo
    · exact h0 ▸ (.head _)
    · exact .tail _ (List.mem_append_left _ hplo)
  · exact fun c hc => lt_of_lt_of_eq (hJ.pos c hc) (hsize c).symm
  · exact (List.Perm.of_eq (Chunks.flatMap_units fun c _ => hsize c)).trans hJ.part
  · refine Chunks.gaps_congr ?_ fun c _ => (hsize c).le
    obtain ⟨h1, h2, h3⟩ := List.pairwise_append.1 hJ.gaps
    refine List.pairwise_append.2 ⟨h1, List.pairwise_cons.2 ⟨hJ.gap, h2⟩, fun c hc y hy => ?_⟩
    have hcb := hJ.lower_lt hA hc (hp ▸ hlow)
    rcases List.mem_cons.1 hy with rfl | hy
    · exact hcb
    · exact h3 c hc y hy

/-- The chunk behind what precedes it on the free list, or joined to it. -/
lemma joinLower (hJ : Joining h lo hi b ls arena) (hA : Arenas arena)
    (hp : p = (0 :: lo).getLast (by simp))
    (hfit : p + h.size p = b → h.size p + h.size b < 2 ^ 24) :
    ∃ fs, Chunks { h.joinLower b p with freeP := p } fs ls arena := by
  by_cases hlow : p + h.size p = b
  · have hp0 : p ≠ 0 := by
      rintro rfl
      have hb0 := hA.above b hJ.mem_arena
      rw [hJ.base] at hlow
      rw [sizeofRtapiHeap] at hb0
      omega
    obtain ⟨lo', rfl⟩ : ∃ lo', lo = lo' ++ [p] := by
      rcases List.eq_nil_or_concat lo with rfl | ⟨lo', q, rfl⟩
      · exact absurd hp hp0
      · refine ⟨lo', ?_⟩
        rw [List.concat_eq_append] at hp ⊢
        rw [hp]
        simp
    exact ⟨_, hJ.joinLower_touching hA hp0 hlow (hfit hlow)⟩
  · exact ⟨_, hJ.joinLower_apart hA hp hlow⟩

end Joining

namespace RtapiHeap

/-- `joinUpper` stores to the freed chunk. -/
lemma joinUpper_mem (hx : x ≠ b) : (h.joinUpper b p).mem x = h.mem x := by
  rw [joinUpper]
  split
  · exact ((h.setSize b _).mem_write_of_ne _ hx).trans (h.mem_write_of_ne _ hx)
  · exact h.mem_write_of_ne _ hx

/-- `joinLower` stores to the chunk below. -/
lemma joinLower_mem (hx : x ≠ p) : (h.joinLower b p).mem x = h.mem x := by
  rw [joinLower]
  split
  · exact ((h.setSize p _).mem_write_of_ne _ hx).trans (h.mem_write_of_ne _ hx)
  · exact h.mem_write_of_ne _ hx

end RtapiHeap

namespace Chunks

/-- The freed chunk is put behind a chunk on the free list. -/
lemma findPlace_live (hC : Chunks h fs (b :: ls) arena) (hA : Arenas arena) :
    ∃ lo hi p, fs = lo ++ hi ∧ (∀ x ∈ lo, x < b) ∧ (∀ x ∈ hi, b < x) ∧
      p = (0 :: lo).getLast (by simp) ∧ p ∈ 0 :: fs ∧ p ≠ b ∧ h.findPlace b = some p := by
  have hball : b ∈ fs ++ b :: ls := List.mem_append_right _ (.head _)
  have hbfs : b ∉ fs := fun hin =>
    List.disjoint_of_nodup_append (hC.nodup hA) hin (.head _)
  obtain ⟨lo, hi, rfl, hlo, hhi⟩ := exists_around (List.pairwise_cons.1 hC.sorted).2 hbfs
  obtain ⟨p, hp⟩ : ∃ p, p = (0 :: lo).getLast (by simp) := ⟨_, rfl⟩
  have hb0 : 0 < b := Nat.pos_of_ne_zero (hC.ne_zero hA hball)
  have hplo : p ∈ 0 :: lo := hp ▸ List.getLast_mem _
  refine ⟨lo, hi, p, rfl, hlo, hhi, hp, ?_, ?_, hC.findPlace hA hb0 hlo hhi hp⟩
  · rcases List.mem_cons.1 hplo with h0 | hplo
    · exact h0 ▸ (.head _)
    · exact .tail _ (List.mem_append_left _ hplo)
  · rcases List.mem_cons.1 hplo with rfl | hplo
    · exact hb0.ne
    · exact (hlo p hplo).ne

/-- Freeing a live chunk leaves everything in the other live chunks as it was. -/
lemma free_frame (hC : Chunks h fs (b :: ls) arena) (hA : Arenas arena) :
    ∃ h', h.freeChunk b = some h' ∧ ∀ x ∈ ls.flatMap h.units, h'.mem x = h.mem x := by
  obtain ⟨lo, hi, p, _, _, _, _, hp, _, hplace⟩ := hC.findPlace_live hA
  refine ⟨_, by rw [RtapiHeap.freeChunk, hplace]; rfl, fun x hx => ?_⟩
  -- only the freed chunk and the one below it were written to
  have hball : b ∈ fs ++ b :: ls := List.mem_append_right _ (.head _)
  have hxb : x ≠ b := by
    rintro rfl
    obtain ⟨d, hd, hxd⟩ := List.mem_flatMap.1 hx
    have hdall : d ∈ fs ++ x :: ls := List.mem_append_right _ (.tail _ hd)
    obtain rfl := hC.eq_of_mem hA hball hdall (hC.self_mem hball) hxd
    exact (List.nodup_cons.1 (List.nodup_append.1 (hC.nodup hA)).2.1).1 hd
  have hxp : x ≠ p := by
    have hx' : x ∈ (b :: ls).flatMap h.units := by
      rw [List.flatMap_cons]
      exact List.mem_append_right _ hx
    exact hC.live_ne_ring hA hx' hp
  exact (RtapiHeap.joinLower_mem hxp).trans (RtapiHeap.joinUpper_mem hxb)

end Chunks

/-- Freeing a live chunk: the other live chunks are still live, with everything in them as
it was. -/
theorem Chunks.free (hC : Chunks h fs (b :: ls) arena) (hA : Arenas arena)
    (hfit : h.FreeFits fs b (h.size b)) : ∃ h' fs', h.freeChunk b = some h' ∧
      Chunks h' fs' ls arena ∧ ∀ x ∈ ls.flatMap h.units, h'.mem x = h.mem x := by
  obtain ⟨h', hfree, hsame⟩ := hC.free_frame hA
  obtain ⟨lo, hi, p, rfl, hlo, hhi, hp, hp0, hpb, hplace⟩ := hC.findPlace_live hA
  obtain ⟨⟨hi', hJ⟩, y, hy, htouch, hsize⟩ := hC.joinUpper hA hlo hhi hp hfit
  have hsp : (h.joinUpper b p).size p = h.size p :=
    RtapiHeap.size_congr (RtapiHeap.joinUpper_mem hpb)
  obtain ⟨fs', hC'⟩ := hJ.joinLower hA hp fun hlow => by
    rw [hsp] at hlow ⊢
    rw [hsize, ← Nat.add_assoc]
    exact hfit p hp0 y hy (.inr hlow) htouch
  refine ⟨h', fs', hfree, ?_, hsame⟩
  rw [RtapiHeap.freeChunk, hplace] at hfree
  exact Option.some.inj hfree ▸ hC'

/-- In less than 16 MiB of memory every chunk can be freed. -/
lemma Chunks.freeFits (hC : Chunks h fs ls arena) (hA : Arena arena) (hb : b ∈ fs ++ ls) :
    h.FreeFits fs b (h.size b) := by
  have hsmall : ∀ c ∈ 0 :: fs, h.size c < 2 ^ 21 := fun c hc => by
    rcases List.mem_cons.1 hc with rfl | hc
    · rw [hC.base]
      norm_num
    · exact hC.size_lt hA (List.mem_append_left _ hc)
  intro p hp y hy _ _
  have h1 := hsmall p hp
  have h2 := hsmall y hy
  have h3 := hC.size_lt hA hb
  omega

end MachinekitHal
