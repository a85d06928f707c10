import MachinekitHal.Lib.Store

/-!
Records with a reference counter of fixed width.

A record has a key, a counter of `w` bits and a flag that says whether it is live. Beside
the list of records stands the number `n k` of outstanding references to the record with
key `k`, which the counter can only hold modulo `2 ^ w`.

* `Counted`: the counters are the numbers of references modulo `2 ^ w`, and only live
  records are referenced.
* `Counted.take`, `Counted.give`, `Counted.insert`, `Counted.sweep`: the operations keep
  this.
* `Counted.release`: so does releasing a record whose counter is zero, provided the number
  of references to it is not a positive multiple of `2 ^ w`.
* `Counted.zero_iff`: this proviso is exactly what makes a zero counter mean that there are
  no references.
-/

namespace Refcount

open Store

variable {β : Type*} {w : ℕ} {key : β → ℕ} {cnt : β → BitVec w} {live : β → Bool}
  {l l' : List β} {n : ℕ → ℕ} {k : ℕ} {f : β → β}

/-- The number of references after one to `k` was taken. -/
def take (n : ℕ → ℕ) (k : ℕ) : ℕ → ℕ := Function.update n k (n k + 1)

/-- The number of references after one to `k` was given back. -/
def give (n : ℕ → ℕ) (k : ℕ) : ℕ → ℕ := Function.update n k (n k - 1)

@[simp] lemma take_self : take n k k = n k + 1 := Function.update_self ..

@[simp] lemma give_self : give n k k = n k - 1 := Function.update_self ..

lemma take_of_ne {j : ℕ} (h : j ≠ k) : take n k j = n j := Function.update_of_ne h ..

lemma give_of_ne {j : ℕ} (h : j ≠ k) : give n k j = n j := Function.update_of_ne h ..

/-- Taking a reference drops none. -/
lemma le_take (n : ℕ → ℕ) (k j : ℕ) : n j ≤ take n k j := by
  by_cases h : j = k
  · rw [h, take_self]
    omega
  · rw [take_of_ne h]

/-- The counters count the references modulo `2 ^ w`, and what is referenced is live. -/
structure Counted (key : β → ℕ) (cnt : β → BitVec w) (live : β → Bool) (l : List β)
    (n : ℕ → ℕ) : Prop where
  keys : (l.map key).Nodup
  count : ∀ b ∈ l, live b = true → cnt b = BitVec.ofNat w (n (key b))
  live : ∀ k, 0 < n k → ∃ b ∈ l, key b = k ∧ live b = true

namespace Counted

/-- A zero counter means that there are no references exactly if their number is not a
positive multiple of `2 ^ w`. -/
theorem zero_iff (h : Counted key cnt live l n) {b : β} (hb : b ∈ l) (hv : live b = true) :
    (cnt b = 0 → n (key b) = 0) ↔ (n (key b) % 2 ^ w = 0 → n (key b) = 0) := by
  have hz : cnt b = 0 ↔ n (key b) % 2 ^ w = 0 := by
    rw [h.count b hb hv, ← BitVec.toNat_inj, BitVec.toNat_ofNat]
    simp
  rw [hz]

/-- Taking a reference to a live record. -/
theorem take (h : Counted key cnt live l n) (hk : ∃ b ∈ l, key b = k ∧ live b = true)
    (hkey : ∀ b, key (f b) = key b) (hlive : ∀ b, live (f b) = live b)
    (hcnt : ∀ b, cnt (f b) = cnt b + 1) :
    Counted key cnt live (modify key k f l) (Refcount.take n k) := by
  refine ⟨(keys_modify hkey).symm ▸ h.keys, ?_, ?_⟩
  · refine forall_modify (fun b hb hne hv => ?_) fun b hb hbk hv => ?_
    · rw [take_of_ne hne]
      exact h.count b hb hv
    · rw [hcnt, hkey, hbk, take_self, BitVec.ofNat_add, ← hbk, h.count b hb (hlive b ▸ hv)]
      rfl
  · intro j hj
    by_cases hjk : j = k
    · obtain ⟨b, hb, hbk, hv⟩ := hk
      exact ⟨f b, mem_modify_self hb hbk, by rw [hkey, hbk, hjk], by rw [hlive, hv]⟩
    · rw [take_of_ne hjk] at hj
      obtain ⟨b, hb, hbj, hv⟩ := h.live j hj
      exact ⟨b, mem_modify_of_ne hb (by rwa [hbj]), hbj, hv⟩

/-- Giving back an outstanding reference. -/
theorem give (h : Counted key cnt live l n) (hk : 0 < n k)
    (hkey : ∀ b, key (f b) = key b) (hlive : ∀ b, live (f b) = live b)
    (hcnt : ∀ b, cnt (f b) = cnt b - 1) :
    Counted key cnt live (modify key k f l) (Refcount.give n k) := by
  refine ⟨(keys_modify hkey).symm ▸ h.keys, ?_, ?_⟩
  · refine forall_modify (fun b hb hne hv => ?_) fun b hb hbk hv => ?_
    · rw [give_of_ne hne]
      exact h.count b hb hv
    · obtain ⟨m, hm⟩ : ∃ m, n k = m + 1 := ⟨n k - 1, by omega⟩
      rw [hcnt, hkey, hbk, give_self, h.count b hb (hlive b ▸ hv), hbk, hm, Nat.add_sub_cancel,
        BitVec.ofNat_add]
      exact BitVec.add_sub_cancel _ _
  · intro j hj
    by_cases hjk : j = k
    · obtain ⟨b, hb, hbk, hv⟩ := h.live k hk
      exact ⟨f b, mem_modify_self hb hbk, by rw [hkey, hbk, hjk], by rw [hlive, hv]⟩
    · rw [give_of_ne hjk] at hj
      obtain ⟨b, hb, hbj, hv⟩ := h.live j hj
      exact ⟨b, mem_modify_of_ne hb (by rwa [hbj]), hbj, hv⟩

/-- Releasing a record does nothing while its counter is not zero, else it is not live any
more. -/
theorem release (h : Counted key cnt live l n) (hk : n k % 2 ^ w = 0 → n k = 0)
    (hkey : ∀ b, key (f b) = key b) (hbusy : ∀ b, cnt b ≠ 0 → f b = b)
    (hfree : ∀ b, cnt b = 0 → live (f b) = false) :
    Counted key cnt live (modify key k f l) n := by
  refine ⟨(keys_modify hkey).symm ▸ h.keys, ?_, ?_⟩
  · refine forall_modify (fun b hb _ hv => h.count b hb hv) fun b hb _ hv => ?_
    by_cases hc : cnt b = 0
    · rw [hfree b hc] at hv
      exact absurd hv Bool.false_ne_true
    · rw [hbusy b hc] at hv ⊢
      exact h.count b hb hv
  · intro j hj
    obtain ⟨b, hb, hbj, hv⟩ := h.live j hj
    by_cases hjk : j = k
    · have hc : cnt b ≠ 0 := by
        intro hc
        have hz := (h.zero_iff hb hv).2 (by rwa [hbj, hjk]) hc
        rw [hbj] at hz
        omega
      exact ⟨f b, mem_modify_self hb (hbj.trans hjk), by rw [hkey, hbj], by rw [hbusy b hc, hv]⟩
    · exact ⟨b, mem_modify_of_ne hb (by rwa [hbj]), hbj, hv⟩

/-- A new record with a zero counter at a key that was not in use. -/
theorem insert (h : Counted key cnt live l n) {b : β} (hp : l'.Perm (b :: l))
    (hb : key b ∉ l.map key) (hc : cnt b = 0) : Counted key cnt live l' n := by
  have hzero : n (key b) = 0 := by
    by_contra hne
    obtain ⟨a, ha, hak, -⟩ := h.live (key b) (Nat.pos_of_ne_zero hne)
    exact hb (hak ▸ List.mem_map_of_mem ha)
  refine ⟨?_, ?_, ?_⟩
  · rw [(hp.map key).nodup_iff, List.map_cons, List.nodup_cons]
    exact ⟨hb, h.keys⟩
  · intro a ha hv
    rcases List.mem_cons.1 (hp.mem_iff.1 ha) with rfl | ha
    · rw [hc, hzero]
      rfl
    · exact h.count a ha hv
  · intro j hj
    obtain ⟨a, ha, hrest⟩ := h.live j hj
    exact ⟨a, hp.mem_iff.2 (.tail _ ha), hrest⟩

/-- Records that are not live disappear. -/
theorem sweep (h : Counted key cnt live l n) : Counted key cnt live (l.filter live) n := by
  refine ⟨h.keys.sublist (List.filter_sublist.map key), ?_, ?_⟩
  · exact fun b hb hv => h.count b (List.mem_filter.1 hb).1 hv
  · intro j hj
    obtain ⟨b, hb, hbj, hv⟩ := h.live j hj
    exact ⟨b, List.mem_filter.2 ⟨hb, hv⟩, hbj, hv⟩

end Counted

end Refcount
