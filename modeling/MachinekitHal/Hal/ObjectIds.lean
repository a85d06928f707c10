import MachinekitHal.Hal.ObjectChanges

/-!
Object ids and owner ids.

The ids are the low 16 bits of an ever growing counter, so they come back after 65536
handles, and the handle `65536` itself gives the id `0`, which the lookups take for no id.

* `idOk`: the next handle is no multiple of 65536, and differs by no multiple of it from the
  handle of a valid object.
* `IdInv`: the invariant: ids are the low bits of distinct handles, and owner ids the ids of
  the owners that were given.
* `object_ids`: in the runs whose creations meet `idOk`, ids are distinct and not zero, and
  the lookups by id and by owner id find the object and its owner.
* `object_ids_reused`: 65536 handles apart, two signals have the same id.
-/

namespace MachinekitHal

open Store Runs ObjectHal

/-- A creation does not draw a handle whose low 16 bits are zero or in use. -/
def idOk (s : ObjectHal) (a : ObjectAct) : Bool :=
  a.env.isNone || ((s.nextHandle + 1) % 65536 != 0 && s.objects.all fun o =>
    !o.hdr.valid || o.body.handle % 65536 != (s.nextHandle + 1) % 65536)

/-- Ids are the low bits of the handles, and distinct; owner ids are the ids of the owners. -/
structure IdInv (s : ObjectHal) : Prop where
  offs : (s.objects.map Obj.off).Nodup
  ids : ∀ o ∈ s.objects, o.hdr.valid = true →
    o.hdr.id = Int16.ofInt o.body.handle ∧ o.hdr.id ≠ 0
  distinct : ∀ o ∈ s.objects, ∀ o' ∈ s.objects, o.hdr.valid = true → o'.hdr.valid = true →
    o.hdr.id = o'.hdr.id → o = o'
  handles : ∀ o ∈ s.objects, o.hdr.valid = true →
    o.body.handle ≤ s.nextHandle ∧ ∀ k, o.body.owner = some k → k ≤ s.nextHandle
  owned : ∀ o ∈ s.objects, ∀ p ∈ s.objects, o.hdr.valid = true → p.hdr.valid = true →
    o.body.owner = some p.body.handle → o.hdr.ownerId = p.hdr.id

/-- The ids of the valid objects are not zero, and distinct. -/
def IdsDistinct (s : ObjectHal) : Prop :=
  ∀ o ∈ s.objects, o.hdr.valid = true → o.hdr.id ≠ 0 ∧
    ∀ o' ∈ s.objects, o'.hdr.valid = true → o'.hdr.id = o.hdr.id → o' = o

/-- Two handles give the same id exactly if they differ by a multiple of 65536. -/
lemma ofInt_handle_eq {m n : ℕ} :
    Int16.ofInt (m : ℤ) = Int16.ofInt (n : ℤ) ↔ m % 65536 = n % 65536 := by
  rw [← Int16.toBitVec_inj, Int16.toBitVec_ofInt, Int16.toBitVec_ofInt, BitVec.ofInt_natCast,
    BitVec.ofInt_natCast, ← BitVec.toNat_inj, BitVec.toNat_ofNat, BitVec.toNat_ofNat]

/-- A handle gives the id `0` exactly if it is a multiple of 65536. -/
lemma ofInt_handle_zero {n : ℕ} : Int16.ofInt (n : ℤ) = 0 ↔ n % 65536 = 0 :=
  ofInt_handle_eq (n := 0)

namespace IdInv

variable {s s' : ObjectHal}

lemma idsDistinct (h : IdInv s) : IdsDistinct s :=
  fun o ho hv => ⟨(h.ids o ho hv).2, fun o' ho' hv' hid => h.distinct o' ho' o ho hv' hv hid⟩

/-- What is valid afterwards has the ids it had. -/
lemma fewer (h : IdInv s) (hf : Fewer s s') : IdInv s' := by
  refine ⟨h.offs.sublist hf.offs, fun o' ho' hv' => ?_, fun o' ho' p' hp' hv' hw' hid => ?_,
    fun o' ho' hv' => ?_, fun o' ho' p' hp' hv' hw' hown => ?_⟩
  · obtain ⟨o, ho, hs⟩ := hf.objects o' ho' hv'
    rw [hs.id, hs.body]
    exact h.ids o ho (hs.valid ▸ hv')
  · obtain ⟨o, ho, hs⟩ := hf.objects o' ho' hv'
    obtain ⟨p, hp, ht⟩ := hf.objects p' hp' hw'
    have hop : o = p := h.distinct o ho p hp (hs.valid ▸ hv') (ht.valid ▸ hw')
      (hs.id.symm.trans (hid.trans ht.id))
    exact eq_of_key (h.offs.sublist hf.offs) ho' hp' (by rw [hs.off, ht.off, hop])
  · obtain ⟨o, ho, hs⟩ := hf.objects o' ho' hv'
    rw [hs.body]
    obtain ⟨hle, hown⟩ := h.handles o ho (hs.valid ▸ hv')
    exact ⟨hle.trans hf.counter, fun k hk => (hown k hk).trans hf.counter⟩
  · obtain ⟨o, ho, hs⟩ := hf.objects o' ho' hv'
    obtain ⟨p, hp, ht⟩ := hf.objects p' hp' hw'
    rw [hs.ownerId, ht.id]
    exact h.owned o ho p hp (hs.valid ▸ hv') (ht.valid ▸ hw') (hs.body ▸ ht.body ▸ hown)

section Created

variable {a : ObjectAct} {e : CreateEnv} {r : Request} {new : Obj ObjDesc}

/-- The id of a new object is in use or zero exactly if its handle says so. -/
lemma idOk_iff (h : IdInv s) (hadm : Admitted s a e r) (hnew : Created s e r new) :
    idOk s a = true ↔ new.hdr.id ≠ 0 ∧
      ∀ o ∈ s.objects, o.hdr.valid = true → o.hdr.id ≠ new.hdr.id := by
  have hin : ∀ o ∈ s.objects, o.hdr.valid = true →
      (o.hdr.id = new.hdr.id ↔ o.body.handle % 65536 = (s.nextHandle + 1) % 65536) := by
    intro o ho hv
    rw [(h.ids o ho hv).1, hnew.id, ofInt_handle_eq]
  rw [idOk, hadm.env, hnew.id, Ne, ofInt_handle_zero, ← hnew.id]
  simp only [Option.isNone_some, Bool.false_or, Bool.and_eq_true, bne_iff_ne, ne_eq,
    List.all_eq_true, Bool.or_eq_true, Bool.not_eq_true']
  refine and_congr_right fun _ => ⟨fun hall o ho hv => ?_, fun hall o ho => ?_⟩
  · rw [hin o ho hv]
    exact (hall o ho).resolve_left (by simp [hv])
  · by_cases hv : o.hdr.valid = true
    · exact .inr ((hin o ho hv).not.1 (hall o ho hv))
    · exact .inl (by simpa using hv)

/-- A new object with an id of its own. -/
lemma created (h : IdInv s) (hadm : Admitted s a e r) (hnew : Created s e r new)
    (hoff : new.off ∉ s.objects.map Obj.off) (hcounter : s.nextHandle < s'.nextHandle)
    (hobjs : s'.objects = addTyped new s.objects) (hok : idOk s a = true) : IdInv s' := by
  obtain ⟨hne, hfree⟩ := (h.idOk_iff hadm hnew).1 hok
  have hbody := hnew.body
  refine ⟨hobjs ▸ nodup_addTyped h.offs hoff, fun o ho hv => ?_, fun o ho p hp hv hw hid => ?_,
    fun o ho hv => ?_, fun o ho p hp hv hw hown => ?_⟩
  · rcases mem_addTyped.1 (hobjs ▸ ho) with rfl | ho
    · exact ⟨by rw [hnew.id, hbody], hne⟩
    · exact h.ids o ho hv
  · rcases mem_addTyped.1 (hobjs ▸ ho) with rfl | ho <;>
      rcases mem_addTyped.1 (hobjs ▸ hp) with rfl | hp
    · rfl
    · exact absurd hid.symm (hfree p hp hw)
    · exact absurd hid (hfree o ho hv)
    · exact h.distinct o ho p hp hv hw hid
  · rcases mem_addTyped.1 (hobjs ▸ ho) with rfl | ho
    · rw [hbody]
      refine ⟨hcounter, fun k hk => ?_⟩
      obtain ⟨p, hp, hv, rfl, -⟩ := hadm.owner k hk
      exact (h.handles p hp hv).1.trans hcounter.le
    · obtain ⟨hle, hown⟩ := h.handles o ho hv
      exact ⟨hle.trans hcounter.le, fun k hk => (hown k hk).trans hcounter.le⟩
  · rcases mem_addTyped.1 (hobjs ▸ ho) with rfl | ho <;>
      rcases mem_addTyped.1 (hobjs ▸ hp) with rfl | hp
    · -- the owner was there before the object
      rw [hbody] at hown
      obtain ⟨q, hq, hqv, hk, -⟩ := hadm.owner _ hown
      have hle := (h.handles q hq hqv).1
      simp only at hk
      omega
    · rw [hbody] at hown
      obtain ⟨q, hq, hqv, hk, hid⟩ := hadm.owner _ hown
      have hqp : q = p := h.distinct q hq p hp hqv hw (by
        rw [(h.ids q hq hqv).1, (h.ids p hp hw).1, hk])
      rw [hnew.ownerId, ← hid, hqp]
    · have hle := (h.handles o ho hv).2 _ hown
      rw [hbody] at hle
      simp only at hle
      omega
    · exact h.owned o ho p hp hv hw hown

/-- A new object with an id that is zero or in use. -/
lemma not_idsDistinct (h : IdInv s) (hadm : Admitted s a e r) (hnew : Created s e r new)
    (hoff : new.off ∉ s.objects.map Obj.off)
    (hobjs : s'.objects = addTyped new s.objects) (hd : IdsDistinct s') : idOk s a = true := by
  have hmem : new ∈ s'.objects := hobjs ▸ mem_addTyped.2 (.inl rfl)
  refine (h.idOk_iff hadm hnew).2 ⟨(hd new hmem hnew.valid).1, fun o ho hv hid => hoff ?_⟩
  have ho' : o ∈ s'.objects := hobjs ▸ mem_addTyped.2 (.inr ho)
  rw [← (hd new hmem hnew.valid).2 o ho' hv hid]
  exact List.mem_map_of_mem ho

end Created

lemma step (h : IdInv s) {a : ObjectAct} (hok : idOk s a = true)
    (hs : objectStep s a = some s') : IdInv s' := by
  rcases objectStep_cases hs with ⟨-, hf⟩ | ⟨e, r, new, -, hadm, hnew, hoff, hcounter, hobjs⟩
  · exact h.fewer hf
  · exact h.created hadm hnew hoff hcounter hobjs hok

/-- A call that makes an object keeps the ids distinct only if the next handle allows it. -/
lemma step_iff (h : IdInv s) {a : ObjectAct} {new : Obj ObjDesc}
    (hs : objectStep s a = some s') (hmade : (objectCall a s).1 = some new) :
    IdsDistinct s' ↔ idOk s a = true := by
  refine ⟨fun hd => ?_, fun hok => (h.step hok hs).idsDistinct⟩
  rcases objectStep_cases hs with ⟨hnone, -⟩ | ⟨e, r, new', -, hadm, hnew, hoff, -, hobjs⟩
  · exact absurd (hmade.symm.trans hnone) nofun
  · exact h.not_idsDistinct hadm hnew hoff hobjs hd

/-- An id finds its object, among all objects and among those of its type. -/
lemma find (h : IdInv s) {o : Obj ObjDesc} (ho : o ∈ s.objects) (hv : o.hdr.valid = true)
    {type : Option HalObjectType} (ht : ofType type o = true) :
    s.findObjectById type o.hdr.id.toInt = some o := by
  have hmem : o ∈ s.typed type := List.mem_filter.2 ⟨ho, ht⟩
  have hne : o.hdr.id.toInt ≠ 0 := fun h0 => (h.ids o ho hv).2 (Int16.toInt_inj.1 h0)
  cases hf : s.findObjectById type o.hdr.id.toInt with
  | none =>
    have hno := List.find?_eq_none.1 hf o hmem
    simp [hv] at hno
  | some o' =>
    obtain ⟨ho', hv'⟩ := findObjectById_mem hf
    have hid : o'.hdr.id = o.hdr.id := Int16.toInt_inj.1 ((findById_id hf).resolve_left hne).symm
    rw [h.distinct o' ho' o ho hv' hv hid]

end IdInv

/-- **Object ids** as long as no creation draws a handle whose low 16 bits are zero or those
of the handle of a valid object: ids are distinct and not zero, a lookup by the id of an
object finds it, and a lookup by its owner id finds the object that was given as its owner,
if that is still valid. The next object that is made keeps this exactly if its handle is of
that kind. -/
theorem object_ids {s : ObjectHal}
    (hr : Reach objectStep (fun s a => idOk s a = true) ObjectHal.fresh s) :
    IdsDistinct s ∧
    (∀ o ∈ s.objects, o.hdr.valid = true →
      s.findObjectById none o.hdr.id.toInt = some o ∧
      s.findObjectById (some o.body.type) o.hdr.id.toInt = some o) ∧
    (∀ o ∈ s.objects, ∀ p ∈ s.objects, o.hdr.valid = true → p.hdr.valid = true →
      o.body.owner = some p.body.handle →
        s.findObjectById none o.hdr.ownerId.toInt = some p) ∧
    ∀ a s' new, objectStep s a = some s' → (objectCall a s).1 = some new →
      (IdsDistinct s' ↔ idOk s a = true) := by
  have h0 : IdInv ObjectHal.fresh := by
    refine ⟨?_, ?_, ?_, ?_, ?_⟩ <;> simp [ObjectHal.fresh]
  have h : IdInv s := hr.invariant h0 fun h hok hs => h.step hok hs
  refine ⟨h.idsDistinct, fun o ho hv => ⟨h.find ho hv rfl, h.find ho hv (by simp [ofType])⟩,
    fun o ho p hp hv hw hown => ?_, fun a s' new hs hmade => h.step_iff hs hmade⟩
  rw [h.owned o ho p hp hv hw hown]
  exact h.find hp hw rfl


/-- A component with an instance that owns a pin. -/
def ownedPin : List ObjectAct :=
  [.xinit (.plain 64) "comp", .instCreate (.plain 128) "inst" 66, .pinNew (.plain 192) 68 "pin"]

/-- The ids and owners of the three objects. -/
theorem object_ids_ownedPin : ∃ s, run objectStep idOk ObjectHal.fresh ownedPin = some s ∧
    (s.objects.map fun o => (o.hdr.id, o.hdr.ownerId, o.body.handle, o.body.owner))
      = [(66, 0, 66, none), (68, 66, 68, some 66), (69, 68, 69, some 68)] ∧ IdsDistinct s := by
  have hs : (run objectStep idOk ObjectHal.fresh ownedPin).map
      (fun s => s.objects.map fun o => (o.hdr.id, o.hdr.ownerId, o.body.handle, o.body.owner))
      = some [(66, 0, 66, none), (68, 66, 68, some 66), (69, 68, 69, some 68)] := by
    decide
  obtain ⟨s, hs, hv, hr⟩ := run_map hs
  exact ⟨s, hs, hv, (object_ids hr).1⟩

/-- Handles that are drawn for no object. -/
lemma reach_draws (s : ObjectHal) (n : ℕ) :
    Reach objectStep (fun _ _ => True) s { s with nextHandle := s.nextHandle + n } := by
  induction n with
  | zero => exact .refl
  | succ n ih => exact .tail (a := .rtapiInit) ih trivial rfl

/-- The HAL with a first signal. -/
def firstSignal : ObjectHal := (objectCall (.signalNew (.plain 64) "a") ObjectHal.fresh).2

/-- Two signals that are made 65536 handles apart have the same id, and the lookup by it
finds only one of them. -/
theorem object_ids_reused : ¬ ∀ s : ObjectHal,
    Reach objectStep (fun _ _ => True) ObjectHal.fresh s → IdsDistinct s ∧
      ∀ o ∈ s.objects, o.hdr.valid = true →
        s.findObjectById (some .signal) o.hdr.id.toInt = some o := by
  intro hall
  have hs : (objectStep { firstSignal with nextHandle := firstSignal.nextHandle + 65535 }
      (.signalNew (.plain 128) "b")).map
        (fun t => t.objects.map fun o => (o.off, o.hdr.valid, o.hdr.id))
      = some [(64, true, 66), (128, true, 66)] := by decide
  obtain ⟨t, ht, hids⟩ := Option.map_eq_some_iff.mp hs
  have hfirst : Reach objectStep (fun _ _ => True) ObjectHal.fresh firstSignal :=
    .tail (a := .signalNew (.plain 64) "a") .refl trivial rfl
  have hd := (hall t ((hfirst.trans (reach_draws firstSignal 65535)).tail trivial ht)).1
  have hmem : ∀ q ∈ t.objects.map fun o => (o.off, o.hdr.valid, o.hdr.id), ∃ o ∈ t.objects,
      o.off = q.1 ∧ o.hdr.valid = q.2.1 ∧ o.hdr.id = q.2.2 := by
    intro q hq
    obtain ⟨o, ho, rfl⟩ := List.mem_map.1 hq
    exact ⟨o, ho, rfl, rfl, rfl⟩
  obtain ⟨o, ho, hoff, hv, hid⟩ := hmem (64, true, 66) (hids ▸ by simp)
  obtain ⟨o', ho', hoff', hv', hid'⟩ := hmem (128, true, 66) (hids ▸ by simp)
  have heq := (hd o ho hv).2 o' ho' hv' (hid'.trans hid.symm)
  rw [heq, hoff] at hoff'
  exact absurd hoff' (by decide)

end MachinekitHal
