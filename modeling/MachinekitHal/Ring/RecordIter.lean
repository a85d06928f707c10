import MachinekitHal.Lib.Runs
import MachinekitHal.Ring.RecordOps

/-!
Iterators on a record ring.

* `RingIter`, `recordIterInit`, `recordIterRead`, `recordIterShift`: the operations.
* `IterSys`: a ring with any number of iterators; beside each one stands which of the
  committed records it stands on.
* `IterHolds`: what the calls on an iterator return.
* `place`: where the `j`-th unread record is looked for. `IterInv` is the invariant: the
  generation of a valid iterator is as far ahead of that of the ring as its place is.
* `record_iterators`: `IterHolds` in every run whose operations meet `iterFits`;
  `record_iterators_tail` is a run that does not.
-/

namespace MachinekitHal

open Bytes Word Runs

/-- `ringiter_t`. -/
structure RingIter where
  offset : ℕ
  generation : ℕ
  deriving DecidableEq

namespace RecordRing

variable (r : RecordRing)

/-- `record_iter_init`, when nobody interferes. -/
def recordIterInit : RingIter := { offset := r.head, generation := r.generation }

/-- `record_iter_invalid`. -/
def recordIterInvalid (it : RingIter) : Bool := it.generation < r.generation

/-- `record_iter_shift`: the iterator behind the record. -/
def recordIterShift (it : RingIter) : Option (Except Errno RingIter) :=
  if r.recordIterInvalid it then some (.error .EINVAL)
  else (r.ringShiftOffset 2 it.offset).map fun
    | .error e => .error e
    | .ok off => .ok { offset := off, generation := incGeneration it.generation }

/-- `record_iter_read`. -/
def recordIterRead (it : RingIter) : Option (Except Errno (ℕ × ℕ)) :=
  if r.recordIterInvalid it then some (.error .EINVAL) else r.ringReadAt 2 it.offset

end RecordRing

/-- A record ring with its history, and iterators, each with the number of the committed
record it stands on. -/
structure IterSys where
  ring : RecordRing
  log : List Rec
  shifted : ℕ
  iters : List (RingIter × ℕ)

/-- The operations; an iterator is known by its place in the list. -/
inductive IterOp where
  | write (bs : List UInt8)
  | shift
  | flush
  | iterInit (i : ℕ)
  | iterShift (i : ℕ)
  deriving DecidableEq

namespace IterSys

/-- The ring before the first call. -/
def init (ring : RecordRing) : IterSys := { ring := ring, log := [], shifted := 0, iters := [] }

/-- The records committed and neither consumed nor flushed. -/
def unread (s : IterSys) : List Rec := s.log.drop s.shifted

/-- One operation; `none` if it may not be called or does not return. -/
def step (s : IterSys) : IterOp → Option IterSys
  | .write bs =>
    if bs.length < 4294967296 then
      match s.ring.recordWriteBegin bs.length, s.ring.recordWrite bs with
      | .ok data, .ok ring => some { s with ring := ring, log := s.log ++ [⟨data - 4, bs⟩] }
      | _, _ => some s
    else none
  | .shift =>
    match s.ring.recordShift with
    | some (.ok ring) => some { s with ring := ring, shifted := s.shifted + 1 }
    | some (.error _) => some s
    | none => none
  | .flush => some { s with ring := s.ring.recordFlush, shifted := s.log.length }
  | .iterInit i =>
    let it := (s.ring.recordIterInit, s.shifted)
    some { s with iters := if i < s.iters.length then s.iters.set i it else s.iters ++ [it] }
  | .iterShift i =>
    match s.iters[i]? with
    | some (it, pos) =>
      match s.ring.recordIterShift it with
      | some (.ok it') => some { s with iters := s.iters.set i (it', pos + 1) }
      | some (.error _) => some s
      | none => none
    | none => none

end IterSys

/-- An iterator finds the record with number `pos`, or stands at the tail if it is not yet
committed. -/
def Stands (s : IterSys) (it : RingIter) (pos : ℕ) : Prop :=
  match s.log[pos]? with
  | some rec => s.ring.ringReadAt 2 it.offset = some (.ok (rec.bytes.length, rec.off + 4))
  | none => it.offset = s.ring.tail

/-- What the calls on an iterator return. -/
structure IterHolds (s : IterSys) (it : RingIter) (pos : ℕ) : Prop where
  le : pos ≤ s.log.length
  /-- its record was shifted or flushed -/
  gone : pos < s.shifted → s.ring.recordIterRead it = some (.error .EINVAL) ∧
    s.ring.recordIterShift it = some (.error .EINVAL)
  /-- its record is unread -/
  unread : ∀ rec, s.shifted ≤ pos → s.log[pos]? = some rec →
    rec.At s.ring.buf ∧
    s.ring.recordIterRead it = some (.ok (rec.bytes.length, rec.off + 4)) ∧
    ∃ it', s.ring.recordIterShift it = some (.ok it') ∧ Stands s it' (pos + 1)
  /-- it stands at the tail -/
  tail : pos = s.log.length → it.offset = s.ring.tail ∧
    s.ring.recordIterRead it = some (.error .EAGAIN) ∧
    s.ring.recordIterShift it = some (.error .EAGAIN)

/-- The largest generation. -/
def generationMax : ℕ := 18446744073709551615

/-- An iterator is not at the tail of a ring with unread records, or its record is gone. -/
def RecordRing.iterClear (r : RecordRing) (it : RingIter) : Bool :=
  r.recordIterInvalid it || it.offset ≠ r.tail || r.head = r.tail

/-- The condition on an operation: no requested size and no generation wraps; `record_flush`
flushes one record, or every valid iterator stands on the oldest of the records it flushes;
`record_iter_shift` is not called on a valid iterator at the tail of a ring with unread
records (`iterClear`). -/
def iterFits (s : IterSys) : IterOp → Bool
  | .write bs => bs.length ≤ 4294967284
  | .shift => s.ring.head = s.ring.tail || s.ring.generation < generationMax
  | .flush => s.ring.generation < generationMax && (s.unread.length = 1 ||
      s.iters.all fun it => s.ring.recordIterInvalid it.1 ||
        (it.1.generation = s.ring.generation && !s.unread.isEmpty))
  | .iterInit _ => true
  | .iterShift i =>
    match s.iters[i]? with
    | some (it, _) => s.ring.iterClear it &&
        (s.ring.recordIterInvalid it || it.generation < generationMax)
    | none => true

/-! ### Places -/

/-- Where the `j`-th of the records `live` is looked for: at the end of the one before. -/
def place (r : RecordRing) (live : List Rec) : ℕ → ℕ
  | 0 => r.head
  | j + 1 =>
    match live[j]? with
    | some rec => (rec.off + rec.span) % r.size
    | none => r.head

variable {r r' : RecordRing} {live : List Rec} {j : ℕ}

@[simp] lemma place_zero : place r live 0 = r.head := rfl

lemma place_succ {rec : Rec} (h : live[j]? = some rec) :
    place r live (j + 1) = (rec.off + rec.span) % r.size := by
  rw [place, h]

/-- The place of a record is not changed by what is committed behind it. -/
lemma place_append (more : List Rec) (hj : j ≤ live.length) (hhead : r'.head = r.head)
    (hsize : r'.size = r.size) : place r' (live ++ more) j = place r live j := by
  cases j with
  | zero => exact hhead
  | succ j =>
    have hlt : j < live.length := hj
    have hrec : live[j]? = some live[j] := List.getElem?_eq_getElem hlt
    rw [place_succ hrec, place_succ (by rw [List.getElem?_append_left hlt, hrec]), hsize]

/-- Consuming the oldest record leaves the places of the others. -/
lemma place_cons {rec : Rec} (hj : j ≤ live.length)
    (hhead : r'.head = (rec.off + rec.span) % r.size)
    (hsize : r'.size = r.size) : place r' live j = place r (rec :: live) (j + 1) := by
  cases j with
  | zero => rw [place_zero, hhead, place_succ (rfl : (rec :: live)[0]? = some rec)]
  | succ j =>
    have hlt : j < live.length := hj
    have hrec : live[j]? = some live[j] := List.getElem?_eq_getElem hlt
    rw [place_succ hrec, place_succ (by rw [List.getElem?_cons_succ, hrec]), hsize]

/-- A ring whose head is at the place of a record holds that record and those behind it. -/
lemma Settled.at_place (h : Settled r live) (hj : j ≤ live.length) :
    Settled { r with head := place r live j } (live.drop j) := by
  induction j generalizing r live with
  | zero => exact h
  | succ j ih =>
    cases live with
    | nil => exact absurd hj (by simp)
    | cons rec rest =>
      obtain ⟨r', -, hset, hsize, htail, hbuf, -, hhead, hgen⟩ := h.recordShift
      have hj' : j ≤ rest.length := by simpa using hj
      have hrest := ih hset hj'
      rw [place_cons hj' hhead hsize] at hrest
      have heq : { r with head := place r (rec :: rest) (j + 1) } =
          { { r' with head := place r (rec :: rest) (j + 1) } with
            generation := r.generation } := by
        rw [RecordRing.mk.injEq]
        exact ⟨hsize.symm, rfl, htail.symm, rfl, hbuf.symm⟩
      rw [heq]
      exact ⟨hrest.toRingOk.withGeneration _, hrest.ended⟩

/-- `record_write` appends its record. -/
lemma Settled.recordWrite {bs : List UInt8} {data : ℕ} (h : Settled r live)
    (hbs : bs.length ≤ 4294967284) (hb : r.recordWriteBegin bs.length = .ok data)
    (hw : r.recordWrite bs = .ok r') :
    Settled r' (live ++ [⟨data - 4, bs⟩]) ∧ r'.head = r.head ∧ r'.size = r.size ∧
      r'.generation = r.generation := by
  obtain ⟨hsz, hbegun⟩ := h.toRingOk.recordWriteBegin hbs hb
  rw [RecordRing.recordWrite, hb] at hw
  cases hw
  have husage := recordUsage_small hsz
  have hbuf : Settled { r with buf := storeBytes r.buf data bs } live := by
    refine h.withBuf fun x hx => storeBytes_apply_of_outside ?_
    by_contra hin
    exact Begun.not_used hbegun (x := x) (by omega) (by omega) hx
  refine ⟨?_, by simp, by simp, ?_⟩
  · have hend := hbuf.recordWriteEnd hsz hbegun
    rwa [committed, loadBytes_storeBytes] at hend
  · rw [RecordRing.recordWriteEnd]
    split_ifs <;> rfl

/-! ### Calls on an iterator -/

/-- `_ring_read_at` does not look at `head`. -/
lemma ringReadAt_head (r : RecordRing) (head off : ℕ) :
    { r with head := head }.ringReadAt 2 off = r.ringReadAt 2 off := rfl

/-- `_ring_shift_offset` only asks whether the ring is empty. -/
lemma ringShiftOffset_head {head off : ℕ} (h : r.head = r.tail ↔ head = r.tail) :
    { r with head := head }.ringShiftOffset 2 off = r.ringShiftOffset 2 off := by
  by_cases hr : r.head = r.tail
  · have hh := h.1 hr
    simp only [RecordRing.ringShiftOffset, hr, hh, if_true]
  · have hh : head ≠ r.tail := fun he => hr (h.2 he)
    simp only [RecordRing.ringShiftOffset, hr, hh, if_false]

/-- The records from a place on. -/
lemma drop_of_getElem? {rec : Rec} (hrec : live[j]? = some rec) :
    live.drop j = rec :: live.drop (j + 1) := by
  obtain ⟨hlt, rfl⟩ := List.getElem?_eq_some_iff.1 hrec
  exact List.drop_eq_getElem_cons hlt

namespace Settled

/-- What is found at the place of an unread record. -/
lemma read_place (h : Settled r live) {rec : Rec} (hrec : live[j]? = some rec) :
    r.ringReadAt 2 (place r live j) = some (.ok (rec.bytes.length, rec.off + 4)) := by
  have hset := h.at_place (List.getElem?_eq_some_iff.1 hrec).1.le
  rw [drop_of_getElem? hrec] at hset
  have hread := hset.recordRead
  rwa [RecordRing.recordRead, ringReadAt_head] at hread

/-- The place of an unread record is not the tail. -/
lemma place_ne_tail (h : Settled r live) {rec : Rec} (hrec : live[j]? = some rec) :
    place r live j ≠ r.tail := by
  have hset := h.at_place (List.getElem?_eq_some_iff.1 hrec).1.le
  rw [drop_of_getElem? hrec] at hset
  exact hset.front.1

/-- Behind the last unread record is the tail. -/
lemma place_length (h : Settled r live) : place r live live.length = r.tail := by
  have hset := h.at_place le_rfl
  rw [List.drop_length] at hset
  exact hset.head_eq

/-- A ring is empty if `head` is the tail. -/
lemma eq_nil_iff (h : Settled r live) : r.head = r.tail ↔ live = [] :=
  ⟨h.layout.eq_nil, fun hnil => (hnil ▸ h).head_eq⟩

/-- The place behind an unread record. -/
lemma shift_place (h : Settled r live) {rec : Rec} (hrec : live[j]? = some rec) :
    r.ringShiftOffset 2 (place r live j) = some (.ok (place r live (j + 1))) := by
  have hset := h.at_place (List.getElem?_eq_some_iff.1 hrec).1.le
  rw [drop_of_getElem? hrec] at hset
  obtain ⟨r', hshift, -, -, -, -, -, hhead, -⟩ := hset.recordShift
  have hne : r.head ≠ r.tail := fun he => by
    rw [h.eq_nil_iff.1 he] at hrec
    cases hrec
  rw [RecordRing.recordShift, ringShiftOffset_head (iff_of_false hne hset.front.1),
    Option.map_eq_some_iff] at hshift
  obtain ⟨x, hx, hr⟩ := hshift
  cases x with
  | error e => cases hr
  | ok off =>
    cases hr
    rw [hx, place_succ hrec, ← hhead]

end Settled

/-! ### The invariant -/

/-- A valid iterator is at the place of its record, and its generation is as far ahead. -/
def IterOk (s : IterSys) (it : RingIter) (pos : ℕ) : Prop :=
  it.generation < s.ring.generation ∧ pos < s.shifted ∨
  ∃ j ≤ s.unread.length, pos = s.shifted + j ∧ it.generation = s.ring.generation + j ∧
    it.offset = place s.ring s.unread j

/-- The invariant of the runs that meet the condition. -/
structure IterInv (s : IterSys) : Prop where
  shifted_le : s.shifted ≤ s.log.length
  ring : Settled s.ring s.unread
  iters : ∀ it ∈ s.iters, IterOk s it.1 it.2

variable {s t : IterSys} {it : RingIter} {pos : ℕ}

lemma IterSys.unread_length (s : IterSys) : s.unread.length = s.log.length - s.shifted :=
  List.length_drop

lemma IterSys.getElem?_unread (s : IterSys) (j : ℕ) : s.unread[j]? = s.log[s.shifted + j]? := by
  rw [IterSys.unread, List.getElem?_drop]

lemma RecordRing.not_invalid {r : RecordRing} {it : RingIter} {j : ℕ}
    (h : it.generation = r.generation + j) : ¬ r.recordIterInvalid it = true := by
  rw [RecordRing.recordIterInvalid, decide_eq_true_iff]
  omega

/-- What the invariant says of the calls. -/
lemma IterInv.holds (h : IterInv s) (hit : (it, pos) ∈ s.iters)
    (hclear : s.ring.iterClear it = true) : IterHolds s it pos := by
  have hle := h.shifted_le
  have hlen := s.unread_length
  rcases h.iters _ hit with ⟨hgen, hpos⟩ | ⟨j, hj, rfl, hgen, hoff⟩
  · have hinv : s.ring.recordIterInvalid it = true := decide_eq_true hgen
    have hpos : pos < s.shifted := hpos
    refine ⟨by omega, fun _ => ?_, fun _ hge => by omega, fun he => by omega⟩
    exact ⟨by rw [RecordRing.recordIterRead, if_pos hinv],
      by rw [RecordRing.recordIterShift, if_pos hinv]⟩
  · have hinv := RecordRing.not_invalid hgen
    have hoff : it.offset = place s.ring s.unread j := hoff
    refine ⟨by omega, fun hlt => by omega, fun rec _ hrec => ?_, fun he => ?_⟩
    · rw [← s.getElem?_unread] at hrec
      refine ⟨h.ring.layout.at_of_mem (List.mem_of_getElem? hrec), ?_, ?_⟩
      · rw [RecordRing.recordIterRead, if_neg hinv, hoff, h.ring.read_place hrec]
      · refine ⟨⟨place s.ring s.unread (j + 1), incGeneration it.generation⟩, ?_, ?_⟩
        · rw [RecordRing.recordIterShift, if_neg hinv, hoff, h.ring.shift_place hrec]
          rfl
        · rw [Stands, Nat.add_assoc, ← s.getElem?_unread]
          have hlt := (List.getElem?_eq_some_iff.1 hrec).1
          cases hnext : s.unread[j + 1]? with
          | some rec' => exact h.ring.read_place hnext
          | none =>
            have hlast : j + 1 = s.unread.length := by
              have hge := List.getElem?_eq_none_iff.1 hnext
              omega
            change place s.ring s.unread (j + 1) = s.ring.tail
            rw [hlast, h.ring.place_length]
    · have hlast : j = s.unread.length := by omega
      have htail : it.offset = s.ring.tail := by rw [hoff, hlast, h.ring.place_length]
      have hempty : s.ring.head = s.ring.tail := by
        simpa [RecordRing.iterClear, hinv, htail] using hclear
      refine ⟨htail, ?_, ?_⟩
      · rw [RecordRing.recordIterRead, if_neg hinv, htail, RecordRing.ringReadAt, if_pos rfl]
      · rw [RecordRing.recordIterShift, if_neg hinv, RecordRing.ringShiftOffset, if_pos hempty]
        rfl

/-- In a ring with unread records `_ring_shift_offset` does not return `EAGAIN`. -/
lemma ringShiftOffset_ne_again {r : RecordRing} (hpos : 0 < r.size) (hlt : r.size < 2147483648)
    (h : r.head ≠ r.tail) : ∀ fuel off, r.ringShiftOffset fuel off ≠ some (.error .EAGAIN)
  | 0, off => by simp [RecordRing.ringShiftOffset]
  | fuel + 1, off => by
      rw [RecordRing.ringShiftOffset, if_neg h]
      split_ifs
      · exact ringShiftOffset_ne_again hpos hlt h fuel 0
      · have hoff : RecordRing.offsetAfter r.size off (load32 r.buf off) < r.size :=
          Nat.mod_lt _ hpos
        have hneg : isNegative (RecordRing.offsetAfter r.size off (load32 r.buf off)) = false :=
          decide_eq_false (by omega)
        simp [hneg]

/-- A valid iterator at the tail of a ring with unread records does not get `EAGAIN`. -/
lemma IterInv.clear (h : IterInv s) (hit : (it, pos) ∈ s.iters) (hh : IterHolds s it pos) :
    s.ring.iterClear it = true := by
  by_contra hno
  simp only [RecordRing.iterClear, Bool.or_eq_true, decide_eq_true_eq, not_or, not_not] at hno
  obtain ⟨⟨hinv, htail⟩, hne⟩ := hno
  rcases h.iters _ hit with ⟨hgen, -⟩ | ⟨j, hj, hpos, -, hoff⟩
  · exact hinv (decide_eq_true hgen)
  · have hpos : pos = s.shifted + j := hpos
    have hoff : it.offset = place s.ring s.unread j := hoff
    cases hrec : s.unread[j]? with
    | some rec => exact h.ring.place_ne_tail hrec (hoff.symm.trans htail)
    | none =>
      have hend : pos = s.log.length := by
        have hge := List.getElem?_eq_none_iff.1 hrec
        have hlen := s.unread_length
        have hle := h.shifted_le
        omega
      have hagain := (hh.tail hend).2.2
      rw [RecordRing.recordIterShift, if_neg hinv, Option.map_eq_some_iff] at hagain
      obtain ⟨x, hx, he⟩ := hagain
      cases x with
      | ok off => cases he
      | error e =>
        obtain rfl := Except.error.inj he
        have hhead := h.ring.layout.head_lt
        exact ringShiftOffset_ne_again (by omega) h.ring.size_lt hne _ _ hx

lemma incGeneration_eq {g : ℕ} (h : g < generationMax) : incGeneration g = g + 1 := by
  rw [generationMax] at h
  rw [incGeneration]
  omega

/-- What `record_iter_init` returns stands on the oldest unread record. -/
lemma IterOk.init (s : IterSys) : IterOk s s.ring.recordIterInit s.shifted :=
  .inr ⟨0, Nat.zero_le _, rfl, rfl, rfl⟩

namespace IterInv

/-- `record_write`: the iterators stay where they are. -/
lemma write {bs : List UInt8} (h : IterInv s) (hok : iterFits s (.write bs) = true)
    (hs : s.step (.write bs) = some t) : IterInv t := by
  simp only [IterSys.step] at hs
  split_ifs at hs
  split at hs
  · next data ring hb hw =>
    cases hs
    obtain ⟨hset, hhead, hsize, hgen⟩ := h.ring.recordWrite (of_decide_eq_true hok) hb hw
    have hunread : (s.log ++ [(⟨data - 4, bs⟩ : Rec)]).drop s.shifted
        = s.unread ++ [⟨data - 4, bs⟩] := List.drop_append_of_le_length h.shifted_le
    refine ⟨?_, ?_, fun it hit => ?_⟩
    · have hle := h.shifted_le
      exact hle.trans (by simp)
    · rw [IterSys.unread, hunread]
      exact hset
    · rcases h.iters it hit with ⟨hlt, hpos⟩ | ⟨j, hj, hpos, hadv, hoff⟩
      · exact .inl ⟨by rwa [hgen], hpos⟩
      · refine .inr ⟨j, ?_, hpos, by rw [hadv, hgen], ?_⟩
        · rw [IterSys.unread, hunread, List.length_append]
          omega
        · rw [IterSys.unread, hunread, hoff, place_append _ hj hhead hsize]
  · cases hs
    exact h

/-- `record_shift`: the iterators on its record are invalid, those ahead one place nearer. -/
lemma shift (h : IterInv s) (hok : iterFits s .shift = true) (hs : s.step .shift = some t) :
    IterInv t := by
  simp only [IterSys.step] at hs
  have hring := h.ring
  cases hlive : s.unread with
  | nil =>
    rw [hlive] at hring
    rw [hring.recordShift_nil] at hs
    cases hs
    exact h
  | cons rec rest =>
    rw [hlive] at hring
    have hne : s.ring.head ≠ s.ring.tail := hring.front.1
    have hmax : s.ring.generation < generationMax := by
      simpa [iterFits, hne] using hok
    obtain ⟨r', hshift, hset, hsize, -, -, -, hhead, hgen⟩ := hring.recordShift
    rw [incGeneration_eq hmax] at hgen
    rw [hshift] at hs
    cases hs
    have hunread : s.log.drop (s.shifted + 1) = rest := by
      rw [← List.tail_drop, ← IterSys.unread, hlive, List.tail_cons]
    have hlen := s.unread_length
    rw [hlive, List.length_cons] at hlen
    refine ⟨show s.shifted + 1 ≤ s.log.length by omega, ?_, fun it hit => ?_⟩
    · rw [IterSys.unread, hunread]
      exact hset
    · rcases h.iters it hit with ⟨hlt, hpos⟩ | ⟨j, hj, hpos, hadv, hoff⟩
      · exact .inl ⟨by rw [hgen]; exact hlt.trans (Nat.lt_succ_self _), hpos.trans
          (Nat.lt_succ_self _)⟩
      · cases j with
        | zero => exact .inl ⟨by rw [hgen, hadv]; exact Nat.lt_succ_self _, by
            rw [hpos]; exact Nat.lt_succ_self _⟩
        | succ j =>
          rw [hlive, List.length_cons] at hj
          have hj' : j ≤ rest.length := by omega
          refine .inr ⟨j, ?_, ?_, ?_, ?_⟩
          · rwa [IterSys.unread, hunread]
          · rw [hpos, Nat.add_assoc, Nat.add_comm 1 j]
          · rw [hadv, hgen, Nat.add_assoc, Nat.add_comm 1 j]
          · rw [IterSys.unread, hunread, hoff, hlive, place_cons hj' hhead hsize]

/-- `record_flush`: one record is flushed, or every valid iterator stood on the oldest. -/
lemma flush (h : IterInv s) (hok : iterFits s .flush = true) (hs : s.step .flush = some t) :
    IterInv t := by
  cases hs
  simp only [iterFits, Bool.and_eq_true, Bool.or_eq_true, decide_eq_true_eq, List.all_eq_true]
    at hok
  obtain ⟨hmax, hcase⟩ := hok
  have hgen := incGeneration_eq hmax
  have hlen := s.unread_length
  have hle := h.shifted_le
  have hunread : s.log.drop s.log.length = [] := List.drop_length
  refine ⟨le_rfl, ?_, fun it hit => ?_⟩
  · rw [IterSys.unread, hunread]
    refine ⟨⟨h.ring.size_mod, h.ring.size_lt, h.ring.tail_mod, h.ring.tail_mod,
      Layout.empty h.ring.layout.tail_lt⟩, fun htail hhead => ?_⟩
    exact absurd htail hhead
  · have stale : it.1.generation < s.ring.generation + 1 → it.2 < s.log.length →
        IterOk { s with ring := s.ring.recordFlush, shifted := s.log.length } it.1 it.2 :=
      fun h1 h2 => .inl ⟨by rwa [RecordRing.recordFlush, hgen], h2⟩
    rcases h.iters it hit with ⟨hlt, hpos⟩ | ⟨j, hj, hpos, hadv, hoff⟩
    · exact stale (hlt.trans (Nat.lt_succ_self _)) (by omega)
    · have hvalid : ¬ s.ring.recordIterInvalid it.1 = true := by
        rw [RecordRing.recordIterInvalid, decide_eq_true_iff]
        omega
      rcases hcase with hone | hall
      · obtain rfl | rfl : j = 0 ∨ j = 1 := by omega
        · exact stale (by omega) (by omega)
        · refine .inr ⟨0, Nat.zero_le _, ?_, ?_, ?_⟩
          · change it.2 = s.log.length + 0
            omega
          · rw [RecordRing.recordFlush, hgen]
            omega
          · rw [hoff, ← hone, h.ring.place_length, place_zero]
            rfl
      · obtain ⟨heq, hne⟩ := (hall it hit).resolve_left hvalid
        have hj0 : j = 0 := by omega
        have hpos' : s.unread.length ≠ 0 := by simpa [List.isEmpty_iff] using hne
        exact stale (by omega) (by omega)

lemma iterInit {i : ℕ} (h : IterInv s) (hs : s.step (.iterInit i) = some t) : IterInv t := by
  cases hs
  refine ⟨h.shifted_le, h.ring, fun it hit => ?_⟩
  have hold : it ∈ s.iters ∨ it = (s.ring.recordIterInit, s.shifted) := by
    dsimp only at hit
    split_ifs at hit with hi
    · exact List.mem_or_eq_of_mem_set hit
    · simpa using hit
  rcases hold with hmem | rfl
  · exact h.iters it hmem
  · exact IterOk.init s

/-- `record_iter_shift`: an iterator on an unread record goes to the next place. -/
lemma iterShift {i : ℕ} (h : IterInv s) (hok : iterFits s (.iterShift i) = true)
    (hs : s.step (.iterShift i) = some t) : IterInv t := by
  simp only [IterSys.step] at hs
  cases hi : s.iters[i]? with
  | none =>
    rw [hi] at hs
    cases hs
  | some it =>
    obtain ⟨it, pos⟩ := it
    simp only [hi] at hs
    simp only [iterFits, hi, Bool.or_eq_true, Bool.and_eq_true, decide_eq_true_eq] at hok
    obtain ⟨hclear, hmax⟩ := hok
    have hholds := h.holds (List.mem_of_getElem? hi) hclear
    rcases h.iters _ (List.mem_of_getElem? hi) with ⟨-, hpos⟩ | ⟨j, hj, hpos, hadv, hoff⟩
    · rw [(hholds.gone hpos).2] at hs
      cases hs
      exact h
    · have hpos : pos = s.shifted + j := hpos
      have hadv : it.generation = s.ring.generation + j := hadv
      have hoff : it.offset = place s.ring s.unread j := hoff
      have hinv := RecordRing.not_invalid hadv
      have hmax := hmax.resolve_left hinv
      cases hrec : s.unread[j]? with
      | none =>
        have hlast : j = s.unread.length := by
          have hge := List.getElem?_eq_none_iff.1 hrec
          omega
        have hend : pos = s.log.length := by
          have hlen := s.unread_length
          have hle := h.shifted_le
          omega
        rw [(hholds.tail hend).2.2] at hs
        cases hs
        exact h
      | some rec =>
        have hshift : s.ring.recordIterShift it
            = some (.ok ⟨place s.ring s.unread (j + 1), it.generation + 1⟩) := by
          rw [RecordRing.recordIterShift, if_neg hinv, hoff, h.ring.shift_place hrec,
            incGeneration_eq hmax]
          rfl
        rw [hshift] at hs
        cases hs
        refine ⟨h.shifted_le, h.ring, fun x hx => ?_⟩
        rcases List.mem_or_eq_of_mem_set hx with hmem | rfl
        · exact h.iters x hmem
        · have hlt := (List.getElem?_eq_some_iff.1 hrec).1
          refine .inr ⟨j + 1, hlt, ?_, ?_, rfl⟩
          · change pos + 1 = s.shifted + (j + 1)
            omega
          · change it.generation + 1 = s.ring.generation + (j + 1)
            omega

/-- Every operation that meets the condition keeps the invariant. -/
lemma step {a : IterOp} (h : IterInv s) (hok : iterFits s a = true) (hs : s.step a = some t) :
    IterInv t := by
  cases a with
  | write bs => exact h.write hok hs
  | shift => exact h.shift hok hs
  | flush => exact h.flush hok hs
  | iterInit i => exact h.iterInit hs
  | iterShift i => exact h.iterShift hok hs

/-- The ring before the first call. -/
lemma init {size : ℕ} {buf : Mem} (hmod : size % 64 = 0) (hpos : 0 < size)
    (hlt : size < 2147483648) : IterInv (.init (.fresh size buf)) := by
  refine ⟨le_rfl, ⟨(Inv.fresh hmod hpos hlt).ring, fun _ hh => absurd rfl hh⟩, fun it hit => ?_⟩
  cases hit

end IterInv

/-! ### Runs -/

/-- **Iterators on a record ring.** In every state of every run whose operations meet
`iterFits`: an iterator on a committed unread record reads it and is shifted to the next; at
the tail it gets `EAGAIN`; once its record is shifted or flushed it gets `EINVAL`; all this
exactly if it is not valid and at the tail of a ring with unread records. -/
theorem record_iterators {size : ℕ} {buf : Mem} {s : IterSys} (hmod : size % 64 = 0)
    (hpos : 0 < size) (hlt : size < 2147483648)
    (hr : Reach IterSys.step (fun s a => iterFits s a = true) (.init (.fresh size buf)) s) :
    ∀ it pos, (it, pos) ∈ s.iters → (IterHolds s it pos ↔ s.ring.iterClear it = true) := by
  have hinv : IterInv s := hr.invariant (P := IterInv) (.init hmod hpos hlt)
    fun h hok hs => h.step hok hs
  exact fun it pos hit => ⟨hinv.clear hit, hinv.holds hit⟩

/-- Two records, an iterator shifted to the second one, and the first one consumed. -/
def iterRun : List IterOp :=
  [.write [1, 2], .write [3], .iterInit 0, .iterShift 0, .shift]

/-- The iterator yields the second record. -/
theorem record_iterators_iterRun : ∃ s : IterSys,
    run IterSys.step iterFits (.init (.fresh 64 fun _ => 0)) iterRun = some s ∧
    ∃ it, s.ring.recordIterRead it = some (.ok (1, 12)) ∧ IterHolds s it 1 := by
  have hrun : (run IterSys.step iterFits (.init (.fresh 64 fun _ => 0)) iterRun).map
      (fun s => (s.iters, decide (s.ring.recordIterRead ⟨8, 1⟩ = some (.ok (1, 12))),
        s.ring.iterClear ⟨8, 1⟩)) = some ([(⟨8, 1⟩, 1)], true, true) := by decide
  obtain ⟨s, hs, hv, hr⟩ := run_map hrun
  simp only [Prod.mk.injEq, decide_eq_true_eq] at hv
  obtain ⟨hits, hread, hclear⟩ := hv
  exact ⟨s, hs, ⟨8, 1⟩, hread, (record_iterators (by decide) (by decide) (by decide)
    hr ⟨8, 1⟩ 1 (by simp [hits])).2 hclear⟩

/-- `record_iter_shift` on an iterator at the tail succeeds as long as the ring holds records:
`_ring_shift_offset` compares the tail with the head of the ring. -/
theorem record_iterators_tail : ¬ ∀ (size : ℕ) (buf : Mem) (s : IterSys), size % 64 = 0 →
    0 < size → size < 2147483648 →
    Reach IterSys.step (fun _ _ => True) (.init (.fresh size buf)) s →
    ∀ it pos, (it, pos) ∈ s.iters → IterHolds s it pos := by
  intro h
  have hrun : (run IterSys.step (fun _ _ => true) (.init (.fresh 64 fun _ => 0))
      [.write [1, 2], .iterInit 0, .iterShift 0]).map (fun s => (s.iters, s.log.length,
        decide (s.ring.recordIterShift ⟨8, 1⟩ = some (.error .EAGAIN))))
      = some ([(⟨8, 1⟩, 1)], 1, false) := by decide
  obtain ⟨s, -, hv, hr⟩ := run_map hrun
  simp only [Prod.mk.injEq, decide_eq_false_iff_not] at hv
  obtain ⟨hits, hlen, hagain⟩ := hv
  have hh := h 64 _ s (by decide) (by decide) (by decide) (hr.mono
    fun _ => trivial) ⟨8, 1⟩ 1 (by simp [hits])
  exact hagain (hh.tail hlen.symm).2.2

end MachinekitHal
