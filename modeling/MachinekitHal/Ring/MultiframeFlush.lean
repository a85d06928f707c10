import MachinekitHal.Ring.MultiframeRoundTrip

/-!
`msg_write_flush` and `msg_write_abort` in any order.

`msg_write_flush` commits what the writer's fields describe, also when no frame was
begun since the last flush or abort: `_write` is then a null pointer, and `write_off`
still that of the message before.

* `RecordRing.contents`: the unread records, as a reader obtains them.
* `MsgBuf.granted`: the space granted for the message in progress.
* `MsgSys.flushStep`: the calls, with any `msg_write_flush` and `msg_write_abort`.
* `flushFits`: `msg_write_flush` is called for a message in progress.
* `msg_flush_commits`: a flush appends the frames committed, in the space granted.
-/

namespace MachinekitHal

open Bytes Word Runs

/-! ### The contents of a ring -/

namespace RecordRing

/-- What a reader obtains with at most `n` reads, each record consumed behind its read. -/
def drain : ℕ → RecordRing → List (List UInt8)
  | 0, _ => []
  | n + 1, r =>
    match r.recordRead, r.recordShift with
    | some (.ok (size, data)), some (.ok r') => loadBytes r.buf data size :: drain n r'
    | _, _ => []

/-- The unread records, the oldest first. -/
def contents (r : RecordRing) : List (List UInt8) := r.drain r.size

end RecordRing

namespace Settled

/-- A reader that goes on for long enough obtains every unread record. -/
lemma drain {r : RecordRing} {live : List Rec} (h : Settled r live) {n : ℕ}
    (hn : live.length ≤ n) : r.drain n = live.map Rec.bytes := by
  induction live generalizing r n with
  | nil =>
    cases n with
    | zero => rfl
    | succ n => rw [RecordRing.drain, h.recordRead, h.recordShift_nil]; rfl
  | cons rec rest ih =>
    rw [List.length_cons] at hn
    obtain ⟨k, rfl⟩ : ∃ k, n = k + 1 := ⟨n - 1, by omega⟩
    have hat := h.front.2.1
    obtain ⟨r', hshift, hrest, -⟩ := h.recordShift
    rw [RecordRing.drain, h.recordRead, hshift]
    simp only [List.map_cons, ih hrest (show rest.length ≤ k by omega), hat.data]

lemma contents {r : RecordRing} {live : List Rec} (h : Settled r live) :
    r.contents = live.map Rec.bytes := h.drain h.layout.length_le

end Settled

/-! ### The space granted -/

/-- The space a message in progress may take behind `tail`: the record that
`record_write_begin` was asked for last, and the rest of the buffer in front of it if it goes
to the start. -/
def MsgBuf.granted (m : MsgBuf) : ℕ :=
  match m.write with
  | none => 0
  | some w =>
    (if w = 4 then (m.ring.size - m.ring.tail) % m.ring.size else 0) + recordUsage m.writeSize

/-- How far `tail` moved on from the ring `r` to the ring `r'`. -/
def tailAdvance (r r' : RecordRing) : ℕ := (r'.tail + r.size - r.tail) % r.size

lemma tailAdvance_eq_zero {r r' : RecordRing} (h : r'.tail = r.tail) : tailAdvance r r' = 0 := by
  rw [tailAdvance, h, Nat.add_sub_cancel_left, Nat.mod_self]

/-- A record in the room handed out moves `tail` by no more than that room. -/
lemma RingOk.tailAdvance_le {r : RecordRing} {live : List Rec} (h : RingOk r live)
    {w c a : ℕ} (hb : Begun r w a) (hc : recordUsage c ≤ a) :
    tailAdvance r (r.recordWriteEnd w c) ≤
      (if w = 4 then (r.size - r.tail) % r.size else 0) + a := by
  have hlt := h.size_lt
  have htail := h.layout.tail_lt
  have hhead := h.layout.head_lt
  rcases hb with ⟨rfl, hr⟩ | ⟨rfl, hr⟩
  · have hend := hr.1
    rw [tailAdvance, recordWriteEnd_tail (Or.inr rfl), wrap32_of_lt (by omega)]
    rcases Nat.lt_or_ge (r.tail + recordUsage c) r.size with hfit | hfull
    · rw [Nat.mod_eq_of_lt (show r.tail + 4 - 4 + recordUsage c < r.size by omega),
        show r.tail + 4 - 4 + recordUsage c + r.size - r.tail = recordUsage c + r.size by omega,
        Nat.add_mod_right]
      exact le_trans (Nat.mod_le _ _) (by omega)
    · rw [show r.tail + 4 - 4 + recordUsage c = r.size by omega, Nat.mod_self, Nat.zero_add]
      exact le_trans (Nat.mod_le _ _) (by omega)
  · obtain ⟨hle, hroom⟩ := hr
    rw [tailAdvance, recordWriteEnd_tail (Or.inl rfl), wrap32_of_lt (by omega), if_pos rfl,
      Nat.mod_eq_of_lt (show 4 - 4 + recordUsage c < r.size by omega),
      Nat.mod_eq_of_lt (show r.size - r.tail < r.size by omega)]
    exact le_trans (Nat.mod_le _ _) (by omega)

/-! ### The calls -/

/-- The calls, now with `msg_write_abort`. -/
inductive FlushOp where
  | msg (op : MsgOp)
  | msgWriteAbort

/-- The calls of the writer but for `msg_write_flush`. -/
def FlushOp.writesFrame : FlushOp → Bool
  | .msg (.frameWriteBegin _ _) | .msg (.fill _ _) | .msg (.frameWriteEnd _) => true
  | .msgWriteAbort => true
  | _ => false

/-- One call. A message may be flushed or aborted at any time, also without a frame, and
with a frame begun and not ended. -/
def MsgSys.flushStep (s : MsgSys) : FlushOp → Option MsgSys
  | .msg .msgWriteFlush =>
    some { s with
      mb := s.mb.msgWriteFlush, opened := none, wret := none, pending := []
      sent := s.sent ++ [s.pending] }
  | .msg op => s.step op
  | .msgWriteAbort =>
    some { s with mb := s.mb.msgWriteAbort, opened := none, wret := none, pending := [] }

/-- The runs of the users of a message buffer on a ring just set up. -/
abbrev MsgFlushReach (ok : MsgSys → FlushOp → Bool) (size : ℕ) (buf : Mem) : MsgSys → Prop :=
  Reach MsgSys.flushStep (fun s op => ok s op = true) (.init (.fresh size buf))

/-- The calls `ok` commit what was written, and nothing else. -/
structure FlushCommits (ok : MsgSys → FlushOp → Bool) (s : MsgSys) : Prop where
  /-- a flush appends one record: the frames ended since the flush or abort before -/
  appends : ∀ t, ok s (.msg .msgWriteFlush) = true →
    s.flushStep (.msg .msgWriteFlush) = some t →
    t.mb.ring.contents = s.mb.ring.contents ++ [encodeMsg s.pending] ∨
      s.pending = [] ∧ t.mb.ring.contents = s.mb.ring.contents
  /-- the other calls of the writer append nothing -/
  keeps : ∀ op t, op.writesFrame = true → ok s op = true → s.flushStep op = some t →
    t.mb.ring.contents = s.mb.ring.contents
  /-- no call moves `tail` on by more than the space granted for the message -/
  advances : ∀ op t, ok s op = true → s.flushStep op = some t →
    tailAdvance s.mb.ring t.mb.ring ≤ s.mb.granted

/-- A frame is written as `frameFits` says, and a flush follows a frame begun since the
flush or abort before. -/
def flushFits (s : MsgSys) : FlushOp → Bool
  | .msg .msgWriteFlush => s.mb.write.isSome
  | .msg op => frameFits s op
  | .msgWriteAbort => true

/-- The calls but for the flush are those of `MsgSys.step`. -/
lemma MsgSys.flushStep_msg {s : MsgSys} {op : MsgOp} (hne : op ≠ .msgWriteFlush) :
    s.flushStep (.msg op) = s.step op := by
  cases op with
  | msgWriteFlush => exact absurd rfl hne
  | _ => rfl

lemma flushFits_msg {s : MsgSys} {op : MsgOp} (hne : op ≠ .msgWriteFlush) :
    flushFits s (.msg op) = frameFits s op := by
  cases op with
  | msgWriteFlush => exact absurd rfl hne
  | _ => rfl

namespace MsgInv

variable {s t : MsgSys} {live : List Rec} {left : List (List Frame)}

/-- A call that meets the condition keeps the invariant. -/
theorem flushStep (h : MsgInv s live left) {op : FlushOp} (hfit : flushFits s op = true)
    (hs : s.flushStep op = some t) : ∃ live' left', MsgInv t live' left' := by
  cases op with
  | msgWriteAbort =>
    cases hs
    exact ⟨_, _, h.abort⟩
  | msg op =>
    by_cases hne : op = .msgWriteFlush
    · subst hne
      obtain ⟨w, hwrite⟩ := Option.isSome_iff_exists.mp hfit
      cases hs
      exact ⟨_, _, (h.flush hwrite).2.2⟩
    · rw [flushFits_msg hne] at hfit
      rw [MsgSys.flushStep_msg hne] at hs
      exact h.step hfit hs

/-- The calls of the writer but for the flush keep the unread records, and `tail`. -/
lemma writesFrame_step (h : MsgInv s live left) {op : FlushOp} (hw : op.writesFrame = true)
    (hfit : flushFits s op = true) (hs : s.flushStep op = some t) :
    MsgInv t live left ∧ t.mb.ring.tail = s.mb.ring.tail := by
  have hplace (hip : InPlace s.mb t.mb) : t.mb.ring.tail = s.mb.ring.tail := by rw [hip.ring]
  cases op with
  | msgWriteAbort =>
    cases hs
    exact ⟨h.abort, rfl⟩
  | msg op =>
    cases op with
    | frameWriteBegin size flags =>
      obtain ⟨hinv, heq | ⟨_, hip⟩⟩ := h.begin_step hfit hs
      · exact ⟨hinv, by rw [heq]⟩
      · exact ⟨hinv, hplace hip⟩
    | fill i bs => exact ⟨(h.fill_step hs).1, hplace (h.fill_step hs).2⟩
    | frameWriteEnd c => exact ⟨(h.end_step hfit hs).1, hplace (h.end_step hfit hs).2⟩
    | _ => cases hw

/-- The reader leaves `tail` alone. -/
lemma reader_tail (h : MsgInv s live left) {op : FlushOp} (hw : op.writesFrame = false)
    (hne : op ≠ .msg .msgWriteFlush) (hs : s.flushStep op = some t) :
    t.mb.ring.tail = s.mb.ring.tail := by
  cases op with
  | msgWriteAbort => cases hw
  | msg op =>
    cases op with
    | msgWriteFlush => exact absurd rfl hne
    | frameRead =>
      obtain ⟨t', ht, _, hring, _⟩ := h.frameRead_step
      cases ht.symm.trans hs
      rw [hring]
    | frameShift => rw [(h.frameShift_step hs).2]
    | msgReadFlush =>
      obtain ⟨hret, hsome⟩ := MsgSys.msgReadFlush_enabled hs
      obtain ⟨t', _, _, ht, _, _, htail, _⟩ := h.msgReadFlush_step hret hsome
      cases ht.symm.trans hs
      exact htail
    | _ => cases hw

/-- The invariant says what a flush commits. -/
theorem flushCommits (h : MsgInv s live left) : FlushCommits flushFits s where
  appends := by
    intro t hfit hs
    obtain ⟨w, hwrite⟩ := Option.isSome_iff_exists.mp hfit
    cases hs
    obtain ⟨_, _, hinv⟩ := h.flush hwrite
    have hbytes := (h.write.busy w hwrite).frames
    rw [hinv.ring.contents, h.ring.contents, List.map_append, List.map_singleton, committed,
      hbytes]
    exact Or.inl rfl
  keeps := by
    intro op t hw hfit hs
    rw [(h.writesFrame_step hw hfit hs).1.ring.contents, h.ring.contents]
  advances := by
    intro op t hfit hs
    cases hw : op.writesFrame with
    | true => rw [tailAdvance_eq_zero (h.writesFrame_step hw hfit hs).2]; exact Nat.zero_le _
    | false =>
      by_cases hne : op = .msg .msgWriteFlush
      · subst hne
        obtain ⟨w, hwrite⟩ := Option.isSome_iff_exists.mp hfit
        cases hs
        obtain ⟨hbegun, hsmall, _⟩ := h.flush hwrite
        have hfits := (h.write.busy w hwrite).fits
        have hle : recordUsage s.mb.writeOff ≤ recordUsage s.mb.writeSize := by
          rw [recordUsage_small (by omega), recordUsage_small hsmall]
          omega
        have hadv := h.ring.tailAdvance_le hbegun hle
        simpa only [MsgBuf.msgWriteFlush, MsgBuf.granted, hwrite, Option.getD_some] using hadv
      · rw [tailAdvance_eq_zero (h.reader_tail hw hne hs)]
        exact Nat.zero_le _

end MsgInv

/-- In every run whose calls meet the condition a flush commits exactly the frames ended
since the flush or abort before it, in the space granted for them. -/
theorem msg_flush_commits {size : ℕ} {buf : Mem} {s : MsgSys} (hmod : size % 64 = 0)
    (hpos : 0 < size) (hlt : size < 2147483648) (hrun : MsgFlushReach flushFits size buf s) :
    FlushCommits flushFits s := by
  have hinv : ∃ live left, MsgInv s live left :=
    hrun.invariant (P := fun s => ∃ live left, MsgInv s live left)
      ⟨[], [], .init hmod hpos hlt⟩ fun ⟨_, _, h⟩ hok hs => h.flushStep hok hs
  obtain ⟨_, _, h⟩ := hinv
  exact h.flushCommits

/-- A message of one frame is aborted, an empty frame is sent off, and another frame begun. -/
def abortedMessage : List FlushOp :=
  [.msg (.frameWriteBegin 1 5), .msg (.fill 0 [7]), .msg (.frameWriteEnd 1), .msgWriteAbort,
    .msg (.frameWriteBegin 0 6), .msg (.frameWriteEnd 0), .msg .msgWriteFlush,
    .msg (.frameWriteBegin 2 8)]

/-- The aborted message is not in the ring. -/
theorem msg_flush_commits_abortedMessage :
    ∃ s, run MsgSys.flushStep flushFits (.init (.fresh 256 fun _ => 0)) abortedMessage = some s ∧
      s.mb.ring.contents = [encodeMsg [⟨6, []⟩]] ∧ FlushCommits flushFits s := by
  have hrun : (run MsgSys.flushStep flushFits (.init (.fresh 256 fun _ => 0))
      abortedMessage).map (fun s => s.mb.ring.contents) = some [encodeMsg [⟨6, []⟩]] := by
    decide
  obtain ⟨s, hs, hcontents, hreach⟩ := run_map hrun
  exact ⟨s, hs, hcontents, msg_flush_commits (by decide) (by decide) (by decide) hreach⟩

/-- A message of one byte is sent off. -/
def messageSent : List FlushOp :=
  [.msg (.frameWriteBegin 1 5), .msg (.fill 0 [7]), .msg (.frameWriteEnd 1),
    .msg .msgWriteFlush]

/-- A second flush commits a record as long as the message before, which nobody wrote, and
for which no space was asked. -/
theorem msg_flush_twice :
    ∃ s, MsgFlushReach (fun _ _ => true) 256 (fun _ => 0) s ∧
      ¬ FlushCommits (fun _ _ => true) s := by
  have hrun : (run MsgSys.flushStep (fun _ _ => true) (.init (.fresh 256 fun _ => 0))
      messageSent).map (fun s => (s.mb.granted, (s.flushStep (.msg .msgWriteFlush)).map
        fun t => tailAdvance s.mb.ring t.mb.ring)) = some (0, some 16) := by decide
  obtain ⟨s, -, hpair, hreach⟩ := run_map hrun
  obtain ⟨hgranted, hadvance⟩ := Prod.mk.inj hpair
  obtain ⟨t, ht, hadv⟩ := Option.map_eq_some_iff.mp hadvance
  refine ⟨s, hreach, fun h => ?_⟩
  have hle := h.advances _ t rfl ht
  rw [hgranted, hadv] at hle
  omega

end MachinekitHal
