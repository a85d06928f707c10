import MachinekitHal.Lib.Buffers
import MachinekitHal.Ring.Record

/-!
`rtapi_support.c`: log messages.

* `LogState`: the message ring, if it is there, and what was printed without it.
* `vsRinglogfv`: formats a message into an `rtapi_msg_t` on the stack, and writes it to the
  ring or prints it. There is no result when an access is outside that buffer.
* `LogInBounds`: no access is outside, and the record is the header and the text.
* `TooLong`: the message does not fit, and is neither dropped nor refused.
* `log_records`: a message is logged inside the buffer exactly if it is not too long.
-/

namespace MachinekitHal

open Buffers Bytes

/-- `RTPRINTBUFFERLEN`. -/
def rtprintbufferlen : ℕ := 256

/-- `TAGSIZE`. -/
def tagsize : ℕ := 16

/-- `sizeof(rtapi_msgheader_t)`. -/
def sizeofMsgheader : ℕ := 28

/-- `RTAPI_MSG_NONE`. -/
def rtapiMsgNone : ℤ := 0

/-- `rtapi_msg_t` on the stack, with what was there before. -/
structure RtapiMsg where
  bytes : List UInt8
  size : bytes.length = sizeofMsgheader + rtprintbufferlen

/-- The arguments of `vs_ringlogfv` beside the format. -/
structure LogArgs where
  level : ℤ
  pid : ℤ
  origin : ℕ
  tag : List UInt8

/-- The message ring with its writer mutex. -/
structure MsgRing where
  ring : RecordRing
  useWmutex : Bool
  wmutex : Bool

/-- A line printed to stderr and to the system log. -/
structure LogLine where
  level : ℤ
  tag : List UInt8
  pid : ℤ
  origin : ℕ
  text : List UInt8
  deriving DecidableEq

/-- What `vs_ringlogfv` works on; `records` is the history of what was committed. -/
structure LogState where
  msgLevel : ℤ
  messageBuffer : Option MsgRing
  errorRingLocked : ℕ
  lines : List LogLine
  records : List (List UInt8)

/-- The bytes of an `int`. -/
def intBytes (x : ℤ) : List UInt8 := le32 (x % 4294967296).toNat

/-- What `strncpy` stores in `n` bytes. -/
def strncpy (n : ℕ) (s : List UInt8) : List UInt8 := s.take n ++ List.replicate (n - s.length) 0

/-- The header of a message. -/
def LogArgs.header (a : LogArgs) : List UInt8 :=
  intBytes a.origin ++ intBytes a.pid ++ intBytes a.level ++ strncpy tagsize a.tag

/-- What `vsnprintf` stores of an expansion in a buffer of `size` bytes. -/
def vsnprintf (size : ℕ) (text : List UInt8) : List UInt8 := text.take (size - 1) ++ [0]

/-- `strcat(buf, "\n")` for the string at `off`. -/
def strcatNewline (l : List UInt8) (off : ℕ) : Option (List UInt8) :=
  (cStringAt 0 l off).bind fun s => writeAt l (off + s.length) [10, 0]

/-- `record_write` of the first `sz` bytes of a buffer, which are not read when it is refused. -/
def RecordRing.recordWriteFrom (r : RecordRing) (l : List UInt8) (sz : ℕ) :
    Option (Except Errno (List UInt8 × RecordRing)) :=
  match r.recordWriteBegin sz with
  | .error e => some (.error e)
  | .ok _ => (readAt l 0 sz).map fun bs => (r.recordWrite bs).map fun r => (bs, r)

/-- The message goes to the ring; what `record_write` returns is not looked at. -/
def LogState.ringlog (s : LogState) (m : MsgRing) (msg : List UInt8) (n : ℕ) :
    Option (ℤ × LogState) :=
  if m.useWmutex ∧ m.wmutex then
    some (-Errno.EBUSY.code, { s with errorRingLocked := s.errorRingLocked + 1 })
  else
    (m.ring.recordWriteFrom msg (sizeofMsgheader + n + 1)).map fun
      | .error _ => (n, s)
      | .ok (bs, r) =>
        (n, { s with
              messageBuffer := some { m with ring := r }
              records := s.records ++ [bs] })

/-- Early startup: the message is printed, with a newline. -/
def LogState.startupLog (s : LogState) (a : LogArgs) (msg : List UInt8) (n : ℕ) :
    Option (ℤ × LogState) :=
  (cStringAt 0 msg sizeofMsgheader).bind fun str =>
  (if 10 ∈ str then some msg else strcatNewline msg sizeofMsgheader).bind fun msg =>
  (cStringAt 0 msg sizeofMsgheader).map fun str =>
    (n, { s with lines := s.lines ++ [⟨a.level, a.tag, a.pid, a.origin &&& 3, str⟩] })

/-- `vs_ringlogfv` for a format that expands to `text`; an `int` is large enough for what
`vsnprintf` returns. -/
def vsRinglogfv (stack : RtapiMsg) (a : LogArgs) (text : List UInt8) (s : LogState) :
    Option (ℤ × LogState) :=
  if s.msgLevel = rtapiMsgNone then some (0, s) else
  if s.msgLevel < a.level then some (0, s) else
  (writeAt stack.bytes 0 a.header).bind fun msg =>
  (writeAt msg sizeofMsgheader (vsnprintf rtprintbufferlen text)).bind fun msg =>
  match s.messageBuffer with
  | some m => s.ringlog m msg text.length
  | none => s.startupLog a msg text.length

/-- The record a message should be: the header, the text cut to the buffer, and its end. -/
def LogArgs.record (a : LogArgs) (text : List UInt8) : List UInt8 :=
  a.header ++ (text.take (rtprintbufferlen - 1) ++ [0])

/-- A message is logged without an access outside the buffer, and what is committed is its
record. -/
def LogInBounds (stack : RtapiMsg) (a : LogArgs) (text : List UInt8) (s : LogState) : Prop :=
  ∃ rc s', vsRinglogfv stack a text s = some (rc, s') ∧
    (s'.records = s.records ∨ s'.records = s.records ++ [a.record text])

/-- The record of a message that is not dropped would be longer than the buffer, and the ring
takes it; or without a ring there is no room for the newline. -/
def TooLong (a : LogArgs) (text : List UInt8) (s : LogState) : Prop :=
  s.msgLevel ≠ rtapiMsgNone ∧ a.level ≤ s.msgLevel ∧
    match s.messageBuffer with
    | some m =>
      ¬ (m.useWmutex ∧ m.wmutex) ∧ rtprintbufferlen ≤ text.length ∧
        ∃ data, m.ring.recordWriteBegin (sizeofMsgheader + text.length + 1) = .ok data
    | none =>
      rtprintbufferlen - 1 ≤ (text.takeWhile (· ≠ 0)).length ∧
        (10 : UInt8) ∉ text.take (rtprintbufferlen - 1)

/-! ### The buffer -/

variable {a : LogArgs} {text : List UInt8} {s : LogState} {stack : RtapiMsg}

@[simp] lemma LogArgs.length_header (a : LogArgs) : a.header.length = sizeofMsgheader := by
  simp only [LogArgs.header, intBytes, le32, strncpy, List.length_append, List.length_cons,
    List.length_nil, List.length_take, List.length_replicate, tagsize, sizeofMsgheader]
  omega

lemma length_vsnprintf (text : List UInt8) :
    (vsnprintf rtprintbufferlen text).length ≤ rtprintbufferlen := by
  simp only [vsnprintf, rtprintbufferlen, List.length_append, List.length_take, List.length_cons,
    List.length_nil]
  omega

/-- **The formatted message**: the header, the text cut to the buffer and terminated, and what
is left of the buffer. -/
lemma formatted (stack : RtapiMsg) (a : LogArgs) (text : List UInt8) :
    ∃ junk, (writeAt stack.bytes 0 a.header).bind (fun msg =>
        writeAt msg sizeofMsgheader (vsnprintf rtprintbufferlen text)) =
        some (a.record text ++ junk) ∧
      (a.record text).length + junk.length = sizeofMsgheader + rtprintbufferlen := by
  have hsize := stack.size
  have hle : a.header.length ≤ stack.bytes.length := by
    rw [a.length_header, hsize]
    exact Nat.le_add_right _ _
  have hhdr := writeAt_append [] hle
  have hpost : (stack.bytes.drop a.header.length).length = rtprintbufferlen := by
    rw [List.length_drop, hsize, a.length_header, Nat.add_sub_cancel_left]
  have hfits : (vsnprintf rtprintbufferlen text).length ≤
      (stack.bytes.drop a.header.length).length := by
    rw [hpost]
    exact length_vsnprintf text
  have hfmt := writeAt_append a.header hfits
  rw [a.length_header] at hfmt
  simp only [List.nil_append, List.length_nil] at hhdr
  refine ⟨(stack.bytes.drop a.header.length).drop (vsnprintf rtprintbufferlen text).length, ?_, ?_⟩
  · rw [hhdr, Option.bind_some, a.length_header, hfmt, LogArgs.record, ← vsnprintf,
      List.append_assoc]
  · have hle := length_vsnprintf text
    rw [List.length_drop, hpost, LogArgs.record, ← vsnprintf, List.length_append, a.length_header]
    omega

lemma length_record (a : LogArgs) (text : List UInt8) : (a.record text).length =
    sizeofMsgheader + min (rtprintbufferlen - 1) text.length + 1 := by
  simp [LogArgs.record, Nat.add_assoc]

/-! ### The two destinations -/

/-- **A message to the ring** reads inside the buffer exactly if it fits. -/
lemma recordWriteFrom_eq {r : RecordRing} {junk : List UInt8} {data : ℕ}
    (hlen : (a.record text).length + junk.length = sizeofMsgheader + rtprintbufferlen)
    (hr : r.recordWriteBegin (sizeofMsgheader + text.length + 1) = .ok data) :
    r.recordWriteFrom (a.record text ++ junk) (sizeofMsgheader + text.length + 1) =
      if text.length < rtprintbufferlen then
        some ((r.recordWrite (a.record text)).map fun r => (a.record text, r))
      else none := by
  rw [RecordRing.recordWriteFrom, hr]
  have hrec := length_record a text
  by_cases hfit : text.length < rtprintbufferlen
  · have hsz : sizeofMsgheader + text.length + 1 = (a.record text).length := by omega
    have hread := readAt_append [] (a.record text) junk
    simp only [List.nil_append, List.length_nil] at hread
    rw [if_pos hfit, hsz]
    simp only [hread, Option.map_some]
  · rw [if_neg hfit]
    simp only [readAt, List.length_append, hlen]
    rw [if_neg (by omega), Option.map_none]

/-- The newline is appended exactly if there is room for it in front of the end. -/
lemma strcatNewline_isSome {hdr str post : List UInt8} (hhdr : hdr.length = sizeofMsgheader)
    (hstr : (0 : UInt8) ∉ str)
    (hlen : (str ++ 0 :: post).length = rtprintbufferlen) :
    ((strcatNewline (hdr ++ (str ++ 0 :: post)) sizeofMsgheader).bind fun msg =>
      cStringAt 0 msg sizeofMsgheader).isSome = true ↔ str.length < rtprintbufferlen - 1 := by
  have hread := cStringAt_append (0 : UInt8) hdr str post
  rw [takeWhile_of_notMem hstr, hhdr] at hread
  rw [List.length_append, List.length_cons] at hlen
  have hpre : (hdr ++ str).length = sizeofMsgheader + str.length := by
    rw [List.length_append, hhdr]
  rw [strcatNewline, hread, Option.bind_some, ← List.append_assoc, ← hpre]
  by_cases hroom : str.length < rtprintbufferlen - 1
  · have hfits : ([10, 0] : List UInt8).length ≤ (0 :: post).length := by
      simp only [List.length_cons, List.length_nil]
      omega
    have hwrite := writeAt_append (hdr ++ str) hfits
    have hend := cStringAt_append (0 : UInt8) hdr (str ++ [10]) ((0 :: post).drop 2)
    rw [hhdr] at hend
    refine iff_of_true ?_ hroom
    rw [hwrite, Option.bind_some]
    have hparts : hdr ++ str ++ ([10, 0] ++ (0 :: post).drop ([10, 0] : List UInt8).length)
        = hdr ++ (str ++ [10] ++ 0 :: (0 :: post).drop 2) := by simp
    rw [hparts, hend]
    rfl
  · rw [writeAt_none (by simp only [List.length_cons, List.length_nil]; omega)]
    simp [hroom]

/-- **A message without the ring** is printed exactly if there is a newline in it or room for
one. -/
lemma startupLog_isSome {junk : List UInt8}
    (hlen : (a.record text).length + junk.length = sizeofMsgheader + rtprintbufferlen)
    (s : LogState) (n : ℕ) : (s.startupLog a (a.record text ++ junk) n).isSome = true ↔
      ((text.takeWhile (· ≠ 0)).length < rtprintbufferlen - 1 ∨
        (10 : UInt8) ∈ text.take (rtprintbufferlen - 1)) := by
  set cut := text.take (rtprintbufferlen - 1) with hcut
  set str := cut.takeWhile (· ≠ 0) with hstr
  have hbuf : a.record text ++ junk = a.header ++ (cut ++ 0 :: junk) := by
    simp [LogArgs.record, hcut]
  have hread := cStringAt_append (0 : UInt8) a.header cut junk
  rw [a.length_header, ← hstr] at hread
  have htake : str = (text.takeWhile (· ≠ 0)).take (rtprintbufferlen - 1) := by
    rw [hstr, hcut, List.take_takeWhile]
  have hshort : str.length < rtprintbufferlen - 1 ↔
      (text.takeWhile (· ≠ 0)).length < rtprintbufferlen - 1 := by
    rw [htake, List.length_take]
    omega
  rw [LogState.startupLog, hbuf, hread, Option.bind_some, ← hshort]
  by_cases hnl : (10 : UInt8) ∈ str
  · rw [if_pos hnl, Option.bind_some, hread]
    exact iff_of_true rfl (.inr ((List.takeWhile_sublist _).mem hnl))
  · -- the rest of the buffer behind the string starts with the terminator
    obtain ⟨post, hpost⟩ := exists_terminator 0 cut junk
    have h0 : (0 : UInt8) ∉ str := notMem_takeWhile 0 cut
    have hlenb : (str ++ 0 :: post).length = rtprintbufferlen := by
      rw [← List.length_append, hbuf, List.length_append, a.length_header, hpost] at hlen
      exact Nat.add_left_cancel hlen
    have hroom := strcatNewline_isSome a.length_header h0 hlenb
    rw [if_neg hnl, hpost, ← hstr]
    simp only [Option.isSome_bind, Option.isSome_map] at hroom ⊢
    refine hroom.trans ⟨.inl, fun h => h.elim id fun hmem => ?_⟩
    -- the newline is behind a terminator
    have hlt : str.length < cut.length :=
      lt_of_le_of_ne (List.takeWhile_sublist _).length_le fun heq => by
        rw [← (List.takeWhile_sublist _).eq_of_length heq] at hmem
        exact hnl hmem
    exact hlt.trans_le (by rw [hcut, List.length_take]; exact Nat.min_le_left _ _)

lemma startupLog_records {msg : List UInt8} {n : ℕ} {rc : ℤ} {s' : LogState}
    (h : s.startupLog a msg n = some (rc, s')) : s'.records = s.records := by
  simp only [LogState.startupLog, Option.bind_eq_some_iff, Option.map_eq_some_iff] at h
  obtain ⟨_, _, _, _, _, _, h⟩ := h
  rw [← (Prod.mk.inj h).2]

/-! ### The result -/

/-- **Log records.** A message is logged without an access outside its buffer, as the record that
it should be, exactly if it is not too long. -/
theorem log_records (stack : RtapiMsg) (a : LogArgs) (text : List UInt8) (s : LogState) :
    LogInBounds stack a text s ↔ ¬ TooLong a text s := by
  rw [LogInBounds, TooLong, vsRinglogfv]
  by_cases hnone : s.msgLevel = rtapiMsgNone
  · exact iff_of_true ⟨0, s, if_pos hnone, .inl rfl⟩ fun h => h.1 hnone
  by_cases hlevel : s.msgLevel < a.level
  · exact iff_of_true ⟨0, s, by rw [if_neg hnone, if_pos hlevel], .inl rfl⟩ fun h => by omega
  obtain ⟨junk, hfmt, hlen⟩ := formatted stack a text
  rw [if_neg hnone, if_neg hlevel, ← Option.bind_assoc, hfmt, Option.bind_some]
  cases hbuf : s.messageBuffer with
  | none =>
      have hroom : (rtprintbufferlen - 1 ≤ (text.takeWhile (· ≠ 0)).length ∧
          (10 : UInt8) ∉ text.take (rtprintbufferlen - 1)) ↔
          ¬ (s.startupLog a (a.record text ++ junk) text.length).isSome = true := by
        rw [startupLog_isSome hlen, not_or, not_lt]
      dsimp only
      rw [hroom]
      constructor
      · rintro ⟨rc, s', hrun, -⟩ htoo
        exact htoo.2.2 (by rw [hrun]; rfl)
      · intro hshort
        have hrun : (s.startupLog a (a.record text ++ junk) text.length).isSome = true := by
          by_contra hrun
          exact hshort ⟨hnone, not_lt.1 hlevel, hrun⟩
        obtain ⟨⟨rc, s'⟩, hrun⟩ := Option.isSome_iff_exists.1 hrun
        exact ⟨rc, s', hrun, .inl (startupLog_records hrun)⟩
  | some m =>
  dsimp only
  rw [LogState.ringlog]
  by_cases hbusy : m.useWmutex ∧ m.wmutex
  · exact iff_of_true ⟨_, _, if_pos hbusy, .inl rfl⟩ fun h => h.2.2.1 hbusy
  rw [if_neg hbusy]
  cases hbegin : m.ring.recordWriteBegin (sizeofMsgheader + text.length + 1) with
  | error e =>
      refine iff_of_true ⟨text.length, s, ?_, .inl rfl⟩ fun h => by simpa using h.2.2.2.2
      rw [RecordRing.recordWriteFrom, hbegin]
      rfl
  | ok data =>
  rw [recordWriteFrom_eq hlen hbegin]
  by_cases hfit : text.length < rtprintbufferlen
  · rw [if_pos hfit, Option.map_some]
    refine iff_of_true ?_ fun h => absurd h.2.2.2.1 (not_le.2 hfit)
    cases hw : m.ring.recordWrite (a.record text) with
    | error e => exact ⟨_, _, rfl, .inl rfl⟩
    | ok r => exact ⟨_, _, rfl, .inr rfl⟩
  · rw [if_neg hfit]
    exact iff_of_false (by simp)
      (not_not.2 ⟨hnone, not_lt.1 hlevel, hbusy, not_lt.1 hfit, data, rfl⟩)

/-- 256 bytes do not fit, and the record is read up to behind the buffer. -/
theorem log_records_fails :
    ¬ LogInBounds ⟨List.replicate (sizeofMsgheader + rtprintbufferlen) 0, List.length_replicate⟩
      ⟨1, 1, 2, [104, 97, 108]⟩ (List.replicate 256 97)
      ⟨3, some ⟨RecordRing.init 0 1024 fun _ => 0, true, false⟩, 0, [], []⟩ := by
  have htext : (List.replicate 256 (97 : UInt8)).length = 256 := List.length_replicate
  generalize List.replicate 256 (97 : UInt8) = text at htext ⊢
  rintro ⟨rc, s', hrun, -⟩
  obtain ⟨junk, hfmt, hlen⟩ := formatted
    ⟨List.replicate (sizeofMsgheader + rtprintbufferlen) 0, List.length_replicate⟩
    ⟨1, 1, 2, [104, 97, 108]⟩ text
  have hbegin : (RecordRing.init 0 1024 fun _ => 0).recordWriteBegin
      (sizeofMsgheader + text.length + 1) = .ok 4 := by
    rw [htext]
    decide
  rw [vsRinglogfv, if_neg (by decide), if_neg (by decide), ← Option.bind_assoc, hfmt,
    Option.bind_some] at hrun
  dsimp only at hrun
  rw [LogState.ringlog, if_neg (by decide), recordWriteFrom_eq hlen hbegin,
    if_neg (by rw [htext, rtprintbufferlen]; decide)] at hrun
  exact absurd hrun (by simp)

end MachinekitHal
