import MachinekitHal.Ring.Multiframe
import MachinekitHal.Ring.RecordOps

/-!
Multipart messages arrive as they were written.

* `frameFits`: the condition on a call under which it does what it is meant to do:
  the sizes do not wrap around, a message in progress is not moved to the start of
  the ring, and the store of `frame_write_end` behind the first frame, which goes to
  a wrong address, changes nothing that matters.
* `MsgInv`: what the message buffer holds of the messages being written and read, with
  the layout of the unread records, each of which holds one message.
* `multiframe_roundtrip`: what is obtained is what was sent, and a write touches
  nothing but the room reserved for the message in progress.
-/

namespace MachinekitHal

open Bytes Word Runs

/-! ### The property -/

/-- The room reserved for the message in progress: its size word, what is allocated for
its frames, and the wrap mark, if it is written at the start of the ring. -/
def MsgSys.Reserved (s : MsgSys) (x : ℕ) : Prop :=
  ∃ w, s.mb.write = some w ∧
    (w ≤ x + 4 ∧ x < w + s.mb.writeSize ∨ w = 4 ∧ s.mb.ring.tail ≤ x ∧ x < s.mb.ring.tail + 4)

/-- The calls `ok` make messages arrive as they were written. -/
structure MsgHolds (ok : MsgSys → MsgOp → Bool) (s : MsgSys) : Prop where
  /-- the messages obtained are the first ones sent, frame by frame -/
  obtained : s.obtained <+: s.sent
  /-- the frames obtained of the next message are its first ones -/
  current : s.current = [] ∨ ∃ msg, s.sent[s.obtained.length]? = some msg ∧ s.current <+: msg
  /-- the calls of the reader return, and fail only where there is nothing to read -/
  reads : s.rret = none ∨ s.rret = some .EAGAIN
  returns : (∃ t, s.step .frameRead = some t) ∧
    (s.rret = some .EAGAIN → s.mb.read.isSome → ∃ t, s.step .msgReadFlush = some t ∧
      t.rret = none)
  /-- `frame_read` returns `EAGAIN` at the end of a message and when nothing is left -/
  complete : ∀ t, s.step .frameRead = some t → t.rret = some .EAGAIN →
    if t.mb.read.isSome then s.sent[s.obtained.length]? = some s.current
    else s.obtained = s.sent
  /-- a frame write that fails changes nothing -/
  fails : ∀ size flags t, ok s (.frameWriteBegin size flags) = true →
    s.step (.frameWriteBegin size flags) = some t → t.wret ≠ none → t.mb = s.mb
  /-- a write stays in the room reserved for the message in progress, inside the buffer and
  away from the unread messages -/
  intact : ∀ op t x, ok s op = true → s.step op = some t →
    t.mb.ring.buf x ≠ s.mb.ring.buf x → (s.Reserved x ∨ t.Reserved x) ∧
      x < s.mb.ring.size ∧ ¬ Used s.mb.ring.size s.mb.ring.head s.mb.ring.tail x

/-! ### The condition -/

/-- The sizes do not wrap around, and `record_write_begin` does not move a message in
progress. -/
def MsgBuf.frameBeginFits (m : MsgBuf) (size : ℕ) : Bool :=
  match m.write with
  | none => size ≤ 4294967276
  | some w =>
    m.writeOff + size ≤ 4294967276 &&
      match m.ring.recordWriteBegin (m.writeOff + (size + 8)) with
      | .ok w' => m.writeOff + 8 + size ≤ m.writeSize || w' = w
      | .error _ => true

/-- `frame_write_end` ends the first frame of a message, or a frame of the size it was
begun with while the word it stores to holds that size already or lies in the unused rest
of the room allocated. -/
def MsgBuf.frameEndFits (m : MsgBuf) (size c : ℕ) : Bool :=
  match m.write with
  | none => false
  | some w =>
    m.writeOff = 0 || c = size && (load32 m.ring.buf (w + 8 * m.writeOff) = c ||
      m.writeOff + 8 + c ≤ 8 * m.writeOff && 8 * m.writeOff + 4 ≤ m.writeSize)

/-- The condition on a call. -/
def frameFits (s : MsgSys) : MsgOp → Bool
  | .frameWriteBegin size _ => s.mb.frameBeginFits size
  | .frameWriteEnd c =>
    match s.opened with
    | some o => s.mb.frameEndFits o.size c
    | none => true
  | _ => true

/-! ### Messages in memory -/

/-- A frame as `frame_write` accepts it. -/
structure Frame.Valid (f : Frame) : Prop where
  flags : f.flags < 4294967296
  size : f.bytes.length < 2147483648

@[simp] lemma length_le32 (v : ℕ) : (le32 v).length = 4 := rfl

@[simp] lemma Frame.length_encode (f : Frame) : f.encode.length = f.bytes.length + 8 := by
  simp only [encode, List.length_append, length_le32]
  omega

@[simp] lemma encodeMsg_nil : encodeMsg [] = [] := rfl

@[simp] lemma encodeMsg_cons (f : Frame) (fs : List Frame) :
    encodeMsg (f :: fs) = f.encode ++ encodeMsg fs := rfl

@[simp] lemma encodeMsg_append (fs gs : List Frame) :
    encodeMsg (fs ++ gs) = encodeMsg fs ++ encodeMsg gs := List.flatMap_append

/-- A frame found in memory behind the frames `done`. -/
lemma load_frame {m : Mem} {a n : ℕ} {done todo : List Frame} {f : Frame} (hf : f.Valid)
    (h : loadBytes m a n = encodeMsg (done ++ f :: todo)) :
    load32 m (a + (encodeMsg done).length) = f.bytes.length ∧
      load32 m (a + (encodeMsg done).length + 4) = f.flags ∧
      loadBytes m (a + (encodeMsg done).length + 8) f.bytes.length = f.bytes := by
  have hsize := hf.size
  simp only [encodeMsg_append, encodeMsg_cons, Frame.encode, List.append_assoc] at h
  have hflags : loadBytes m a n = (encodeMsg done ++ le32 f.bytes.length) ++
      (le32 f.flags ++ (f.bytes ++ encodeMsg todo)) := by rw [h, List.append_assoc]
  have hbytes : loadBytes m a n = (encodeMsg done ++ le32 f.bytes.length ++ le32 f.flags) ++
      (f.bytes ++ encodeMsg todo) := by rw [h, List.append_assoc, List.append_assoc]
  have h1 := load32_mid hf.flags hflags
  have h2 := loadBytes_mid hbytes
  rw [List.length_append, length_le32, ← Nat.add_assoc] at h1
  rw [List.length_append, List.length_append, length_le32, length_le32, Nat.add_assoc _ 4 4,
    ← Nat.add_assoc] at h2
  exact ⟨load32_mid (by omega) h, h1, h2⟩

/-- A frame written behind the frames `done`. -/
lemma loadBytes_frame {m : Mem} {a n c flags : ℕ} {done : List Frame}
    (hdone : loadBytes m a n = encodeMsg done) (hsize : load32 m (a + n) = c)
    (hflags : load32 m (a + n + 4) = flags) :
    loadBytes m a (n + 8 + c) = encodeMsg (done ++ [⟨flags, loadBytes m (a + n + 8) c⟩]) := by
  rw [Nat.add_assoc, loadBytes_add, hdone, show 8 + c = 4 + (4 + c) by omega, loadBytes_add,
    loadBytes_add, loadBytes_four, loadBytes_four, hsize, hflags]
  simp [Frame.encode, Nat.add_assoc]

/-! ### The invariant -/

/-- What the caller of `frame_write_begin` was given. -/
structure OpenOk (m : MsgBuf) (w : ℕ) (o : Opened) : Prop where
  data : o.data = w + m.writeOff + 8
  fits : m.writeOff + 8 + o.size ≤ m.writeSize
  size : load32 m.ring.buf (w + m.writeOff) = o.size
  flags : load32 m.ring.buf (w + m.writeOff + 4) = o.flags
  flags_lt : o.flags < 4294967296

/-- The message in progress stands at `w`. -/
structure InProgress (m : MsgBuf) (w : ℕ) (opened : Option Opened) (pending : List Frame) :
    Prop where
  small : m.writeSize < 2147483648
  fits : m.writeOff ≤ m.writeSize
  begun : Begun m.ring w (recordUsage m.writeSize)
  frames : loadBytes m.ring.buf w m.writeOff = encodeMsg pending
  opened : ∀ o, opened = some o → OpenOk m w o

/-- The writer's half of a message buffer. -/
structure WriteOk (m : MsgBuf) (opened : Option Opened) (pending : List Frame) : Prop where
  valid : ∀ f ∈ pending, f.Valid
  idle : m.write = none → opened = none ∧ pending = []
  busy : ∀ w, m.write = some w → InProgress m w opened pending

/-- The first unread message is read at `d`: the frames `current` were obtained of it, the
frames `todo` are left. -/
structure Reading (m : MsgBuf) (live : List Rec) (left : List (List Frame)) (d : ℕ)
    (current todo : List Frame) : Prop where
  record : ∃ rec rest, live = rec :: rest ∧ d = rec.off + 4 ∧ m.readSize = rec.bytes.length
  offset : m.readOff = (encodeMsg current).length
  message : ∃ us, left = (current ++ todo) :: us

/-- The reader's half of a message buffer. -/
structure ReadOk (s : MsgSys) (live : List Rec) (left : List (List Frame)) : Prop where
  idle : s.mb.read = none → s.got = none ∧ s.current = []
  busy : ∀ d, s.mb.read = some d → ∃ todo, Reading s.mb live left d s.current todo ∧
    (∀ f, s.got = some f → ∃ todo', todo = f :: todo') ∧ (s.rret = some .EAGAIN → todo = [])

/-- The unread records `live` hold the unread messages `left`. -/
structure MsgInv (s : MsgSys) (live : List Rec) (left : List (List Frame)) : Prop where
  ring : Settled s.mb.ring live
  holds : live.map Rec.bytes = left.map encodeMsg
  valid : ∀ msg ∈ left, ∀ f ∈ msg, f.Valid
  sent : s.sent = s.obtained ++ left
  write : WriteOk s.mb s.opened s.pending
  read : ReadOk s live left
  rret : s.rret = none ∨ s.rret = some .EAGAIN

/-! ### Stores to the room of a message -/

/-- `m'` is `m` after stores to the room of the message in progress. -/
structure InPlace (m m' : MsgBuf) : Prop where
  ring : m'.ring = { m.ring with buf := m'.ring.buf }
  read : m'.read = m.read
  readSize : m'.readSize = m.readSize
  readOff : m'.readOff = m.readOff
  room : ∃ w, m'.write = some w ∧ m'.writeSize < 2147483648 ∧
    Begun m.ring w (recordUsage m'.writeSize) ∧
    ∀ x, x < w ∨ w + m'.writeSize ≤ x → m'.ring.buf x = m.ring.buf x

namespace InPlace

variable {m m' : MsgBuf} {live : List Rec}

/-- Only bytes of the room change. -/
lemma changed (h : InPlace m m') (hr : RingOk m.ring live) {x : ℕ}
    (hx : m'.ring.buf x ≠ m.ring.buf x) :
    (∃ w, m'.write = some w ∧ w ≤ x ∧ x < w + m'.writeSize) ∧ x < m.ring.size ∧
      ¬ Used m.ring.size m.ring.head m.ring.tail x := by
  obtain ⟨w, hw, hsmall, hbegun, hbuf⟩ := h.room
  have husage := recordUsage_small hsmall
  have hin : w ≤ x ∧ x < w + m'.writeSize := by
    by_contra hout
    exact hx (hbuf x (by omega))
  exact ⟨⟨w, hw, hin⟩, hbegun.lt_size hr (by omega), hbegun.not_used (by omega) (by omega)⟩

lemma settled (h : InPlace m m') (hr : Settled m.ring live) : Settled m'.ring live := by
  rw [h.ring]
  refine hr.withBuf fun x hx => ?_
  by_contra hne
  exact (h.changed hr.toRingOk hne).2.2 hx

end InPlace

/-! ### The writer -/

namespace MsgBuf

variable {m m' : MsgBuf} {live : List Rec} {pending : List Frame} {size flags : ℕ}

/-- Where the next frame goes, once its room is allocated. -/
structure Prepared (m m' : MsgBuf) (pending : List Frame) (w size : ℕ) : Prop where
  ring : m'.ring = m.ring
  read : m'.read = m.read
  readSize : m'.readSize = m.readSize
  readOff : m'.readOff = m.readOff
  write : m'.write = some w
  small : m'.writeSize < 2147483648
  fits : m'.writeOff + 8 + size ≤ m'.writeSize
  begun : Begun m.ring w (recordUsage m'.writeSize)
  frames : loadBytes m.ring.buf w m'.writeOff = encodeMsg pending

/-- `frame_write_begin` fails and changes nothing, or stores a frame header to room
allocated for the frame. -/
lemma frameWriteBegin_spec {res : Except Errno ℕ} (hr : RingOk m.ring live)
    (hw : WriteOk m none pending) (hfit : m.frameBeginFits size = true)
    (heq : m.frameWriteBegin size flags = (m', res)) :
    (∃ e, res = .error e ∧ m' = m) ∨
      ∃ p w, Prepared m p pending w size ∧ res = .ok (w + p.writeOff + 8) ∧
        m' = p.setBuf (store32 (store32 m.ring.buf (w + p.writeOff) size)
          (w + p.writeOff + 4) flags) := by
  rw [frameBeginFits] at hfit
  rw [frameWriteBegin] at heq
  cases hwrite : m.write with
  | none =>
    rw [hwrite] at hfit
    have hsize : size ≤ 4294967276 := by simpa using hfit
    rw [wrap32_of_lt (by omega), frameAlloc, hwrite] at heq
    cases hbegin : m.ring.recordWriteBegin (size + 8) with
    | error e =>
      simp only [hbegin] at heq
      cases heq
      exact Or.inl ⟨e, rfl, rfl⟩
    | ok w =>
      simp only [hbegin, if_neg (show ¬ size + 8 < 0 + 8 + size by omega)] at heq
      cases heq
      obtain ⟨hsmall, hbegun⟩ := hr.recordWriteBegin (by omega) hbegin
      obtain ⟨_, rfl⟩ := hw.idle hwrite
      exact Or.inr ⟨{ m with write := some w, writeSize := size + 8, writeOff := 0 }, w,
        ⟨rfl, rfl, rfl, rfl, rfl, hsmall, by simp [Nat.add_comm], hbegun, rfl⟩, rfl, rfl⟩
  | some w =>
    have hbusy := hw.busy w hwrite
    rw [hwrite] at hfit
    simp only [Bool.and_eq_true, decide_eq_true_eq] at hfit
    obtain ⟨hsize, hplace⟩ := hfit
    rw [wrap32_of_lt (show size + 8 < 4294967296 by omega), frameAlloc, hwrite] at heq
    by_cases hroom : m.writeSize < m.writeOff + 8 + size
    · simp only [if_pos hroom, frameRealloc,
        wrap32_of_lt (show m.writeOff + (size + 8) < 4294967296 by omega)] at heq
      cases hbegin : m.ring.recordWriteBegin (m.writeOff + (size + 8)) with
      | error e =>
        simp only [hbegin] at heq
        cases heq
        exact Or.inl ⟨e, rfl, rfl⟩
      | ok w' =>
        obtain rfl : w' = w := by
          simpa [hbegin, Nat.not_le.mpr hroom] using hplace
        simp only [hbegin, ne_eq, not_true_eq_false, if_false] at heq
        cases heq
        obtain ⟨hsmall, hbegun⟩ := hr.recordWriteBegin (by omega) hbegin
        exact Or.inr ⟨{ m with write := some w', writeSize := m.writeOff + (size + 8) }, w',
          ⟨rfl, rfl, rfl, rfl, rfl, hsmall, by simp only; omega, hbegun, hbusy.frames⟩,
          rfl, rfl⟩
    · simp only [if_neg hroom] at heq
      cases heq
      exact Or.inr ⟨m, w, ⟨rfl, rfl, rfl, rfl, hwrite, hbusy.small, by omega, hbusy.begun,
        hbusy.frames⟩, rfl, rfl⟩

/-- The header store of `frame_write_begin` stays in the room allocated. -/
lemma Prepared.begin {p : MsgBuf} {w : ℕ} (h : Prepared m p pending w size)
    (hvalid : ∀ f ∈ pending, f.Valid) (hflags : flags < 4294967296) {buf : Mem}
    (hbuf : buf = store32 (store32 m.ring.buf (w + p.writeOff) size)
      (w + p.writeOff + 4) flags) :
    InPlace m (p.setBuf buf) ∧
      WriteOk (p.setBuf buf) (some ⟨w + p.writeOff + 8, size, flags⟩) pending := by
  have hfits := h.fits
  have hsmall := h.small
  have hkeep : ∀ x, x < w + p.writeOff ∨ w + p.writeOff + 8 ≤ x → buf x = m.ring.buf x :=
    fun x hx => by
      rw [hbuf, store32_apply_of_outside (by omega), store32_apply_of_outside (by omega)]
  have hsize : load32 buf (w + p.writeOff) = size := by
    rw [hbuf, load32_store32_of_disjoint (by omega), load32_store32 (by omega)]
  have hflags' : load32 buf (w + p.writeOff + 4) = flags := by rw [hbuf, load32_store32 hflags]
  constructor
  · refine ⟨?_, h.read, h.readSize, h.readOff, w, h.write, hsmall, h.begun, fun x hx => ?_⟩
    · simp only [setBuf_ring, h.ring]
    · have hx : x < w ∨ w + p.writeSize ≤ x := hx
      exact hkeep x (by omega)
  · refine ⟨hvalid, fun hn => ?_, fun w' hw' => ?_⟩
    · rw [setBuf_write, h.write] at hn
      cases hn
    · rw [setBuf_write, h.write] at hw'
      cases hw'
      refine ⟨hsmall, (by simp only [setBuf_writeOff, setBuf_writeSize]; omega), ?_, ?_,
        fun o ho => ?_⟩
      · simp only [setBuf_ring, setBuf_writeSize, h.ring]
        exact h.begun
      · rw [← h.frames]
        exact loadBytes_congr fun x _ h2 => hkeep x (by simp only [setBuf_writeOff] at h2; omega)
      · cases ho
        exact ⟨rfl, hfits, hsize, hflags', hflags⟩

/-- A store to the frame begun. -/
lemma fill {o : Opened} {i : ℕ} {bs : List UInt8} (hw : WriteOk m (some o) pending)
    (hfit : i + bs.length ≤ o.size) :
    let m' := m.setBuf (storeBytes m.ring.buf (o.data + i) bs)
    InPlace m m' ∧ WriteOk m' (some o) pending := by
  cases hwrite : m.write with
  | none => cases (hw.idle hwrite).1
  | some w =>
    have hb := hw.busy w hwrite
    have ho := hb.opened o rfl
    have hdata := ho.data
    have hfits := ho.fits
    have hkeep : ∀ x, x < w + m.writeOff + 8 ∨ w + m.writeSize ≤ x →
        storeBytes m.ring.buf (o.data + i) bs x = m.ring.buf x :=
      fun x hx => storeBytes_apply_of_outside (by omega)
    refine ⟨⟨rfl, rfl, rfl, rfl, w, hwrite, hb.small, hb.begun, fun x hx => ?_⟩, hw.valid,
      fun hn => ?_, fun w' hw' => ?_⟩
    · have hx : x < w ∨ w + m.writeSize ≤ x := hx
      exact hkeep x (by omega)
    · rw [setBuf_write, hwrite] at hn
      cases hn
    · rw [setBuf_write, hwrite] at hw'
      cases hw'
      refine ⟨hb.small, hb.fits, hb.begun, ?_, fun o' ho' => ?_⟩
      · rw [← hb.frames]
        exact loadBytes_congr fun x _ h2 =>
          hkeep x (by simp only [setBuf_writeOff] at h2; omega)
      · cases ho'
        refine ⟨hdata, hfits, ?_, ?_, ho.flags_lt⟩
        · rw [← ho.size]
          exact load32_congr fun x _ h2 =>
            hkeep x (by simp only [setBuf_writeOff] at h2; omega)
        · rw [← ho.flags]
          exact load32_congr fun x _ h2 =>
            hkeep x (by simp only [setBuf_writeOff] at h2; omega)

/-- The store of `frame_write_end`, wherever it goes, leaves the frame with its size. -/
lemma frameWriteEnd_spec {o : Opened} {c : ℕ} (hw : WriteOk m (some o) pending)
    (hc : c ≤ o.size) (hfit : m.frameEndFits o.size c = true) :
    ∃ m', m.frameWriteEnd c = .ok m' ∧ InPlace m m' ∧
      WriteOk m' none (pending ++ [⟨o.flags, loadBytes m.ring.buf o.data c⟩]) := by
  cases hwrite : m.write with
  | none => cases (hw.idle hwrite).1
  | some w =>
    have hb := hw.busy w hwrite
    have ho := hb.opened o rfl
    have hdata := ho.data
    have hfits := ho.fits
    have hsmall := hb.small
    set buf := store32 m.ring.buf (w + 8 * m.writeOff) c with hbuf
    have hoff : wrap32 (m.writeOff + 8 + c) = m.writeOff + 8 + c := wrap32_of_lt (by omega)
    -- the frame stands with the size `c`, and nothing else changed that matters
    have hkeep : (∀ x, x < w ∨ w + m.writeSize ≤ x → buf x = m.ring.buf x) ∧
        load32 buf (w + m.writeOff) = c ∧
        (∀ x, w ≤ x → x < w + m.writeOff → buf x = m.ring.buf x) ∧
        ∀ x, w + m.writeOff + 4 ≤ x → x < w + m.writeOff + 8 + c → buf x = m.ring.buf x := by
      rw [frameEndFits, hwrite] at hfit
      simp only [Bool.or_eq_true, Bool.and_eq_true, decide_eq_true_eq] at hfit
      rcases hfit with hzero | ⟨rfl, hsame | ⟨hrest, hroom⟩⟩
      · rw [hbuf, hzero]
        exact ⟨fun x hx => store32_apply_of_outside (by omega), load32_store32 (by omega),
          fun x h1 h2 => by omega, fun x h1 h2 => store32_apply_of_outside (by omega)⟩
      · have heq : buf = m.ring.buf := by
          rw [hbuf, ← hsame]
          exact store32_load32 _ _
        rw [heq]
        exact ⟨fun _ _ => rfl, ho.size, fun _ _ _ => rfl, fun _ _ _ => rfl⟩
      · refine ⟨fun x hx => store32_apply_of_outside (by omega), ?_,
          fun x h1 h2 => store32_apply_of_outside (by omega),
          fun x h1 h2 => store32_apply_of_outside (by omega)⟩
        rw [hbuf, load32_store32_of_disjoint (by omega), ho.size]
    obtain ⟨hroom, hsize, hdone, hframe⟩ := hkeep
    have hflags : load32 buf (w + m.writeOff + 4) = o.flags := by
      rw [← ho.flags]
      exact load32_congr fun x h1 h2 => hframe x h1 (by omega)
    have hbytes : loadBytes buf (w + m.writeOff + 8) c = loadBytes m.ring.buf o.data c := by
      rw [hdata]
      exact loadBytes_congr fun x h1 h2 => hframe x (by omega) (by omega)
    have hfr : loadBytes buf w m.writeOff = encodeMsg pending := by
      rw [← hb.frames]
      exact loadBytes_congr hdone
    refine ⟨{ m.setBuf buf with writeOff := m.writeOff + 8 + c },
      (by rw [frameWriteEnd, hwrite]; simp only [hoff, hbuf]),
      ⟨rfl, rfl, rfl, rfl, w, hwrite, hsmall, hb.begun, hroom⟩, fun f hf => ?_, fun hn => ?_,
      fun w' hw' => ?_⟩
    · rcases List.mem_append.mp hf with hf | hf
      · exact hw.valid f hf
      · obtain rfl := List.mem_singleton.mp hf
        exact ⟨ho.flags_lt, by simp only [length_loadBytes]; omega⟩
    · rw [show m.write = none from hn] at hwrite
      cases hwrite
    · obtain rfl : w = w' := Option.some.inj (hwrite.symm.trans hw')
      refine ⟨hsmall, ?_, hb.begun, ?_, fun o' ho' => by cases ho'⟩
      · show m.writeOff + 8 + c ≤ m.writeSize
        omega
      · have hall := loadBytes_frame hfr hsize hflags
        rwa [hbytes] at hall

end MsgBuf

/-! ### The reader -/

/-- The records and the messages start alike. -/
lemma MsgInv.bytes_eq {s : MsgSys} {rec : Rec} {rest : List Rec} {msg : List Frame}
    {us : List (List Frame)} (h : MsgInv s (rec :: rest) (msg :: us)) :
    rec.bytes = encodeMsg msg := (List.cons.inj h.holds).1

namespace Reading

variable {s : MsgSys} {m : MsgBuf} {live : List Rec} {left : List (List Frame)} {d : ℕ}
  {current todo : List Frame}

/-- The reader sees the next frame of the message, `EAGAIN` at its end. -/
lemma frameAt (hr : Reading m live left d current todo) (h : MsgInv s live left)
    (hring : m.ring = s.mb.ring) :
    (todo = [] ∧ m.frameAt d = .error .EAGAIN) ∨
      ∃ f todo', todo = f :: todo' ∧
        m.frameAt d = .ok (d + m.readOff + 8, f.bytes.length, f.flags) ∧
        loadBytes m.ring.buf (d + m.readOff + 8) f.bytes.length = f.bytes ∧
        wrap32 (m.readOff + 8 + load32 m.ring.buf (d + m.readOff))
          = (encodeMsg (current ++ [f])).length ∧ m.readOff ≠ m.readSize := by
  obtain ⟨rec, rest, rfl, rfl, hsize⟩ := hr.record
  obtain ⟨us, rfl⟩ := hr.message
  have hoff := hr.offset
  have hat : rec.At m.ring.buf := hring ▸ h.ring.layout.at_of_mem (.head _)
  have hbytes := h.bytes_eq
  cases todo with
  | nil =>
    refine Or.inl ⟨rfl, ?_⟩
    rw [MsgBuf.frameAt, if_pos (by rw [hoff, hsize, hbytes, List.append_nil])]
  | cons f todo' =>
    have hvalid : f.Valid := h.valid _ (.head _) f (by simp)
    have hlen := congrArg List.length hbytes
    simp only [encodeMsg_append, encodeMsg_cons, List.length_append,
      Frame.length_encode] at hlen
    have hne : m.readOff ≠ m.readSize := by omega
    obtain ⟨h1, h2, h3⟩ := load_frame hvalid (hbytes ▸ hat.data)
    rw [← hoff] at h1 h2 h3
    have hsmall := hat.small
    refine Or.inr ⟨f, todo', rfl, ?_, h3, ?_, hne⟩
    · rw [MsgBuf.frameAt, if_neg hne]
      simp only [h1, h2]
    · rw [h1, wrap32_of_lt (by omega)]
      simp only [encodeMsg_append, encodeMsg_cons, encodeMsg_nil, List.append_nil,
        List.length_append, Frame.length_encode]
      omega

end Reading

/-- `frame_read` stands at the first unread message, if there is one. -/
lemma MsgInv.frameRead {s : MsgSys} {live : List Rec} {left : List (List Frame)}
    (h : MsgInv s live left) :
    (left = [] ∧ s.mb.read = none ∧ s.mb.frameRead = some (s.mb, .error .EAGAIN)) ∨
      ∃ m d todo, s.mb.frameRead = some (m, m.frameAt d) ∧ m.read = some d ∧
        Reading m live left d s.current todo ∧
        m = { s.mb with read := m.read, readSize := m.readSize, readOff := m.readOff } := by
  cases hread : s.mb.read with
  | some d =>
    obtain ⟨todo, hr, _⟩ := h.read.busy d hread
    exact Or.inr ⟨s.mb, d, todo, by rw [MsgBuf.frameRead, hread], hread, hr, rfl⟩
  | none =>
    have hrec := h.ring.recordRead
    have hholds := h.holds
    cases live with
    | nil =>
      have hleft : left = [] := by simpa using hholds.symm
      exact Or.inl ⟨hleft, rfl, by rw [MsgBuf.frameRead, hread, hrec]⟩
    | cons rec rest =>
      cases left with
      | nil => cases hholds
      | cons msg us =>
        have hcur := (h.read.idle hread).2
        refine Or.inr ⟨{ s.mb with
            read := some (rec.off + 4), readSize := rec.bytes.length, readOff := 0 },
          rec.off + 4, msg, by rw [MsgBuf.frameRead, hread, hrec], rfl, ?_, rfl⟩
        rw [hcur]
        exact ⟨⟨rec, rest, rfl, rfl, rfl⟩, rfl, ⟨us, rfl⟩⟩

/-- What the writer knows does not depend on the reader's fields, nor on how far `head`
has moved. -/
lemma WriteOk.congr {m m' : MsgBuf} {opened : Option Opened} {pending : List Frame}
    (h : WriteOk m opened pending) (hbuf : m'.ring.buf = m.ring.buf)
    (hwrite : m'.write = m.write) (hsize : m'.writeSize = m.writeSize)
    (hoff : m'.writeOff = m.writeOff)
    (hbegun : ∀ {data a}, Begun m.ring data a → Begun m'.ring data a) :
    WriteOk m' opened pending := by
  refine ⟨h.valid, fun hn => h.idle (hwrite ▸ hn), fun w hw => ?_⟩
  have hb := h.busy w (hwrite ▸ hw)
  refine ⟨by rw [hsize]; exact hb.small, by rw [hoff, hsize]; exact hb.fits,
    by rw [hsize]; exact hbegun hb.begun, by rw [hbuf, hoff]; exact hb.frames, fun o ho => ?_⟩
  have hopen := hb.opened o ho
  exact ⟨by rw [hoff]; exact hopen.data, by rw [hoff, hsize]; exact hopen.fits,
    by rw [hbuf, hoff]; exact hopen.size, by rw [hbuf, hoff]; exact hopen.flags,
    hopen.flags_lt⟩

/-- What the reader knows does not depend on the writer. -/
lemma ReadOk.congr {s t : MsgSys} {live : List Rec} {left : List (List Frame)}
    (h : ReadOk s live left) (more : List Rec) (more' : List (List Frame))
    (hread : t.mb.read = s.mb.read) (hsize : t.mb.readSize = s.mb.readSize)
    (hoff : t.mb.readOff = s.mb.readOff) (hgot : t.got = s.got) (hcur : t.current = s.current)
    (hret : t.rret = s.rret) : ReadOk t (live ++ more) (left ++ more') := by
  refine ⟨fun hn => ?_, fun d hd => ?_⟩
  · rw [hgot, hcur]
    exact h.idle (hread ▸ hn)
  · obtain ⟨todo, ⟨⟨rec, rest, hlive, hd', hs⟩, ho, us, hleft⟩, hg, hr⟩ :=
      h.busy d (hread ▸ hd)
    refine ⟨todo, ⟨⟨rec, rest ++ more, ?_, hd', by rw [hsize]; exact hs⟩, ?_,
      us ++ more', ?_⟩, by rw [hgot]; exact hg, by rw [hret]; exact hr⟩
    · rw [hlive, List.cons_append]
    · rw [hoff, hcur]
      exact ho
    · rw [hleft, hcur, List.cons_append]

/-! ### The steps -/

lemma MsgSys.msgReadFlush_enabled {s t : MsgSys} (hs : s.step .msgReadFlush = some t) :
    s.rret = some .EAGAIN ∧ s.mb.read.isSome = true := by
  rw [MsgSys.step] at hs
  split_ifs at hs with hcond
  exact hcond

namespace MsgInv

variable {s t : MsgSys} {live : List Rec} {left : List (List Frame)}

/-- Stores to the room of the message in progress. -/
lemma inPlace (h : MsgInv s live left) {mb : MsgBuf} {o : Option Opened} {e : Option Errno}
    {p : List Frame} (hip : InPlace s.mb mb) (hw : WriteOk mb o p) :
    MsgInv { s with mb := mb, opened := o, wret := e, pending := p } live left := by
  refine ⟨hip.settled h.ring, h.holds, h.valid, h.sent, hw, ?_, h.rret⟩
  have := h.read.congr (t := { s with mb := mb, opened := o, wret := e, pending := p }) [] []
    hip.read hip.readSize hip.readOff rfl rfl rfl
  simpa using this

/-- `msg_write_flush` sends off the message in progress. -/
lemma flush (h : MsgInv s live left) {w : ℕ} (hwrite : s.mb.write = some w) :
    Begun s.mb.ring w (recordUsage s.mb.writeSize) ∧ s.mb.writeSize < 2147483648 ∧
      MsgInv { s with
        mb := s.mb.msgWriteFlush, opened := none, wret := none, pending := []
        sent := s.sent ++ [s.pending] }
        (live ++ [committed s.mb.ring.buf w s.mb.writeOff]) (left ++ [s.pending]) := by
  have hb := h.write.busy w hwrite
  have hsmall := hb.small
  have hfits := hb.fits
  have hle : recordUsage s.mb.writeOff ≤ recordUsage s.mb.writeSize := by
    rw [recordUsage_small (by omega), recordUsage_small hsmall]
    omega
  have hring := h.ring.recordWriteEnd (by omega) (hb.begun.mono hle)
  have hflush : s.mb.msgWriteFlush.ring = s.mb.ring.recordWriteEnd w s.mb.writeOff := by
    rw [MsgBuf.msgWriteFlush, hwrite]
    rfl
  refine ⟨hb.begun, hsmall, ?_, ?_, ?_, ?_, ⟨by simp, fun _ => ⟨rfl, rfl⟩,
    fun _ hw => by cases hw⟩, ?_, h.rret⟩
  · rw [← hflush] at hring
    exact hring
  · rw [List.map_append, List.map_append, h.holds]
    simp only [List.map_cons, List.map_nil, committed, hb.frames]
  · intro msg hmsg
    rcases List.mem_append.mp hmsg with hmsg | hmsg
    · exact h.valid msg hmsg
    · obtain rfl := List.mem_singleton.mp hmsg
      exact h.write.valid
  · show s.sent ++ [s.pending] = s.obtained ++ (left ++ [s.pending])
    rw [h.sent, List.append_assoc]
  · exact h.read.congr _ _ rfl rfl rfl rfl rfl rfl

/-- `msg_write_abort` drops the message in progress. -/
lemma abort (h : MsgInv s live left) :
    MsgInv { s with mb := s.mb.msgWriteAbort, opened := none, wret := none, pending := [] }
      live left := by
  refine ⟨h.ring, h.holds, h.valid, h.sent,
    ⟨by simp, fun _ => ⟨rfl, rfl⟩, fun _ hw => by cases hw⟩, ?_, h.rret⟩
  have hread := h.read.congr
    (t := { s with mb := s.mb.msgWriteAbort, opened := none, wret := none, pending := [] })
    [] [] rfl rfl rfl rfl rfl rfl
  simpa using hread

/-- `frame_read` keeps the invariant. -/
lemma frameRead_step (h : MsgInv s live left) :
    ∃ t, s.step .frameRead = some t ∧ MsgInv t live left ∧ t.mb.ring = s.mb.ring ∧
      (t.rret = some .EAGAIN → if t.mb.read.isSome then
        ∃ us, left = s.current :: us else left = []) := by
  rcases h.frameRead with ⟨hleft, hread, hf⟩ | ⟨m, d, todo, hf, hread, hr, hm⟩
  · refine ⟨{ s with rret := some .EAGAIN, got := none }, by rw [MsgSys.step, hf],
      ⟨h.ring, h.holds, h.valid, h.sent, h.write, ⟨fun hn => ⟨rfl, (h.read.idle hn).2⟩,
        fun d hd => ?_⟩, Or.inr rfl⟩, rfl, fun _ => ?_⟩
    · rw [hread] at hd
      cases hd
    · rw [if_neg (by simp [hread])]
      exact hleft
  · have hring : m.ring = s.mb.ring := by rw [hm]
    have hwrite : WriteOk m s.opened s.pending :=
      h.write.congr (by rw [hm]) (by rw [hm]) (by rw [hm]) (by rw [hm]) (by rw [hm]; exact id)
    have hsettled : Settled m.ring live := hring ▸ h.ring
    have hbusy : ∀ d', m.read = some d' → d' = d := fun d' hd' => by
      rw [hread] at hd'
      exact (Option.some.inj hd').symm
    have hidle : m.read ≠ none := by
      rw [hread]
      exact Option.some_ne_none d
    rcases hr.frameAt h hring with ⟨rfl, hat⟩ | ⟨f, todo', rfl, hat, hbytes, _⟩
    · refine ⟨{ s with mb := m, rret := some .EAGAIN, got := none },
        by rw [MsgSys.step, hf, hat], ⟨hsettled, h.holds, h.valid, h.sent, hwrite,
          ⟨fun hn => absurd hn hidle, fun d' hd' => ?_⟩, Or.inr rfl⟩, hring, fun _ => ?_⟩
      · obtain rfl := hbusy d' hd'
        exact ⟨[], hr, (fun f hf => by cases hf), fun _ => rfl⟩
      · rw [if_pos (by simp [hread])]
        obtain ⟨us, hleft⟩ := hr.message
        exact ⟨us, by rw [hleft, List.append_nil]⟩
    · refine ⟨{ s with mb := m, rret := none, got := some f }, ?_, ⟨hsettled, h.holds, h.valid,
        h.sent, hwrite, ⟨fun hn => absurd hn hidle, fun d' hd' => ?_⟩, Or.inl rfl⟩,
        hring, fun hret => by cases hret⟩
      · rw [MsgSys.step, hf, hat]
        simp only [hbytes]
      · obtain rfl := hbusy d' hd'
        refine ⟨f :: todo', hr, fun f' hf' => ?_, fun hret => by cases hret⟩
        cases hf'
        exact ⟨todo', rfl⟩

/-- `frame_shift` goes on to the next frame. -/
lemma frameShift_step (h : MsgInv s live left) (hs : s.step .frameShift = some t) :
    MsgInv t live left ∧ t.mb.ring = s.mb.ring := by
  rw [MsgSys.step] at hs
  cases hgot : s.got with
  | none =>
    rw [hgot] at hs
    cases hs
  | some f =>
    cases hread : s.mb.read with
    | none =>
      have := (h.read.idle hread).1
      rw [hgot] at this
      cases this
    | some d =>
      obtain ⟨todo, hr, hg, _⟩ := h.read.busy d hread
      obtain ⟨todo', rfl⟩ := hg f hgot
      rcases hr.frameAt h rfl with ⟨hnil, _⟩ | ⟨f', _, hcons, _, _, hoff, hne⟩
      · cases hnil
      · obtain ⟨rfl, rfl⟩ := List.cons.inj hcons
        simp only [hgot, MsgBuf.frameShift, hread, if_neg hne, hoff] at hs
        cases hs
        refine ⟨⟨h.ring, h.holds, h.valid, h.sent, h.write.congr rfl rfl rfl rfl id,
          ⟨fun hn => (by cases hn), fun d' hd' => ?_⟩, Or.inl rfl⟩, rfl⟩
        · obtain rfl : d = d' := Option.some.inj hd'
          obtain ⟨us, hleft⟩ := hr.message
          exact ⟨todo', ⟨hr.record, rfl, us, by rw [hleft, List.append_assoc]; rfl⟩,
            (fun f' hf' => by cases hf'), fun hret => by cases hret⟩

/-- `msg_read_flush` at the end of a message consumes it. -/
lemma msgReadFlush_step (h : MsgInv s live left) (hret : s.rret = some .EAGAIN)
    (hsome : s.mb.read.isSome = true) :
    ∃ t live' left', s.step .msgReadFlush = some t ∧ MsgInv t live' left' ∧
      t.mb.ring.buf = s.mb.ring.buf ∧ t.mb.ring.tail = s.mb.ring.tail ∧ t.rret = none := by
  obtain ⟨d, hread⟩ := Option.isSome_iff_exists.mp hsome
  obtain ⟨todo, ⟨⟨rec, rest, rfl, _, _⟩, _, us, rfl⟩, hg, htodo⟩ := h.read.busy d hread
  obtain rfl := htodo hret
  have hgot : s.got = none := by
    by_contra hne
    obtain ⟨f, hf⟩ := Option.ne_none_iff_exists'.mp hne
    obtain ⟨_, hcons⟩ := hg f hf
    cases hcons
  obtain ⟨r', hshift, hsettled, hsize, htail, hbuf, hadv, -⟩ := h.ring.recordShift
  have hlt := h.ring.layout.head_lt
  refine ⟨{ s with
      mb := { s.mb with read := none, ring := r' }, rret := none, current := []
      obtained := s.obtained ++ [s.current] }, rest, us, ?_,
    ⟨hsettled, (List.cons.inj h.holds).2, fun msg hmsg => h.valid msg (.tail _ hmsg),
      ?_, h.write.congr hbuf rfl rfl rfl fun hb => hb.advance hsize htail hlt hadv,
      ⟨fun _ => ⟨hgot, rfl⟩, fun d' hd' => by cases hd'⟩, Or.inl rfl⟩, hbuf, htail, rfl⟩
  · rw [MsgSys.step, if_pos ⟨hret, hsome⟩, MsgBuf.msgReadFlush, hread]
    simp only [hshift]
  · show s.sent = s.obtained ++ [s.current] ++ us
    rw [h.sent, List.append_nil, List.append_assoc]
    rfl

/-- `frame_write_begin` fails without a change, or stays in the room of the message. -/
lemma begin_step (h : MsgInv s live left) {size flags : ℕ}
    (hfit : frameFits s (.frameWriteBegin size flags) = true)
    (hs : s.step (.frameWriteBegin size flags) = some t) :
    MsgInv t live left ∧ (t.mb = s.mb ∨ t.wret = none ∧ InPlace s.mb t.mb) := by
  rw [MsgSys.step] at hs
  split_ifs at hs with hcond
  obtain ⟨hopened, _, hflags⟩ := hcond
  have hopened : s.opened = none := by simpa using hopened
  have hw := h.write
  rw [hopened] at hw
  cases heq : s.mb.frameWriteBegin size flags with
  | mk mb res =>
    rcases MsgBuf.frameWriteBegin_spec h.ring.toRingOk hw hfit heq with
      ⟨e, rfl, rfl⟩ | ⟨p, w, hp, rfl, rfl⟩
    · rw [heq] at hs
      cases hs
      have hread := h.read.congr (t := { s with wret := some e }) [] [] rfl rfl rfl rfl rfl rfl
      rw [List.append_nil, List.append_nil] at hread
      exact ⟨⟨h.ring, h.holds, h.valid, h.sent, h.write, hread, h.rret⟩, Or.inl rfl⟩
    · rw [heq] at hs
      cases hs
      obtain ⟨hip, hwrite⟩ := hp.begin hw.valid hflags rfl
      exact ⟨h.inPlace hip hwrite, Or.inr ⟨rfl, hip⟩⟩

/-- A store to the frame begun stays in the room of the message. -/
lemma fill_step (h : MsgInv s live left) {i : ℕ} {bs : List UInt8}
    (hs : s.step (.fill i bs) = some t) : MsgInv t live left ∧ InPlace s.mb t.mb := by
  rw [MsgSys.step] at hs
  cases hopened : s.opened with
  | none =>
    rw [hopened] at hs
    cases hs
  | some o =>
    simp only [hopened] at hs
    split_ifs at hs with hfit
    cases hs
    obtain ⟨hip, hwrite⟩ := MsgBuf.fill (hopened ▸ h.write) hfit
    have hinv := h.inPlace (e := s.wret) hip hwrite
    exact ⟨hinv, hip⟩

/-- `frame_write_end` stays in the room of the message. -/
lemma end_step (h : MsgInv s live left) {c : ℕ} (hfit : frameFits s (.frameWriteEnd c) = true)
    (hs : s.step (.frameWriteEnd c) = some t) : MsgInv t live left ∧ InPlace s.mb t.mb := by
  rw [MsgSys.step] at hs
  cases hopened : s.opened with
  | none =>
    rw [hopened] at hs
    cases hs
  | some o =>
    simp only [frameFits, hopened] at hfit
    simp only [hopened] at hs
    split_ifs at hs with hc
    obtain ⟨m', heq, hip, hwrite⟩ := MsgBuf.frameWriteEnd_spec (hopened ▸ h.write) hc hfit
    rw [heq] at hs
    cases hs
    exact ⟨h.inPlace hip hwrite, hip⟩

/-- The bytes `msg_write_flush` stores to. -/
lemma flush_step (h : MsgInv s live left) (hs : s.step .msgWriteFlush = some t) :
    (∃ live' left', MsgInv t live' left') ∧ ∀ x, t.mb.ring.buf x ≠ s.mb.ring.buf x →
      s.Reserved x ∧ x < s.mb.ring.size ∧
        ¬ Used s.mb.ring.size s.mb.ring.head s.mb.ring.tail x := by
  rw [MsgSys.step] at hs
  split_ifs at hs with hcond
  cases hs
  have hopened : s.opened = none := by simpa using hcond.1
  obtain ⟨w, hwrite⟩ : ∃ w, s.mb.write = some w := Option.ne_none_iff_exists'.mp
    fun hn => hcond.2 (h.write.idle hn).2
  obtain ⟨hbegun, hsmall, hinv⟩ := h.flush hwrite
  rw [← hopened] at hinv
  refine ⟨⟨_, _, hinv⟩, fun x hx => ?_⟩
  have husage := recordUsage_small hsmall
  have htail := h.ring.layout.tail_lt
  have h8 := h.ring.tail_mod
  have h8' := h.ring.size_mod
  have hbuf : s.mb.msgWriteFlush.ring = s.mb.ring.recordWriteEnd w s.mb.writeOff := by
    rw [MsgBuf.msgWriteFlush, hwrite]
    rfl
  have hin : s.mb.ring.tail ≤ x ∧ x < s.mb.ring.tail + 4 ∨ w ≤ x + 4 ∧ x < w := by
    by_contra hout
    refine hx ?_
    show s.mb.msgWriteFlush.ring.buf x = s.mb.ring.buf x
    rw [hbuf]
    exact recordWriteEnd_buf (by omega) (by omega)
  rcases hin with hmark | hword
  · rcases hbegun with ⟨rfl, hr⟩ | ⟨rfl, hr⟩
    · exact ⟨⟨_, hwrite, Or.inl (by omega)⟩, by omega, hr.not_used (by omega) (by omega)⟩
    · exact ⟨⟨_, hwrite, Or.inr ⟨rfl, hmark⟩⟩, by omega, hr.not_used (Or.inr hmark.1)⟩
  · exact ⟨⟨_, hwrite, Or.inl (by omega)⟩, hbegun.lt_size h.ring.toRingOk (by omega),
      hbegun.not_used (by omega) (by omega)⟩

/-- Every call that meets the condition keeps the invariant. -/
theorem step (h : MsgInv s live left) {op : MsgOp} (hfit : frameFits s op = true)
    (hs : s.step op = some t) : ∃ live' left', MsgInv t live' left' := by
  cases op with
  | frameWriteBegin size flags => exact ⟨_, _, (h.begin_step hfit hs).1⟩
  | fill i bs => exact ⟨_, _, (h.fill_step hs).1⟩
  | frameWriteEnd c => exact ⟨_, _, (h.end_step hfit hs).1⟩
  | msgWriteFlush => exact (h.flush_step hs).1
  | frameRead =>
    obtain ⟨t', ht, hinv, _⟩ := h.frameRead_step
    cases ht.symm.trans hs
    exact ⟨_, _, hinv⟩
  | frameShift => exact ⟨_, _, (h.frameShift_step hs).1⟩
  | msgReadFlush =>
    obtain ⟨hret, hsome⟩ := MsgSys.msgReadFlush_enabled hs
    obtain ⟨t', live', left', ht, hinv, _⟩ := h.msgReadFlush_step hret hsome
    cases ht.symm.trans hs
    exact ⟨_, _, hinv⟩

/-- Stores to the room of the message in progress leave everything else alone. -/
lemma inPlace_intact (h : MsgInv s live left) (hip : InPlace s.mb t.mb) {x : ℕ}
    (hx : t.mb.ring.buf x ≠ s.mb.ring.buf x) : (s.Reserved x ∨ t.Reserved x) ∧
      x < s.mb.ring.size ∧ ¬ Used s.mb.ring.size s.mb.ring.head s.mb.ring.tail x := by
  obtain ⟨⟨w, hw, h1, h2⟩, hin⟩ := hip.changed h.ring.toRingOk hx
  exact ⟨Or.inr ⟨w, hw, Or.inl ⟨by omega, h2⟩⟩, hin⟩

/-- The invariant says all of it. -/
theorem msgHolds (h : MsgInv s live left) : MsgHolds frameFits s where
  obtained := by
    rw [h.sent]
    exact List.prefix_append _ _
  current := by
    cases hread : s.mb.read with
    | none => exact Or.inl (h.read.idle hread).2
    | some d =>
      obtain ⟨todo, hr, _⟩ := h.read.busy d hread
      obtain ⟨us, hleft⟩ := hr.message
      exact Or.inr ⟨s.current ++ todo, by simp [h.sent, hleft], List.prefix_append _ _⟩
  reads := h.rret
  returns := by
    obtain ⟨t, ht, _⟩ := h.frameRead_step
    refine ⟨⟨t, ht⟩, fun hret hsome => ?_⟩
    obtain ⟨t', _, _, ht', _, _, _, hret'⟩ := h.msgReadFlush_step hret hsome
    exact ⟨t', ht', hret'⟩
  complete := by
    intro t hs hret
    obtain ⟨t', ht, _, _, hend⟩ := h.frameRead_step
    cases ht.symm.trans hs
    have hend := hend hret
    split_ifs at hend ⊢ with hsome
    · obtain ⟨us, hleft⟩ := hend
      simp [h.sent, hleft]
    · rw [h.sent, hend, List.append_nil]
  fails := by
    intro size flags t hfit hs hret
    rcases (h.begin_step hfit hs).2 with heq | ⟨hnone, _⟩
    · exact heq
    · exact absurd hnone hret
  intact := by
    intro op t x hfit hs hx
    cases op with
    | frameWriteBegin size flags =>
      rcases (h.begin_step hfit hs).2 with heq | ⟨_, hip⟩
      · rw [heq] at hx
        exact absurd rfl hx
      · exact h.inPlace_intact hip hx
    | fill i bs => exact h.inPlace_intact (h.fill_step hs).2 hx
    | frameWriteEnd c => exact h.inPlace_intact (h.end_step hfit hs).2 hx
    | msgWriteFlush =>
      obtain ⟨hres, hin⟩ := (h.flush_step hs).2 x hx
      exact ⟨Or.inl hres, hin⟩
    -- the reader stores nothing
    | frameRead =>
      obtain ⟨t', ht, _, hring, _⟩ := h.frameRead_step
      cases ht.symm.trans hs
      rw [hring] at hx
      exact absurd rfl hx
    | frameShift =>
      rw [(h.frameShift_step hs).2] at hx
      exact absurd rfl hx
    | msgReadFlush =>
      obtain ⟨hret, hsome⟩ := MsgSys.msgReadFlush_enabled hs
      obtain ⟨t', _, _, ht, _, hbuf, _⟩ := h.msgReadFlush_step hret hsome
      cases ht.symm.trans hs
      rw [hbuf] at hx
      exact absurd rfl hx

end MsgInv

/-- The runs of the two users of a message buffer on a ring just set up. -/
abbrev MsgReach (ok : MsgSys → MsgOp → Bool) (size : ℕ) (buf : Mem) : MsgSys → Prop :=
  Reach MsgSys.step (fun s op => ok s op = true) (.init (.fresh size buf))

lemma MsgInv.init {size : ℕ} {buf : Mem} (hmod : size % 64 = 0) (hpos : 0 < size)
    (hlt : size < 2147483648) : MsgInv (.init (.fresh size buf)) [] [] := by
  have hring : Settled (RecordRing.fresh size buf) [] :=
    ⟨(Inv.fresh hmod hpos hlt).ring, fun _ hh => absurd rfl hh⟩
  exact ⟨hring, rfl, by simp, rfl, ⟨by simp [MsgSys.init], fun _ => ⟨rfl, rfl⟩,
    fun _ hw => by cases hw⟩, ⟨fun _ => ⟨rfl, rfl⟩, fun _ hd => by cases hd⟩, Or.inl rfl⟩

/-- Messages arrive as they were written, in every run whose calls meet the condition. -/
theorem multiframe_roundtrip {size : ℕ} {buf : Mem} {s : MsgSys} (hmod : size % 64 = 0)
    (hpos : 0 < size) (hlt : size < 2147483648) (hrun : MsgReach frameFits size buf s) :
    MsgHolds frameFits s := by
  have hinv : ∃ live left, MsgInv s live left :=
    hrun.invariant (P := fun s => ∃ live left, MsgInv s live left)
      ⟨[], [], .init hmod hpos hlt⟩ fun ⟨_, _, h⟩ hok hs => h.step hok hs
  obtain ⟨_, _, h⟩ := hinv
  exact h.msgHolds

/-- A message of one byte and an empty frame is written and read. -/
def twoFrames : List MsgOp :=
  [.frameWriteBegin 1 5, .fill 0 [7], .frameWriteEnd 1, .frameWriteBegin 0 6,
    .frameWriteEnd 0, .msgWriteFlush, .frameRead, .frameShift, .frameRead, .frameShift,
    .frameRead, .msgReadFlush]

/-- Both frames come back. -/
theorem multiframe_roundtrip_twoFrames :
    ∃ s, run MsgSys.step frameFits (.init (.fresh 256 fun _ => 0)) twoFrames = some s ∧
      s.obtained = [[⟨5, [7]⟩, ⟨6, []⟩]] ∧ MsgHolds frameFits s := by
  have hrun : (run MsgSys.step frameFits (.init (.fresh 256 fun _ => 0)) twoFrames).map
      MsgSys.obtained = some [[⟨5, [7]⟩, ⟨6, []⟩]] := by decide
  obtain ⟨s, hs, hobtained, hreach⟩ := run_map hrun
  exact ⟨s, hs, hobtained, multiframe_roundtrip (by decide) (by decide) (by decide) hreach⟩

/-- A frame of 4 bytes and one of 100 bytes, all `255`. The second `frame_write_end` stores
the size 100 not to the frame header, at byte 12 of the message, but to byte 96. -/
def strayStore : List MsgOp :=
  [.frameWriteBegin 4 0, .frameWriteEnd 4, .frameWriteBegin 100 0,
    .fill 0 (List.replicate 100 255), .frameWriteEnd 100, .msgWriteFlush, .frameRead,
    .frameShift, .frameRead, .frameShift, .frameRead, .msgReadFlush]

/-- The size goes to a byte of the frame. -/
theorem multiframe_strayStore :
    ∃ s, MsgReach (fun _ _ => true) 256 (fun _ => 0) s ∧ ¬ MsgHolds (fun _ _ => true) s := by
  have hrun : (run MsgSys.step (fun _ _ => true) (.init (.fresh 256 fun _ => 0))
      strayStore).map (fun s => (s.obtained.map fun m => m.map fun f => f.bytes[76]?,
        s.sent.map fun m => m.map fun f => f.bytes[76]?))
      = some ([[none, some 100]], [[none, some 255]]) := by decide
  obtain ⟨s, -, hbytes, hreach⟩ := run_map hrun
  obtain ⟨hobtained, hsent⟩ := Prod.mk.inj hbytes
  refine ⟨s, hreach, fun h => ?_⟩
  have hprefix := h.obtained.map fun m => m.map fun f => f.bytes[76]?
  rw [hobtained, hsent] at hprefix
  exact absurd hprefix (by decide)

end MachinekitHal
