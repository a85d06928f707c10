import MachinekitHal.Hostmot2.EthReads

/-!
What a receive of queued reads delivers.

* `writer`, `confirmOffset`: which byte of a packet the copy loop leaves at an address, and
  where it takes the sequence number from. Copying a second packet leaves no trace of the
  first (`mem_copyEntries`).
* `verdict`: the arrival that is copied last, and whether it ends the loop.
* `Queued`: the invariant of the queue.
* `ReceiveRight`: on success every buffer holds its bytes of the reply to this request, on
  failure no buffer has changed.
* `receiveQueuedReads_right`: in every state of every run the queue is within its arrays, a
  receive empties it, and it is right for all contents of the buffers exactly if nothing is
  queued, or no datagram of full length arrives, or the first one with the sequence number is
  the reply and confirms the writes.
-/

namespace MachinekitHal.Eth

open Bytes Word Runs

/-! ### The copy loop -/

/-- The offset in the packet of the byte that the copy loop leaves at `x`. -/
def writer : List ReadEntry → ℕ → Option ℕ
  | [], _ => none
  | e :: rest, x =>
    (writer rest x).or <|
      match e.buffer with
      | .user buffer =>
        if buffer ≤ x ∧ x < buffer + e.size then some (e.receivedDataOffset + (x - buffer))
        else none
      | _ => none

/-- The offset of the sequence number in the packet. -/
def confirmOffset : List ReadEntry → Option ℕ
  | [] => none
  | e :: rest =>
    (confirmOffset rest).or <|
      match e.buffer with
      | .confirm => some e.receivedDataOffset
      | _ => none

variable {tmp : Mem} {s s' : EthSys} {entries : List ReadEntry} {x : ℕ}

/-- The byte that one entry leaves at `x`. -/
lemma mem_copyEntry (e : ReadEntry) :
    (copyEntry tmp s e).mem x = match writer [e] x with
      | some o => tmp o
      | none => s.mem x := by
  rw [writer, writer, Option.none_or, copyEntry]
  cases e.buffer with
  | rxudpcount => rfl
  | confirm => rfl
  | user buffer =>
    simp only
    split_ifs with hin
    · obtain ⟨i, rfl⟩ := Nat.exists_eq_add_of_le hin.1
      have hi : i < (loadBytes tmp e.receivedDataOffset e.size).length := by
        rw [length_loadBytes]
        omega
      have hget := getElem?_loadBytes tmp e.receivedDataOffset e.size i
      rw [if_pos (by omega), List.getElem?_eq_getElem hi] at hget
      rw [storeBytes_apply hi, Option.some.inj hget, Nat.add_sub_cancel_left]
    · exact storeBytes_apply_of_outside (by rw [length_loadBytes]; omega)

/-- The bytes that the copy loop leaves. -/
lemma mem_foldl_copyEntry : (entries.foldl (copyEntry tmp) s).mem x = match writer entries x with
    | some o => tmp o
    | none => s.mem x := by
  induction entries generalizing s with
  | nil => rfl
  | cons e rest ih =>
    rw [List.foldl_cons, ih]
    cases hrest : writer rest x with
    | some o => simp only [writer, hrest, Option.some_or]
    | none => simp only [writer, hrest, mem_copyEntry, Option.none_or]

/-- The confirmed sequence number. -/
lemma confirm_foldl_copyEntry (entries : List ReadEntry) (tmp : Mem) (s : EthSys) :
    (entries.foldl (copyEntry tmp) s).board.confirmReadCnt = (match confirmOffset entries with
      | some o => load32 tmp o
      | none => s.board.confirmReadCnt) ∧
    (entries.foldl (copyEntry tmp) s).board.confirmWriteCnt = (match confirmOffset entries with
      | some o => load32 tmp (o + 4)
      | none => s.board.confirmWriteCnt) := by
  induction entries generalizing s with
  | nil => exact ⟨rfl, rfl⟩
  | cons e rest ih =>
    rw [List.foldl_cons, (ih _).1, (ih _).2]
    cases hrest : confirmOffset rest with
    | some o => simp only [confirmOffset, hrest, Option.some_or, and_self]
    | none =>
      simp only [confirmOffset, hrest, Option.none_or, copyEntry]
      cases e.buffer <;> exact ⟨rfl, rfl⟩

/-- What the copy loop and the counting of wrong packets leave alone. -/
structure SameRequest (board board' : Board) : Prop where
  packet : board'.readPacket = board.readPacket
  entries : board'.readEntries = board.readEntries
  total : board'.totalReadBufferSize = board.totalReadBufferSize
  readCnt : board'.readCnt = board.readCnt
  writeCnt : board'.writeCnt = board.writeCnt
  hal : board'.hal.isSome = board.hal.isSome

lemma SameRequest.refl (board : Board) : SameRequest board board := ⟨rfl, rfl, rfl, rfl, rfl, rfl⟩

lemma SameRequest.trans {a b c : Board} (h : SameRequest a b) (h' : SameRequest b c) :
    SameRequest a c :=
  ⟨h'.packet.trans h.packet, h'.entries.trans h.entries, h'.total.trans h.total,
    h'.readCnt.trans h.readCnt, h'.writeCnt.trans h.writeCnt, h'.hal.trans h.hal⟩

lemma SameRequest.copyEntry (e : ReadEntry) :
    SameRequest s.board (Eth.copyEntry tmp s e).board := by
  rw [Eth.copyEntry]
  cases e.buffer <;> exact ⟨rfl, rfl, rfl, rfl, rfl, rfl⟩

lemma SameRequest.foldl : SameRequest s.board (entries.foldl (Eth.copyEntry tmp) s).board := by
  induction entries generalizing s with
  | nil => exact SameRequest.refl _
  | cons e rest ih => exact (SameRequest.copyEntry e).trans ih

lemma SameRequest.countWrongSeq (board : Board) : SameRequest board board.countWrongSeq :=
  ⟨rfl, rfl, rfl, rfl, rfl, by rw [Board.countWrongSeq, Option.isSome_map]⟩

/-! ### The receive loop -/

/-- The packet buffer with an arrival in it. -/
def Board.tmpOf (board : Board) (a : Arrival) : Mem :=
  tmpBuffer (a.bytes board.totalReadBufferSize)

/-- The sequence number that is found after an arrival is copied is the one sent. -/
def Board.settles (board : Board) (a : Arrival) : Bool :=
  match confirmOffset board.readEntries with
  | some o => load32 (board.tmpOf a) o = board.readCnt
  | none => board.confirmReadCnt = board.readCnt

/-- The loop is left with this arrival. -/
def Board.accepts (board : Board) (a : Arrival) : Bool :=
  a.full board.totalReadBufferSize && board.settles a

/-- The arrival that is copied last, and whether the loop is left with it. -/
def verdict (board : Board) : List Arrival → Arrival → Option (Arrival × Bool)
  | [], last => if last.full board.totalReadBufferSize then some (last, true) else none
  | a :: early, last =>
    if a.full board.totalReadBufferSize then
      if board.settles a then some (a, true)
      else (verdict board early last).or (some (a, false))
    else verdict board early last

/-- The state of the loop belongs to a request. -/
structure Serves (board : Board) (s : EthSys) : Prop where
  same : SameRequest board s.board
  confirm : confirmOffset board.readEntries = none →
    s.board.confirmReadCnt = board.confirmReadCnt ∧
      s.board.confirmWriteCnt = board.confirmWriteCnt

variable {board : Board} {early : List Arrival} {last a : Arrival}

/-- What the memory holds when an arrival, or none, was copied last. -/
def memAfter (board : Board) (m : Mem) : Option Arrival → Mem
  | none => m
  | some a => fun x =>
    match writer board.readEntries x with
    | some o => board.tmpOf a o
    | none => m x

lemma Serves.copyEntries (h : Serves board s) (a : Arrival) :
    Serves board (Eth.copyEntries (board.tmpOf a) s) := by
  refine ⟨h.same.trans SameRequest.foldl, fun hnone => ?_⟩
  have hconfirm := confirm_foldl_copyEntry s.board.readEntries (board.tmpOf a) s
  rw [h.same.entries, hnone] at hconfirm
  rw [Eth.copyEntries, h.same.entries]
  exact ⟨hconfirm.1.trans (h.confirm hnone).1, hconfirm.2.trans (h.confirm hnone).2⟩

lemma Serves.settles (h : Serves board s) (a : Arrival) :
    (Eth.copyEntries (board.tmpOf a) s).board.confirmReadCnt
      = (Eth.copyEntries (board.tmpOf a) s).board.readCnt ↔ board.settles a = true := by
  have hconfirm := confirm_foldl_copyEntry s.board.readEntries (board.tmpOf a) s
  rw [(h.copyEntries a).same.readCnt, Eth.copyEntries, hconfirm.1, h.same.entries,
    Board.settles]
  cases hoff : confirmOffset board.readEntries with
  | some o => simp
  | none => simp [(h.confirm hoff).1]

lemma mem_copyEntries (h : Serves board s) (a : Arrival) :
    (Eth.copyEntries (board.tmpOf a) s).mem = memAfter board s.mem (some a) := by
  funext x
  rw [Eth.copyEntries, mem_foldl_copyEntry, h.same.entries]
  rfl

lemma memAfter_memAfter (m : Mem) (a : Arrival) (a' : Option Arrival) :
    memAfter board (memAfter board m (some a)) a' = memAfter board m (a'.or (some a)) := by
  cases a' with
  | none => rfl
  | some a' =>
    funext x
    simp only [memAfter, Option.some_or]
    cases writer board.readEntries x <;> rfl

lemma Serves.countWrongSeq (h : Serves board s) :
    Serves board { s with board := s.board.countWrongSeq } :=
  ⟨h.same.trans (.countWrongSeq _), h.confirm⟩

/-- The loop copies the packets as `verdict` says. -/
lemma receiveLoop_spec (h : Serves board s) (early : List Arrival) (last : Arrival) :
    Serves board (receiveLoop early last s).1 ∧
    (receiveLoop early last s).1.mem
      = memAfter board s.mem ((verdict board early last).map Prod.fst) ∧
    (receiveLoop early last s).2
      = (verdict board early last).bind (fun v => if v.2 then some v.1 else none) ∧
    ∀ a, (receiveLoop early last s).2 = some a → ∀ o, confirmOffset board.readEntries = some o →
      (receiveLoop early last s).1.board.confirmWriteCnt = load32 (board.tmpOf a) (o + 4) := by
  have hwrite : ∀ (s : EthSys) (a : Arrival), Serves board s →
      ∀ o, confirmOffset board.readEntries = some o →
      (copyEntries (board.tmpOf a) s).board.confirmWriteCnt
        = load32 (board.tmpOf a) (o + 4) := fun s a hs o ho => by
    rw [copyEntries, (confirm_foldl_copyEntry _ _ s).2, hs.same.entries, ho]
  induction early generalizing s with
  | nil =>
    rw [receiveLoop, verdict, h.same.total]
    split_ifs with hfull
    · refine ⟨h.copyEntries last, mem_copyEntries h last, rfl, fun a ha o ho => ?_⟩
      cases ha
      exact hwrite s last h o ho
    · exact ⟨h, rfl, rfl, fun a ha => by cases ha⟩
  | cons a early ih =>
    rw [receiveLoop, verdict, h.same.total,
      show tmpBuffer (a.bytes board.totalReadBufferSize) = board.tmpOf a from rfl]
    by_cases hfull : a.full board.totalReadBufferSize = true
    · rw [if_pos hfull, if_pos hfull]
      by_cases hsettles : board.settles a = true
      · rw [if_pos hsettles]
        dsimp only
        rw [if_neg (not_not.2 ((h.settles a).2 hsettles))]
        refine ⟨h.copyEntries a, mem_copyEntries h a, rfl, fun b hb o ho => ?_⟩
        cases hb
        exact hwrite s a h o ho
      · rw [if_neg hsettles]
        dsimp only
        rw [if_pos (fun heq => hsettles ((h.settles a).1 heq))]
        obtain ⟨h1, h2, h3, h4⟩ := ih (h.copyEntries a).countWrongSeq
        refine ⟨h1, ?_, ?_, h4⟩
        · refine h2.trans ?_
          dsimp only
          rw [mem_copyEntries h, memAfter_memAfter]
          cases verdict board early last <;> rfl
        · refine h3.trans ?_
          cases verdict board early last <;> rfl
    · rw [if_neg hfull, if_neg hfull]
      exact ih h

/-- Without a datagram of full length nothing is copied. -/
lemma verdict_eq_none : verdict board early last = none ↔
    ∀ a ∈ early ++ [last], a.full board.totalReadBufferSize = false := by
  induction early with
  | nil =>
    rw [verdict]
    split_ifs with hfull <;> simp [hfull]
  | cons a early ih =>
    rw [verdict]
    split_ifs with hfull hsettles
    · simp [hfull]
    · simp [hfull]
    · rw [ih]
      simp [hfull]

/-- What is copied last did arrive, in full length. -/
lemma verdict_full {exits : Bool} (h : verdict board early last = some (a, exits)) :
    a ∈ early ++ [last] ∧ a.full board.totalReadBufferSize = true := by
  induction early with
  | nil =>
    rw [verdict] at h
    split_ifs at h with hfull
    cases h
    exact ⟨by simp, hfull⟩
  | cons b early ih =>
    rw [verdict] at h
    split_ifs at h with hfull hsettles
    · cases h
      exact ⟨by simp, hfull⟩
    · cases hv : verdict board early last with
      | none =>
        rw [hv, Option.none_or] at h
        cases h
        exact ⟨by simp, hfull⟩
      | some v =>
        rw [hv, Option.some_or] at h
        obtain ⟨hmem, hf⟩ := ih (hv.trans h)
        exact ⟨.tail _ hmem, hf⟩
    · obtain ⟨hmem, hf⟩ := ih h
      exact ⟨.tail _ hmem, hf⟩

/-- The first arrival that is accepted ends the loop. -/
lemma verdict_of_find (h : (early ++ [last]).find? board.accepts = some a) :
    verdict board early last = some (a, true) := by
  induction early with
  | nil =>
    rw [verdict]
    obtain ⟨hacc, hmem⟩ := List.find?_some h, List.mem_of_find?_eq_some h
    obtain rfl : a = last := by simpa using hmem
    rw [if_pos (Bool.and_eq_true _ _ ▸ hacc).1]
  | cons b early ih =>
    rw [List.cons_append, List.find?_cons] at h
    rw [verdict]
    cases hacc : board.accepts b with
    | true =>
      rw [hacc] at h
      cases h
      obtain ⟨h1, h2⟩ := (Bool.and_eq_true _ _).mp hacc
      rw [if_pos h1, if_pos h2]
    | false =>
      rw [hacc] at h
      rw [ih h]
      split_ifs with h1 h2
      · rw [Board.accepts, h1, h2] at hacc
        cases hacc
      · rfl
      · rfl

/-- If the loop is left with an arrival that is accepted, it is the first one. -/
lemma find_of_verdict (h : verdict board early last = some (a, true))
    (hacc : board.accepts a = true) : (early ++ [last]).find? board.accepts = some a := by
  induction early with
  | nil =>
    rw [verdict] at h
    split_ifs at h
    cases h
    rw [List.nil_append, List.find?_singleton, hacc]
    rfl
  | cons b early ih =>
    rw [verdict] at h
    rw [List.cons_append, List.find?_cons]
    split_ifs at h with h1 h2
    · cases h
      rw [hacc]
    · have hb : board.accepts b = false := by
        rw [Board.accepts, h1, Bool.true_and]
        simpa using h2
      rw [hb]
      refine ih ?_
      cases hv : verdict board early last with
      | none =>
        rw [hv, Option.none_or] at h
        cases h
      | some v => rwa [hv, Option.some_or] at h
    · have hb : board.accepts b = false := by
        rw [Board.accepts, Bool.and_eq_false_iff]
        exact .inl (by simpa using h1)
      rw [hb]
      exact ih h

/-! ### The queue -/

/-- The entries follow one another in the packet that is received. -/
def Laid : ℕ → List ReadEntry → Prop
  | _, [] => True
  | start, e :: rest => e.receivedDataOffset = start ∧ Laid (start + e.size) rest

/-- The bytes of the entries. -/
def totalSize (entries : List ReadEntry) : ℕ := (entries.map ReadEntry.size).sum

/-- The size of an entry suits its destination. -/
def ReadEntry.Sized (e : ReadEntry) : Prop :=
  match e.buffer with
  | .user _ => 0 < e.size
  | .rxudpcount => e.size = 2
  | .confirm => e.size = 8

/-- The invariant of the queue. -/
structure Queued (board : Board) : Prop where
  laid : Laid 0 board.readEntries
  total : board.totalReadBufferSize = totalSize board.readEntries
  sized : ∀ e ∈ board.readEntries, e.Sized
  count_le : board.readEntries.length ≤ maxEthReads
  packet_le : board.readPacket.length ≤ readPacketSize

lemma totalSize_append (l l' : List ReadEntry) :
    totalSize (l ++ l') = totalSize l + totalSize l' := by
  rw [totalSize, List.map_append, List.sum_append]
  rfl

lemma laid_append {start : ℕ} {l l' : List ReadEntry} :
    Laid start (l ++ l') ↔ Laid start l ∧ Laid (start + totalSize l) l' := by
  induction l generalizing start with
  | nil => simp [Laid, totalSize]
  | cons e rest ih =>
    rw [List.cons_append, Laid, Laid, ih, and_assoc]
    have hsum : start + e.size + totalSize rest = start + totalSize (e :: rest) := by
      rw [totalSize, totalSize, List.map_cons, List.sum_cons, Nat.add_assoc]
    rw [hsum]

/-- A read at the end of the queue. -/
lemma Queued.push (h : Queued board) (cmd addr : ℕ) {buffer : Dest} {size : ℕ}
    (hsized : (⟨buffer, size, board.totalReadBufferSize⟩ : ReadEntry).Sized)
    (hcount : board.readEntries.length < maxEthReads)
    (hpacket : board.readPacket.length + 4 ≤ readPacketSize) :
    Queued (board.push cmd addr buffer size) := by
  refine ⟨laid_append.2 ⟨h.laid, ?_, trivial⟩, ?_, fun e he => ?_, ?_, ?_⟩
  · rw [Nat.zero_add]
    exact h.total
  · change board.totalReadBufferSize + size = totalSize (board.readEntries ++ [_])
    rw [totalSize_append, h.total]
    rfl
  · rcases List.mem_append.1 he with he | he
    · exact h.sized e he
    · obtain rfl := List.mem_singleton.1 he
      exact hsized
  · change (board.readEntries ++ [_]).length ≤ maxEthReads
    rw [List.length_append]
    exact hcount
  · change (board.readPacket ++ _).length ≤ readPacketSize
    rw [List.length_append]
    exact hpacket

/-- The same entries with a packet that fits. -/
lemma Queued.congr (h : Queued board) {board' : Board}
    (hpacket : board'.readPacket.length ≤ readPacketSize)
    (hentries : board'.readEntries = board.readEntries)
    (htotal : board'.totalReadBufferSize = board.totalReadBufferSize) : Queued board' :=
  ⟨hentries ▸ h.laid, by rw [htotal, hentries, h.total], hentries ▸ h.sized,
    hentries ▸ h.count_le, hpacket⟩

lemma Queued.of_nil (hpacket : board.readPacket = []) (hentries : board.readEntries = [])
    (htotal : board.totalReadBufferSize = 0) : Queued board := by
  refine ⟨hentries ▸ trivial, by rw [htotal, hentries]; rfl, fun e he => ?_, ?_, ?_⟩
  · rw [hentries] at he
    cases he
  · rw [hentries]
    exact Nat.zero_le _
  · rw [hpacket]
    exact Nat.zero_le _

lemma softError_queue (board : Board) : (softError board).2.readPacket = board.readPacket ∧
    (softError board).2.readEntries = board.readEntries ∧
    (softError board).2.totalReadBufferSize = board.totalReadBufferSize := by
  rw [softError, recordSoftError]
  cases board.hal <;> exact ⟨rfl, rfl, rfl⟩

lemma finishReceive_queue (board : Board) : (finishReceive board).2.readPacket = board.readPacket ∧
    (finishReceive board).2.readEntries = board.readEntries ∧
    (finishReceive board).2.totalReadBufferSize = board.totalReadBufferSize := by
  rw [finishReceive]
  cases hhal : board.hal with
  | none => exact ⟨rfl, rfl, rfl⟩
  | some hal =>
    simp only
    split_ifs
    · exact softError_queue board
    · rw [decrementSoftError, hhal]
      exact ⟨rfl, rfl, rfl⟩

/-- A receive empties the queue. -/
lemma receive_queue (early : List Arrival) (last : Arrival) (s : EthSys) :
    (receiveQueuedReads early last s).sys.board.readPacket = [] ∧
    (receiveQueuedReads early last s).sys.board.readEntries = [] ∧
    (receiveQueuedReads early last s).sys.board.totalReadBufferSize = 0 := by
  rw [receiveQueuedReads]
  dsimp only
  split
  · exact softError_queue _
  · exact finishReceive_queue _

/-- The reads that a send adds. -/
lemma Queued.addConfirm (h : Queued board)
    (hpacket : board.readPacket.length + 16 ≤ readPacketSize)
    (hcount : board.readEntries.length + 2 < maxEthReads) : Queued board.addConfirm := by
  have hfirst : Queued (board.push cmdReadCommCtrl 0x8 .rxudpcount 2) :=
    h.push _ _ rfl (by omega) (by omega)
  have hentries : ∀ (l : List ReadEntry) (e : ReadEntry), (l ++ [e]).length = l.length + 1 :=
    fun l e => by rw [List.length_append]; rfl
  have hbytes : ∀ (l : List UInt8) (n m : ℕ), (l ++ lbp16InitPacket4 n m).length = l.length + 4 :=
    fun l n m => by rw [List.length_append]; rfl
  have hsecond : Queued { board.push cmdReadCommCtrl 0x8 .rxudpcount 2 with
      readCnt := wrap32 (board.readCnt + 1)
      readPacket := (board.push cmdReadCommCtrl 0x8 .rxudpcount 2).readPacket ++
        lbp16InitPacket4 cmdWriteTimer 0x10 ++ le32 (wrap32 (board.readCnt + 1)) } := by
    refine hfirst.congr ?_ rfl rfl
    change ((board.readPacket ++ lbp16InitPacket4 _ _) ++ lbp16InitPacket4 _ _ ++ le32 _).length ≤ _
    rw [List.length_append, hbytes, hbytes]
    exact hpacket.trans' (by simp [le32])
  have hthird : Queued (Board.push _ cmdReadTimer 0x10 .confirm 8) := hsecond.push _ _ rfl ?_ ?_
  · exact hthird
  · change (board.readEntries ++ [_]).length < _
    rw [hentries]
    omega
  · change ((board.readPacket ++ lbp16InitPacket4 _ _) ++ lbp16InitPacket4 _ _ ++ le32 _).length + 4
      ≤ _
    rw [List.length_append, hbytes, hbytes]
    exact hpacket.trans' (by simp [le32])

/-- Every call keeps the queue. -/
lemma Queued.step {s t : EthSys} {op : EthOp} (h : Queued s.board) (hs : s.step op = some t) :
    Queued t.board := by
  cases op with
  | enqueue addr buffer size =>
    cases hs
    dsimp only
    rw [enqueueRead]
    split_ifs with _ hsize hpacket hcount
    · exact h
    · exact h
    · exact h
    · exact h
    · exact h.push _ _ (Nat.pos_of_ne_zero hsize) (by omega) (by omega)
  | send sent =>
    cases hs
    dsimp only
    rw [sendQueuedReads]
    split_ifs with hpacket hcount hsent
    · exact h
    · exact h
    · exact h.addConfirm (by omega) (by omega)
    · have hadd := h.addConfirm (by omega) (by omega)
      obtain ⟨h1, h2, h3⟩ := softError_queue s.board.addConfirm
      exact hadd.congr (h1 ▸ hadd.packet_le) h2 h3
  | receive early last =>
    cases hs
    obtain ⟨h1, h2, h3⟩ := receive_queue early last s
    exact .of_nil h1 h2 h3
  | other board mem =>
    rw [EthSys.step] at hs
    split_ifs at hs with hsame
    cases hs
    simp only [Board.sameQueue, Bool.and_eq_true, decide_eq_true_eq] at hsame
    exact h.congr (hsame.1.1 ▸ h.packet_le) hsame.1.2.symm hsame.2.symm

/-! ### Requests -/

/-- The last read of the queue is the one for the sequence number: the packet is complete. -/
def Board.requested (board : Board) : Bool :=
  board.readEntries.getLast?.map ReadEntry.buffer = some .confirm

/-- The bytes the board answers a read with; its command counts up to 127 words. -/
def ReadEntry.replySize (e : ReadEntry) : ℕ :=
  match e.buffer with
  | .user _ => 4 * (e.size / 4 % 128)
  | _ => e.size

/-- What can arrive: a datagram that is too short, or a reply; the one with the sequence number
of the request holds the bytes of its reads. -/
def Delivered (board : Board) (a : Arrival) : Prop :=
  match a with
  | .nothing => True
  | .short bytes => bytes.length < board.totalReadBufferSize
  | .reply r => r.seq < 4294967296 ∧ r.writeCnt < 4294967296 ∧
      (board.requested = true → r.seq = board.readCnt →
        r.fields.map List.length = board.readEntries.dropLast.map ReadEntry.replySize)

/-- The address is in the buffer of the entry. -/
def ReadEntry.covers (e : ReadEntry) (x : ℕ) : Prop :=
  match e.buffer with
  | .user buffer => buffer ≤ x ∧ x < buffer + e.size
  | _ => False

/-- The buffers of the callers do not overlap. -/
def Apart (board : Board) : Prop :=
  board.readEntries.Pairwise fun e e' => ∀ x, ¬ (e.covers x ∧ e'.covers x)

/-- What a receive should do to the buffers of the callers. -/
structure ReceiveRight (early : List Arrival) (last : Arrival) (s : EthSys) : Prop where
  /-- on success each holds its bytes of the reply to this request -/
  success : (receiveQueuedReads early last s).result = .success →
    ∀ (i : ℕ) (e : ReadEntry) (buffer : ℕ),
    s.board.readEntries[i]? = some e → e.buffer = .user buffer → s.board.requested = true ∧
      ∃ r, (receiveQueuedReads early last s).arrival = some (.reply r) ∧
        r.seq = s.board.readCnt ∧
        r.fields[i]? = some (loadBytes (receiveQueuedReads early last s).sys.mem buffer e.size)
  /-- on failure none has changed -/
  failure : (receiveQueuedReads early last s).result ≠ .success → ∀ e ∈ s.board.readEntries,
    ∀ x, e.covers x → (receiveQueuedReads early last s).sys.mem x = s.mem x

/-- The condition: nothing is queued; or no datagram of full length arrives; or the first one
in which the sequence number is found is the reply to this request, and no write is missing. -/
def ReceiveFits (early : List Arrival) (last : Arrival) (board : Board) : Prop :=
  (∀ e ∈ board.readEntries, ∀ buffer, e.buffer ≠ .user buffer) ∨
  (∀ a ∈ early ++ [last], a.full board.totalReadBufferSize = false) ∨
  board.requested = true ∧ ∃ r, (early ++ [last]).find? board.accepts = some (.reply r) ∧
    r.seq = board.readCnt ∧
    (board.hal = none ∨ board.writeCnt = 0 ∨ board.writeCnt = r.writeCnt)

lemma writer_eq_none (h : ∀ e ∈ entries, ¬ e.covers x) : writer entries x = none := by
  induction entries with
  | nil => rfl
  | cons e rest ih =>
    have hhead := h e (List.mem_cons_self ..)
    rw [writer, ih fun e' he' => h e' (.tail _ he'), Option.none_or]
    rw [ReadEntry.covers] at hhead
    cases hbuf : e.buffer with
    | rxudpcount => rfl
    | confirm => rfl
    | user buffer =>
      rw [hbuf] at hhead
      exact if_neg hhead

/-- Where the buffers are apart each byte comes from its own entry. -/
lemma writer_of_mem {e : ReadEntry} {buffer : ℕ}
    (hapart : entries.Pairwise fun e e' => ∀ x, ¬ (e.covers x ∧ e'.covers x)) (he : e ∈ entries)
    (hbuf : e.buffer = .user buffer) (hle : buffer ≤ x) (hlt : x < buffer + e.size) :
    writer entries x = some (e.receivedDataOffset + (x - buffer)) := by
  have hcov : e.covers x := by
    rw [ReadEntry.covers, hbuf]
    exact ⟨hle, hlt⟩
  induction entries with
  | nil => cases he
  | cons head rest ih =>
    obtain ⟨hhead, hrest⟩ := List.pairwise_cons.1 hapart
    rw [writer]
    rcases List.mem_cons.1 he with rfl | hmem
    · rw [writer_eq_none fun e' he' hc => hhead e' he' x ⟨hcov, hc⟩, hbuf, Option.none_or]
      exact if_pos ⟨hle, hlt⟩
    · rw [ih hrest hmem, Option.some_or]

lemma confirmOffset_append {e : ReadEntry} (he : e.buffer = .confirm) :
    confirmOffset (entries ++ [e]) = some e.receivedDataOffset := by
  induction entries with
  | nil => rw [List.nil_append, confirmOffset, confirmOffset, he, Option.none_or]
  | cons head rest ih => rw [List.cons_append, confirmOffset, ih, Option.some_or]

/-- The last entry of a request. -/
lemma Queued.exists_confirm (h : Queued board) (hreq : board.requested = true) :
    ∃ init e, board.readEntries = init ++ [e] ∧ e.buffer = .confirm ∧
      e.receivedDataOffset = totalSize init ∧ board.totalReadBufferSize = totalSize init + 8 := by
  rw [Board.requested, decide_eq_true_iff, Option.map_eq_some_iff] at hreq
  obtain ⟨e, hlast, hbuf⟩ := hreq
  obtain ⟨init, hinit⟩ := List.getLast?_eq_some_iff.1 hlast
  have hsized := h.sized e (by rw [hinit]; simp)
  rw [ReadEntry.Sized, hbuf] at hsized
  have hlaid := h.laid
  rw [hinit, laid_append, Nat.zero_add] at hlaid
  refine ⟨init, e, hinit, hbuf, hlaid.2.1, ?_⟩
  rw [h.total, hinit, totalSize_append, totalSize, totalSize, List.map_singleton,
    List.sum_singleton, hsized]

lemma loadBytes_tmpBuffer (bs : List UInt8) : loadBytes (tmpBuffer bs) 0 bs.length = bs := by
  apply List.ext_getElem?
  intro i
  rw [getElem?_loadBytes, tmpBuffer, Nat.zero_add]
  split_ifs with hi
  · rw [List.getElem?_eq_getElem hi]
    rfl
  · rw [List.getElem?_eq_none (by omega)]

lemma replySize_le (e : ReadEntry) : e.replySize ≤ e.size := by
  rw [ReadEntry.replySize]
  cases e.buffer <;> dsimp only <;> omega

/-- Sums of smaller parts that are equal have equal parts. -/
lemma map_eq_of_sum_le {α : Type} {f g : α → ℕ} {l : List α} (hle : ∀ a ∈ l, f a ≤ g a)
    (hsum : (l.map g).sum ≤ (l.map f).sum) : l.map f = l.map g := by
  induction l with
  | nil => rfl
  | cons a l ih =>
    have ha := hle a (List.mem_cons_self ..)
    have hl : ∀ b ∈ l, f b ≤ g b := fun b hb => hle b (.tail _ hb)
    have hrest : (l.map f).sum ≤ (l.map g).sum := List.sum_le_sum hl
    simp only [List.map_cons, List.sum_cons] at hsum ⊢
    rw [ih hl (by omega), show f a = g a by omega]

/-- The reply to a request, of full length: its fields are those of the entries, and its
counters are where they are looked for. -/
lemma Queued.reply (h : Queued board) {r : Reply} (hreq : board.requested = true)
    (hd : Delivered board (.reply r)) (hseq : r.seq = board.readCnt)
    (hfull : (Arrival.reply r).full board.totalReadBufferSize = true) :
    ∃ o, confirmOffset board.readEntries = some o ∧
      load32 (board.tmpOf (.reply r)) o = r.seq ∧
      load32 (board.tmpOf (.reply r)) (o + 4) = r.writeCnt ∧
      ∀ (i : ℕ) (e : ReadEntry) (buffer : ℕ), board.readEntries[i]? = some e →
        e.buffer = .user buffer →
        r.fields[i]? = some (loadBytes (board.tmpOf (.reply r)) e.receivedDataOffset e.size) := by
  obtain ⟨init, last, hinit, hbuf, hoff, htotal⟩ := h.exists_confirm hreq
  obtain ⟨hseqlt, hwritelt, hfields⟩ := hd
  have hlens := hfields hreq hseq
  rw [hinit, List.dropLast_concat] at hlens
  have hflat : r.fields.flatten.length = (init.map ReadEntry.replySize).sum := by
    rw [List.length_flatten, hlens]
  have hwire : r.wire.length = (init.map ReadEntry.replySize).sum + 8 := by
    rw [Reply.wire, List.length_append, hflat]
    rfl
  have htake : (r.wire.take board.totalReadBufferSize).length = board.totalReadBufferSize := by
    simpa [Arrival.full] using hfull
  have hle : board.totalReadBufferSize ≤ r.wire.length := by
    rw [← htake]
    exact (List.take_sublist _ _).length_le
  have hsizes : init.map ReadEntry.replySize = init.map ReadEntry.size :=
    map_eq_of_sum_le (fun e _ => replySize_le e) (by
      rw [← totalSize]
      omega)
  have hlen : r.wire.length = board.totalReadBufferSize := by
    rw [hwire, htotal, hsizes, totalSize]
  have htmp : board.tmpOf (.reply r) = tmpBuffer r.wire := by
    rw [Board.tmpOf, Arrival.bytes, ← hlen, List.take_length]
  have hload := loadBytes_tmpBuffer r.wire
  have hinitlen : r.fields.flatten.length = totalSize init := by rw [hflat, hsizes, totalSize]
  refine ⟨last.receivedDataOffset, by rw [hinit, confirmOffset_append hbuf], ?_, ?_, ?_⟩
  · have hmid : load32 (tmpBuffer r.wire) (0 + r.fields.flatten.length) = r.seq :=
      load32_mid hseqlt
        (hload.trans (rfl : _ = r.fields.flatten ++ (le32 r.seq ++ le32 r.writeCnt)))
    rw [htmp, hoff, ← hinitlen]
    rwa [Nat.zero_add] at hmid
  · have hmid : load32 (tmpBuffer r.wire) (0 + (r.fields.flatten ++ le32 r.seq).length)
        = r.writeCnt := load32_mid hwritelt (hload.trans (by
      rw [Reply.wire, List.append_assoc, List.append_nil] :
        r.wire = (r.fields.flatten ++ le32 r.seq) ++ (le32 r.writeCnt ++ [])))
    rw [Nat.zero_add, List.length_append] at hmid
    rw [htmp, hoff, ← hinitlen]
    exact hmid
  · intro i e buffer hi huser
    have hlt : i < init.length := by
      by_contra hge
      have hi' := hi
      rw [hinit, List.getElem?_append_right (by omega)] at hi'
      obtain ⟨hi0, rfl⟩ := List.getElem?_eq_some_iff.1 hi'
      simp [hbuf] at huser
    rw [hinit, List.getElem?_append_left hlt] at hi
    have hcount : r.fields.length = init.length := by simpa using congrArg List.length hlens
    have hget : r.fields[i]? = some r.fields[i] := List.getElem?_eq_getElem (by omega)
    have hsize : r.fields[i].length = e.size := by
      have hmap := congrArg (fun l : List ℕ => l[i]?) (hlens.trans hsizes)
      simpa [hget, hi] using hmap
    have hpre : (r.fields.take i).flatten.length = e.receivedDataOffset := by
      have hlaid := h.laid
      rw [hinit, laid_append] at hlaid
      have hsplit := List.take_append_drop i init
      rw [← hsplit, laid_append, List.drop_eq_getElem_cons hlt] at hlaid
      obtain ⟨hlt', rfl⟩ := List.getElem?_eq_some_iff.1 hi
      rw [hlaid.1.2.1, List.length_flatten, List.map_take, hlens, hsizes, Nat.zero_add, totalSize,
        List.map_take]
    have hwhole : loadBytes (tmpBuffer r.wire) 0 r.wire.length = (r.fields.take i).flatten ++
        (r.fields[i] ++ ((r.fields.drop (i + 1)).flatten ++ (le32 r.seq ++ le32 r.writeCnt))) := by
      rw [hload, Reply.wire]
      conv_lhs => rw [← List.take_append_drop i r.fields, List.drop_eq_getElem_cons (by omega)]
      simp only [List.flatten_append, List.flatten_cons, List.append_assoc]
    have hmid := loadBytes_mid hwhole
    rw [Nat.zero_add, hpre, hsize] at hmid
    rw [hget, htmp, hmid]

/-! ### The receive -/

lemma softError_ne_success (board : Board) : (softError board).1 ≠ .success := by
  rw [softError]
  dsimp only
  split_ifs <;> exact nofun

/-- The answer for a packet that was received. -/
lemma finishReceive_success : (finishReceive board).1 = .success ↔
    board.hal = none ∨ board.writeCnt = 0 ∨ board.writeCnt = board.confirmWriteCnt := by
  rw [finishReceive]
  cases hhal : board.hal with
  | none => simp
  | some hal =>
    simp only
    split_ifs with hw
    · exact iff_of_false (softError_ne_success board) (by simp [hw])
    · simp only [false_or, true_iff]
      by_cases h0 : board.writeCnt = 0
      · exact .inl h0
      · exact .inr (not_not.1 fun hne => hw ⟨h0, hne⟩)

lemma serves_resetCounter (s : EthSys) :
    Serves s.board { s with board := s.board.resetCounter } := by
  have hsame : SameRequest s.board s.board.resetCounter ∧
      s.board.resetCounter.confirmReadCnt = s.board.confirmReadCnt ∧
      s.board.resetCounter.confirmWriteCnt = s.board.confirmWriteCnt := by
    rw [Board.resetCounter]
    split
    · exact ⟨SameRequest.refl _, rfl, rfl⟩
    · split_ifs
      · exact ⟨⟨rfl, rfl, rfl, rfl, rfl, rfl⟩, rfl, rfl⟩
      · exact ⟨SameRequest.refl _, rfl, rfl⟩
  exact ⟨hsame.1, fun _ => hsame.2⟩

/-- The buffers after a receive. -/
lemma receive_mem (early : List Arrival) (last : Arrival) (s : EthSys) :
    (receiveQueuedReads early last s).sys.mem
      = memAfter s.board s.mem ((verdict s.board early last).map Prod.fst) :=
  (receiveLoop_spec (serves_resetCounter s) early last).2.1

/-- The arrival that a receive is left with. -/
lemma receive_arrival (early : List Arrival) (last : Arrival) (s : EthSys) :
    (receiveQueuedReads early last s).arrival
      = (verdict s.board early last).bind (fun v => if v.2 then some v.1 else none) :=
  (receiveLoop_spec (serves_resetCounter s) early last).2.2.1

/-- Without an arrival it fails. -/
lemma receive_none (h : (receiveQueuedReads early last s).arrival = none) :
    (receiveQueuedReads early last s).result ≠ .success := by
  rw [receiveQueuedReads] at h ⊢
  dsimp only at h ⊢
  rw [h]
  exact softError_ne_success _

/-- With an arrival it succeeds if no write is missing. -/
lemma receive_some (h : (receiveQueuedReads early last s).arrival = some a) {o : ℕ}
    (ho : confirmOffset s.board.readEntries = some o) :
    (receiveQueuedReads early last s).result = .success ↔ s.board.hal = none ∨
      s.board.writeCnt = 0 ∨ s.board.writeCnt = load32 (s.board.tmpOf a) (o + 4) := by
  obtain ⟨hserves, -, -, hconfirm⟩ := receiveLoop_spec (serves_resetCounter s) early last
  rw [receiveQueuedReads] at h ⊢
  dsimp only at h ⊢
  have hhal := hserves.same.hal
  rw [← hconfirm a h o ho, h]
  change (finishReceive (Board.cleared _)).1 = _ ↔ _
  rw [finishReceive_success]
  change _ ∨ (receiveLoop early last _).1.board.writeCnt = 0 ∨
    (receiveLoop early last _).1.board.writeCnt = _ ↔ _
  rw [hserves.same.writeCnt, ← Option.not_isSome_iff_eq_none, ← Option.not_isSome_iff_eq_none]
  change ¬ (receiveLoop early last _).1.board.hal.isSome = true ∨ _ ↔ _
  rw [hhal]
  rfl

/-- Without a user's buffer there is nothing to copy. -/
lemma receive_right_of_noUser
    (huser : ∀ e ∈ s.board.readEntries, ∀ buffer, e.buffer ≠ .user buffer) :
    ReceiveRight early last s := by
  refine ⟨fun _ i e buffer hi hbuf => ?_, fun _ e he x hx => ?_⟩
  · exact absurd hbuf (huser e (List.mem_of_getElem? hi) buffer)
  · rw [ReadEntry.covers] at hx
    cases hbuf : e.buffer with
    | user buffer => exact absurd hbuf (huser e he buffer)
    | rxudpcount =>
      rw [hbuf] at hx
      exact hx.elim
    | confirm =>
      rw [hbuf] at hx
      exact hx.elim

/-- A receive without a verdict fails, and copies nothing. -/
lemma receive_right_of_quiet (hv : verdict s.board early last = none) :
    ReceiveRight early last s := by
  have harr := receive_arrival early last s
  rw [hv, Option.bind_none] at harr
  refine ⟨fun hres => absurd hres (receive_none harr), fun _ e he x hx => ?_⟩
  rw [receive_mem, hv]
  rfl

/-- A receive that takes the reply to its request copies the fields of the reply. -/
lemma receive_right_of_reply (h : Queued s.board) (hapart : Apart s.board)
    (hd : ∀ a ∈ early ++ [last], Delivered s.board a) (hreq : s.board.requested = true) {r : Reply}
    (hfind : (early ++ [last]).find? s.board.accepts = some (.reply r))
    (hseq : r.seq = s.board.readCnt)
    (hwrites : s.board.hal = none ∨ s.board.writeCnt = 0 ∨ s.board.writeCnt = r.writeCnt) :
    ReceiveRight early last s := by
  have hmem := List.mem_of_find?_eq_some hfind
  have hacc : s.board.accepts (.reply r) = true := List.find?_some hfind
  have hfull := ((Bool.and_eq_true _ _).mp hacc).1
  have hv := verdict_of_find hfind
  obtain ⟨o, ho, -, hwrite, hslices⟩ := h.reply hreq (hd _ hmem) hseq hfull
  have harr := receive_arrival early last s
  rw [hv] at harr
  have hres := (receive_some harr ho).2 (hwrite ▸ hwrites)
  refine ⟨fun _ i e buffer hi hbuf => ⟨hreq, r, harr, hseq, ?_⟩, fun hne => absurd hres hne⟩
  rw [hslices i e buffer hi hbuf, receive_mem, hv]
  congr 1
  refine List.ext_getElem? fun k => ?_
  rw [getElem?_loadBytes, getElem?_loadBytes]
  split_ifs with hk
  · have hwriter := writer_of_mem (x := buffer + k) hapart (List.mem_of_getElem? hi) hbuf
      (by omega) (by omega)
    rw [Nat.add_sub_cancel_left] at hwriter
    simp only [Option.map_some, memAfter, hwriter]
  · rfl

/-- A receive that is right for memory unlike what it copies meets the condition. -/
lemma receiveFits_of_right (h : Queued s.board) (hapart : Apart s.board)
    (hd : ∀ a ∈ early ++ [last], Delivered s.board a)
    (hright : ∀ mem, ReceiveRight early last { s with mem := mem }) :
    ReceiveFits early last s.board := by
  by_contra hno
  rw [ReceiveFits, not_or, not_or] at hno
  obtain ⟨huser, hfull, hreply⟩ := hno
  push Not at huser
  obtain ⟨e, he, buffer, hbuf⟩ := huser
  obtain ⟨i, hi⟩ := List.getElem?_of_mem he
  cases hv : verdict s.board early last with
  | none => exact hfull (verdict_eq_none.1 hv)
  | some v =>
    obtain ⟨a, exits⟩ := v
    -- memory that differs from what is copied to the first byte
    have hsized := h.sized e he
    rw [ReadEntry.Sized, hbuf] at hsized
    have hwriter : writer s.board.readEntries buffer = some (e.receivedDataOffset + 0) := by
      rw [writer_of_mem hapart he hbuf le_rfl (by omega), Nat.sub_self]
    have hcov : e.covers buffer := by
      rw [ReadEntry.covers, hbuf]
      exact ⟨le_rfl, by omega⟩
    have hr := hright fun _ => s.board.tmpOf a (e.receivedDataOffset + 0) + 1
    by_cases hres : (receiveQueuedReads early last { s with
        mem := fun _ => s.board.tmpOf a (e.receivedDataOffset + 0) + 1 }).result = .success
    · obtain ⟨hreq, r, harr, hseq, -⟩ := hr.success hres i e buffer hi hbuf
      have hverdict := (receive_arrival ..).symm.trans harr
      obtain ⟨v, hv', hexit⟩ := Option.bind_eq_some_iff.1 hverdict
      obtain ⟨b, exits⟩ := v
      split_ifs at hexit with hexits
      cases hexit
      obtain rfl : exits = true := hexits
      obtain ⟨hmem, hfullr⟩ := verdict_full hv'
      obtain ⟨o, ho, hload, hwrite, -⟩ := h.reply hreq (hd _ hmem) hseq hfullr
      have hacc : s.board.accepts (.reply r) = true := by
        rw [Board.accepts, hfullr, Board.settles, ho, Bool.true_and]
        exact decide_eq_true (hload.trans hseq)
      have hwrites := (receive_some harr ho).1 hres
      rw [hwrite] at hwrites
      exact hreply ⟨hreq, r, find_of_verdict hv' hacc, hseq, hwrites⟩
    · have hsame := hr.failure hres e he buffer hcov
      rw [receive_mem] at hsame
      dsimp only at hsame
      rw [hv, Option.map_some, memAfter] at hsame
      simp [hwriter] at hsame

/-- A receive is right for all contents of the buffers exactly if the condition holds. -/
lemma receive_right (h : Queued s.board) (hapart : Apart s.board)
    (hd : ∀ a ∈ early ++ [last], Delivered s.board a) :
    (∀ mem, ReceiveRight early last { s with mem := mem }) ↔ ReceiveFits early last s.board := by
  refine ⟨receiveFits_of_right h hapart hd, ?_⟩
  rintro (huser | hquiet | ⟨hreq, r, hfind, hseq, hwrites⟩) mem
  · exact receive_right_of_noUser huser
  · exact receive_right_of_quiet (verdict_eq_none.2 hquiet)
  · exact @receive_right_of_reply { s with mem := mem } _ _ h hapart hd hreq r hfind hseq hwrites

/-- **Queued reads.** In every state that any calls lead to: the queue is within its arrays;
a receive leaves it empty; and whatever arrives, the receive is right for all contents of the
buffers of the callers exactly if it meets the condition. -/
theorem receiveQueuedReads_right {hal : Option Hal} {mem : Mem} {s : EthSys}
    (hr : Reach EthSys.step (fun _ _ => True) ⟨.init hal, mem⟩ s) :
    (s.board.readEntries.length ≤ maxEthReads ∧ s.board.readPacket.length ≤ readPacketSize) ∧
    ∀ early last, (∀ a ∈ early ++ [last], Delivered s.board a) → Apart s.board →
      ((receiveQueuedReads early last s).sys.board.readPacket = [] ∧
        (receiveQueuedReads early last s).sys.board.readEntries = [] ∧
        (receiveQueuedReads early last s).sys.board.totalReadBufferSize = 0) ∧
      ((∀ mem, ReceiveRight early last { s with mem := mem }) ↔
        ReceiveFits early last s.board) := by
  have hq : Queued s.board := hr.invariant (P := fun s => Queued s.board)
    (.of_nil rfl rfl rfl) fun h _ hs => h.step hs
  exact ⟨⟨hq.count_le, hq.packet_le⟩, fun early last hd hapart =>
    ⟨receive_queue early last s, receive_right hq hapart hd⟩⟩

/-- A read that is answered: the reply to the first request, which carries the sequence
number `1`. -/
def answer : Reply := { fields := [[1, 2, 3, 4], [0, 0]], seq := 1, writeCnt := 0 }

/-- The answer to one queued read. -/
theorem receiveQueuedReads_right_answer : ∃ s : EthSys,
    run EthSys.step (fun _ _ => true) ⟨.init none, fun _ => 0⟩
      [.enqueue 0x1000 64 4, .send true] = some s ∧
    ReceiveRight [.nothing] (.reply answer) s := by
  have hrun : (run EthSys.step (fun _ _ => true) ⟨.init none, fun _ => 0⟩
      [.enqueue 0x1000 64 4, .send true]).map (fun s => s.board) = some
        { Board.init none with
          readPacket := [129, 66, 0, 16, 1, 89, 8, 0, 130, 209, 16, 0, 1, 0, 0, 0, 132, 81, 16, 0]
          readEntries := [⟨.user 64, 4, 0⟩, ⟨.rxudpcount, 2, 4⟩, ⟨.confirm, 8, 6⟩]
          totalReadBufferSize := 14
          readCnt := 1 } := by decide
  obtain ⟨s, hs, hboard, hr⟩ := run_map hrun
  refine ⟨s, hs, ?_⟩
  have hreach : Reach EthSys.step (fun _ _ => True) _ s :=
    hr.mono fun _ => trivial
  refine ((receiveQueuedReads_right hreach).2 [.nothing] (.reply answer) ?_ ?_).2.2
    (.inr (.inr ?_)) s.mem
  · intro a ha
    rw [hboard]
    rcases List.mem_cons.1 ha with rfl | ha
    · trivial
    · obtain rfl := List.mem_singleton.1 ha
      exact ⟨by decide, by decide, fun _ _ => by decide⟩
  · rw [Apart, hboard]
    simp [ReadEntry.covers]
  · rw [hboard]
    exact ⟨by decide, answer, by decide, rfl, .inl rfl⟩

/-- The reply to the first of two requests arrives when the time for the second one is over:
its bytes are delivered as those of the second. -/
theorem receiveQueuedReads_late : ¬ ∀ (hal : Option Hal) (mem : Mem) (s : EthSys),
    Reach EthSys.step (fun _ _ => True) ⟨.init hal, mem⟩ s →
    ∀ early last, (∀ a ∈ early ++ [last], Delivered s.board a) → Apart s.board →
      ReceiveRight early last s := by
  intro h
  have hrun : (run EthSys.step (fun _ _ => true) ⟨.init none, fun _ => 0⟩
      [.enqueue 0x1000 64 4, .send true, .receive [] .nothing, .enqueue 0x1000 64 4,
        .send true]).map (fun s => s.board) = some
        { Board.init none with
          readPacket := [129, 66, 0, 16, 1, 89, 8, 0, 130, 209, 16, 0, 2, 0, 0, 0, 132, 81, 16, 0]
          readEntries := [⟨.user 64, 4, 0⟩, ⟨.rxudpcount, 2, 4⟩, ⟨.confirm, 8, 6⟩]
          totalReadBufferSize := 14
          readCnt := 2 } := by decide
  obtain ⟨s, -, hboard, hreach⟩ := run_map hrun
  have hright := h none _ s (hreach.mono fun _ => trivial) [] (.reply answer) ?_ ?_
  · have harr : (receiveQueuedReads [] (.reply answer) s).arrival = some (.reply answer) := by
      rw [receive_arrival, hboard]
      decide
    have ho : confirmOffset s.board.readEntries = some 6 := by
      rw [hboard]
      rfl
    have hres := (receive_some harr ho).2 (.inl (by rw [hboard]; rfl))
    obtain ⟨-, r, hr, hseq, -⟩ := hright.success hres 0 ⟨.user 64, 4, 0⟩ 64
      (by rw [hboard]; rfl) rfl
    rw [harr] at hr
    obtain rfl := Arrival.reply.inj (Option.some.inj hr)
    rw [hboard] at hseq
    exact absurd hseq (by decide)
  · intro a ha
    rw [hboard]
    obtain rfl := List.mem_singleton.1 ha
    exact ⟨by decide, by decide, fun _ he => absurd he (by decide)⟩
  · rw [Apart, hboard]
    simp [ReadEntry.covers]

end MachinekitHal.Eth
