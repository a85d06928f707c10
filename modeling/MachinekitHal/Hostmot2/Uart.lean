import MachinekitHal.Hostmot2.PktuartRoundTrip
import MachinekitHal.Lib.Runs

/-!
The UART of hostmot2.

* `Port`: the registers of an instance, with the bytes that were written and received.
* `hm2UartSend`, `hm2UartRead`: the transfers, with their static error flags.
* `sendBytes_eq`, `exists_readBytes`, `readBytes_lost`: what a transfer does to the port.
* `UartSys`: calls in any order, with what was sent and delivered.
* `StreamLaw`, `Lawful`: what is asked of the streams and of a call.
* `Sound`: the calls that keep it.
* `streams_iff`: a call is lawful if and only if it is sound, in every run of sound calls.
-/

namespace MachinekitHal.Uart

open Pktuart

/-- An instance: its name, and its bitrate, 0 before `hm2_uart_setup`. -/
structure Instance where
  name : String
  bitrate : BitVec 32

/-- `hm2_get_uart`, on the instances of all boards in the order of the list of boards. -/
def hm2GetUart (name : String) : List Instance → Option (ℕ × Instance)
  | [] => none
  | inst :: rest =>
    if inst.name = name then some (0, inst)
    else (hm2GetUart name rest).map fun (i, inst) => (i + 1, inst)

/-! ### Registers -/

/-- The registers of an instance: the bytes that were written to `tx1` to `tx4`, the receive FIFO,
all bytes that it has received, and how often a register was accessed. -/
structure Port where
  written : List (BitVec 8)
  queue : List (BitVec 8)
  received : List (BitVec 8)
  accesses : ℕ

/-- The first `n` bytes of a word. -/
def bytesOf (n : ℕ) (buff : BitVec 32) : List (BitVec 8) := (List.range n).map (byteOf buff)

/-- Bytes arrive. -/
def Port.arrive (bytes : List (BitVec 8)) (p : Port) : Port :=
  { p with queue := p.queue ++ bytes, received := p.received ++ bytes }

/-- A write of the register `tx1`, `tx2`, `tx3` or `tx4`. -/
def Port.tx (n : ℕ) (buff : BitVec 32) (p : Port) : Port :=
  { p with written := p.written ++ bytesOf n buff, accesses := p.accesses + 1 }

/-- A read of the register `rx1`, `rx2`, `rx3` or `rx4`. -/
def Port.rx (n : ℕ) (p : Port) : BitVec 32 × Port :=
  (word (fun k => p.queue.getD k 0) 0 n,
    { p with queue := p.queue.drop n, accesses := p.accesses + 1 })

/-- A read of the count register of the receive FIFO. -/
def Port.rxFifoCount (p : Port) : BitVec 32 × Port :=
  (BitVec.ofNat 32 p.queue.length, { p with accesses := p.accesses + 1 })

/-! ### Sending -/

/-- The last 1 to 3 bytes. `r c` is what `llio->write` returns at the byte `c`. -/
def sendRest (r : ℕ → ℤ) (data : ℕ → BitVec 8) (n c : ℕ) (p : Port) : ℤ × Port :=
  let p := p.tx n (word data c n)
  if r c < 0 then (r c, p) else (c + n, p)

/-- The bytes from `c` on, of which so many are left. -/
def sendBytes (r : ℕ → ℤ) (data : ℕ → BitVec 8) : ℕ → ℕ → Port → ℤ × Port
  | 0, c, p => (c, p)
  | 1, c, p => sendRest r data 1 c p
  | 2, c, p => sendRest r data 2 c p
  | 3, c, p => sendRest r data 3 c p
  | left + 4, c, p =>
    let p := p.tx 4 (word data c 4)
    if r c < 0 then (r c, p) else sendBytes r data left (c + 4) p

/-- `hm2_uart_send`: the result, `err_flag` and the registers. With the flag set an unknown name
goes on to `instance[-1]`. -/
def hm2UartSend (instances : List Instance) (r : ℕ → ℤ) (name : String) (data : ℕ → BitVec 8)
    (count : ℕ) (errFlag : Bool) (ports : ℕ → Port) : Option (ℤ × Bool × (ℕ → Port)) :=
  match hm2GetUart name instances with
  | none => if !errFlag then some (-1, true, ports) else none
  | some (i, inst) =>
    if inst.bitrate = 0 ∧ !errFlag then some (-1, true, ports)
    else
      let (result, p) := sendBytes r data count 0 (ports i)
      some (result, false, Function.update ports i p)

/-! ### Receiving -/

/-- The last 1 to 3 bytes. `arrive c` are the bytes that arrive in front of this read. -/
def readRest (arrive : ℕ → List (BitVec 8)) (n c : ℕ) (data : List (BitVec 8)) (p : Port) :
    ℤ × List (BitVec 8) × Port :=
  let (buff, p) := (p.arrive (arrive c)).rx n
  (c + n, data ++ bytesOf n buff, p)

/-- The bytes from `c` on, of which so many are left. `data` is the array of the caller as far as it
is written. -/
def readBytes (r : ℕ → ℤ) (arrive : ℕ → List (BitVec 8)) :
    ℕ → ℕ → List (BitVec 8) → Port → ℤ × List (BitVec 8) × Port
  | 0, c, data, p => (c, data, p)
  | 1, c, data, p => readRest arrive 1 c data p
  | 2, c, data, p => readRest arrive 2 c data p
  | 3, c, data, p => readRest arrive 3 c data p
  | left + 4, c, data, p =>
    if c < 16 then
      let (buff, p) := (p.arrive (arrive c)).rx 4
      if r c < 0 then (r c, data, p)
      else readBytes r arrive left (c + 4) (data ++ bytesOf 4 buff) p
    else (-Errno.EINVAL.code, data, p)

/-- `hm2_uart_read`: the result, the bytes, `err_flag` and the registers. `early` are the bytes that
arrive in front of the read of the count register. -/
def hm2UartRead (instances : List Instance) (r : ℕ → ℤ) (name : String)
    (early : List (BitVec 8)) (arrive : ℕ → List (BitVec 8)) (errFlag : Bool) (ports : ℕ → Port) :
    ℤ × List (BitVec 8) × Bool × (ℕ → Port) :=
  match hm2GetUart name instances with
  | none => (-1, [], errFlag, ports)
  | some (i, inst) =>
    if inst.bitrate = 0 ∧ !errFlag then (-1, [], true, ports)
    else
      let (buff, p) := ((ports i).arrive early).rxFifoCount
      let (result, data, p) := readBytes r arrive (buff &&& 0x1F).toNat 0 [] p
      (result, data, false, Function.update ports i p)

/-! ### One transfer -/

variable {p : Port} {n c left : ℕ}

lemma length_bytesOf (n : ℕ) (buff : BitVec 32) : (bytesOf n buff).length = n := by
  rw [bytesOf, List.length_map, List.length_range]

/-- The register takes the bytes that were packed. -/
lemma bytesOf_word (data : ℕ → BitVec 8) (c : ℕ) (hn : n ≤ 4) :
    bytesOf n (word data c n) = (List.range' c n).map data := by
  rw [bytesOf, List.range'_eq_map_range, List.map_map]
  exact List.map_congr_left fun k hk => byteOf_word data c hn (List.mem_range.1 hk)

lemma sendRest_eq (data : ℕ → BitVec 8) (hn : n ≤ 4) (c : ℕ) (p : Port) :
    ∃ k, sendRest (fun _ => 1) data n c p = ((c : ℤ) + n,
      { p with written := p.written ++ (List.range' c n).map data, accesses := k }) := by
  refine ⟨p.accesses + 1, ?_⟩
  rw [sendRest, if_neg (by decide), Port.tx, bytesOf_word data c hn]

/-- A send writes its bytes in order. -/
lemma sendBytes_eq (data : ℕ → BitVec 8) (left c : ℕ) (p : Port) :
    ∃ k, sendBytes (fun _ => 1) data left c p = ((c : ℤ) + left,
      { p with written := p.written ++ (List.range' c left).map data, accesses := k }) := by
  induction left using Nat.strong_induction_on generalizing c p with
  | _ left ih =>
    match left, ih with
    | 0, _ => exact ⟨p.accesses, by simp [sendBytes]⟩
    | 1, _ => exact sendRest_eq data (by decide) c p
    | 2, _ => exact sendRest_eq data (by decide) c p
    | 3, _ => exact sendRest_eq data (by decide) c p
    | left + 4, ih =>
      obtain ⟨k, hk⟩ := ih left (by omega) (c + 4) (p.tx 4 (word data c 4))
      refine ⟨k, ?_⟩
      rw [sendBytes, if_neg (by decide), hk, Port.tx, bytesOf_word data c le_rfl]
      have hrange : List.range' c (left + 4) = List.range' c 4 ++ List.range' (c + 4) left := by
        rw [Nat.add_comm left 4, ← List.range'_append_1]
      rw [hrange, List.map_append, List.append_assoc]
      push_cast
      rw [add_right_comm, add_assoc]

/-- A register gives the bytes at the front of the queue. -/
lemma bytesOf_rx (hn : n ≤ 4) (hqueue : n ≤ p.queue.length) :
    bytesOf n (p.rx n).1 = p.queue.take n := by
  rw [Port.rx, bytesOf_word _ 0 hn]
  refine List.ext_getElem (by simp [hqueue]) fun k hk hk' => ?_
  rw [List.getElem_map, List.getElem_range', Nat.zero_add, Nat.one_mul, List.getElem_take]
  have hlt : k < p.queue.length := hk'.trans_le (List.length_take_le' _ _)
  rw [List.getD_eq_getElem?_getD, List.getElem?_eq_getElem hlt, Option.getD_some]

/-- All that was received is what was taken, and then the queue. -/
def Port.Taken (p : Port) (bytes : List (BitVec 8)) : Prop := p.received = bytes ++ p.queue

variable {taken data : List (BitVec 8)}

lemma Port.Taken.arrive (h : p.Taken taken) (bytes : List (BitVec 8)) :
    (p.arrive bytes).Taken taken := by
  show p.received ++ bytes = taken ++ (p.queue ++ bytes)
  rw [h, List.append_assoc]

/-- What a register gives is taken. -/
lemma Port.Taken.rx (h : p.Taken taken) (hn : n ≤ 4) (hqueue : n ≤ p.queue.length) :
    (p.rx n).2.Taken (taken ++ bytesOf n (p.rx n).1) := by
  show p.received = taken ++ bytesOf n (p.rx n).1 ++ p.queue.drop n
  rw [bytesOf_rx hn hqueue, List.append_assoc, List.take_append_drop, h]

/-- What is read is delivered. -/
def Delivers (taken : List (BitVec 8)) (p : Port) (c left : ℕ) (data : List (BitVec 8))
    (result : ℤ × List (BitVec 8) × Port) : Prop :=
  ∃ bytes, bytes.length = left ∧ result.1 = c + left ∧ result.2.1 = data ++ bytes ∧
    result.2.2.Taken (taken ++ bytes) ∧ result.2.2.written = p.written

lemma delivers_readRest (arrive : ℕ → List (BitVec 8)) (h : p.Taken taken) (hn : n ≤ 4)
    (hqueue : n ≤ p.queue.length) :
    Delivers taken p c n data (readRest arrive n c data p) := by
  have harrive : n ≤ (p.arrive (arrive c)).queue.length :=
    hqueue.trans (by simp [Port.arrive])
  exact ⟨_, length_bytesOf _ _, rfl, rfl, (h.arrive (arrive c)).rx hn harrive, rfl⟩

/-- A read that comes to at most 19 bytes. -/
lemma delivers_readBytes (arrive : ℕ → List (BitVec 8)) (h : p.Taken taken)
    (hqueue : left ≤ p.queue.length) (hc : 4 ∣ c) (hle : c + left ≤ 19) :
    Delivers taken p c left data (readBytes (fun _ => 1) arrive left c data p) := by
  induction left using Nat.strong_induction_on generalizing c data p taken with
  | _ left ih =>
    match left, ih with
    | 0, _ =>
      refine ⟨[], rfl, ?_, (List.append_nil data).symm, ?_, rfl⟩
      · rw [readBytes, Nat.cast_zero, add_zero]
      · rw [readBytes, List.append_nil]
        exact h
    | 1, _ => exact delivers_readRest arrive h (by decide) hqueue
    | 2, _ => exact delivers_readRest arrive h (by decide) hqueue
    | 3, _ => exact delivers_readRest arrive h (by decide) hqueue
    | left + 4, ih =>
      have harrive : left + 4 ≤ (p.arrive (arrive c)).queue.length :=
        hqueue.trans (by simp [Port.arrive])
      have htaken := (h.arrive (arrive c)).rx le_rfl (le_of_add_le_right harrive)
      have hdrop : left ≤ ((p.arrive (arrive c)).rx 4).2.queue.length := by
        show left ≤ ((p.arrive (arrive c)).queue.drop 4).length
        rw [List.length_drop]
        omega
      obtain ⟨bytes, hlength, hresult, hdata, htaken', hwritten⟩ :=
        @ih left (by omega) _ (c + 4) _ (data ++ bytesOf 4 ((p.arrive (arrive c)).rx 4).1)
          htaken hdrop (by omega) (by omega)
      rw [readBytes, if_pos (by omega)]
      dsimp only
      rw [if_neg (by decide)]
      refine ⟨_, ?_, ?_, hdata.trans (List.append_assoc _ _ _), ?_, hwritten⟩
      · rw [List.length_append, length_bytesOf, hlength, Nat.add_comm]
      · rw [hresult]
        push_cast
        rw [add_assoc, add_comm (4 : ℤ)]
      · rw [← List.append_assoc]
        exact htaken'

/-- A read accesses registers. -/
lemma accesses_le_readBytes (r : ℕ → ℤ) (arrive : ℕ → List (BitVec 8)) (left c : ℕ)
    (data : List (BitVec 8)) (p : Port) :
    p.accesses ≤ (readBytes r arrive left c data p).2.2.accesses := by
  induction left, c, data, p using readBytes.induct r arrive with
  | case1 c data p => exact le_rfl
  | case2 c data p => exact Nat.le_succ _
  | case3 c data p => exact Nat.le_succ _
  | case4 c data p => exact Nat.le_succ _
  | case5 left c data p hc buff p' hrx hr =>
    rw [readBytes, if_pos hc, hrx]
    dsimp only
    rw [if_pos hr]
    exact (Nat.le_succ _).trans_eq (congrArg (fun x => x.2.accesses) hrx)
  | case6 left c data p hc buff p' hrx hr ih =>
    rw [readBytes, if_pos hc, hrx]
    dsimp only
    rw [if_neg hr]
    exact ((Nat.le_succ _).trans_eq (congrArg (fun x => x.2.accesses) hrx)).trans ih
  | case7 left c data p hc =>
    rw [readBytes, if_neg hc]

/-- Bytes that were removed and not delivered. -/
def Port.Lost (p : Port) (n : ℕ) : Prop := p.received.length = n + p.queue.length

/-- A read that comes to more than 19 bytes ends after 16 of them. -/
lemma readBytes_lost (arrive : ℕ → List (BitVec 8)) (h : p.Lost n)
    (hqueue : left ≤ p.queue.length) (hc : 4 ∣ c) (hle : c ≤ 16) (hlt : 19 < c + left) :
    (readBytes (fun _ => 1) arrive left c data p).1 = -Errno.EINVAL.code ∧
      (readBytes (fun _ => 1) arrive left c data p).2.2.Lost (n + (16 - c)) := by
  induction left using Nat.strong_induction_on generalizing c data p n with
  | _ left ih =>
    match left, ih with
    | 0, _ => omega
    | 1, _ => omega
    | 2, _ => omega
    | 3, _ => omega
    | left + 4, ih =>
      rw [readBytes]
      dsimp only
      split_ifs with h16 hr
      · exact absurd hr (by decide)
      · have hlost : ((p.arrive (arrive c)).rx 4).2.Lost (n + 4) := by
          show (p.received ++ arrive c).length
            = n + 4 + ((p.queue ++ arrive c).drop 4).length
          rw [List.length_drop, List.length_append, List.length_append, h]
          omega
        have hdrop : left ≤ ((p.arrive (arrive c)).rx 4).2.queue.length := by
          show left ≤ ((p.queue ++ arrive c).drop 4).length
          rw [List.length_drop, List.length_append]
          omega
        have hrest := @ih left (by omega) _ (n + 4) (c + 4)
          (data ++ bytesOf 4 ((p.arrive (arrive c)).rx 4).1) hlost hdrop (by omega)
          (by omega) (by omega)
        rw [show n + 4 + (16 - (c + 4)) = n + (16 - c) by omega] at hrest
        exact hrest
      · obtain rfl : c = 16 := by omega
        exact ⟨rfl, h⟩

end MachinekitHal.Uart

namespace MachinekitHal.Uart

open Pktuart Runs

/-- The instances with their registers, the two `err_flag`s, the result of the last call, and for
each instance the data of the sends and the bytes of the reads that were successful. -/
structure UartSys where
  instances : List Instance
  ports : ℕ → Port
  sendErr : Bool
  readErr : Bool
  result : ℤ
  sent : ℕ → List (BitVec 8)
  delivered : ℕ → List (BitVec 8)

/-- Nothing is sent or received. -/
def UartSys.init (instances : List Instance) : UartSys where
  instances := instances
  ports := fun _ => { written := [], queue := [], received := [], accesses := 0 }
  sendErr := false
  readErr := false
  result := 0
  sent := fun _ => []
  delivered := fun _ => []

/-- The calls, and bytes that arrive between them. -/
inductive UartOp where
  | send (name : String) (data : ℕ → BitVec 8) (count : ℕ)
  | read (name : String) (early : List (BitVec 8)) (arrive : ℕ → List (BitVec 8))
  | arrive (port : ℕ) (bytes : List (BitVec 8))

/-- The bytes of a successful call are noted with its instance. -/
def note (instances : List Instance) (name : String) (result : ℤ) (bytes : List (BitVec 8))
    (streams : ℕ → List (BitVec 8)) : ℕ → List (BitVec 8) :=
  match hm2GetUart name instances with
  | none => streams
  | some (i, _) =>
    if 0 ≤ result then Function.update streams i (streams i ++ bytes) else streams

/-- One call, whose accesses of registers succeed. -/
def UartSys.step (s : UartSys) : UartOp → Option UartSys
  | .send name data count =>
    (hm2UartSend s.instances (fun _ => 1) name data count s.sendErr s.ports).map
      fun (result, errFlag, ports) => { s with
        ports := ports
        sendErr := errFlag
        result := result
        sent := note s.instances name result ((List.range count).map data) s.sent }
  | .read name early arrive =>
    let (result, data, errFlag, ports) :=
      hm2UartRead s.instances (fun _ => 1) name early arrive s.readErr s.ports
    some { s with
      ports := ports
      readErr := errFlag
      result := result
      delivered := note s.instances name result (data.take result.toNat) s.delivered }
  | .arrive port bytes =>
    some { s with ports := Function.update s.ports port ((s.ports port).arrive bytes) }

/-! ### The law -/

/-- What was written is what was sent, and what was received is what was delivered, and then the
queue. -/
structure StreamLaw (s : UartSys) : Prop where
  written : ∀ i, (s.ports i).written = s.sent i
  received : ∀ i, (s.ports i).Taken (s.delivered i)

/-- The name is that of an instance which is configured. -/
def Configured (s : UartSys) (name : String) : Prop :=
  ∃ i inst, hm2GetUart name s.instances = some (i, inst) ∧ inst.bitrate ≠ 0

/-- A call that names an unknown or unconfigured instance. -/
def Rejects (s : UartSys) : UartOp → Prop
  | .send name .. | .read name .. => ¬ Configured s name
  | .arrive .. => False

/-- A call that keeps the law, and that is an error and accesses no register if it is to be
rejected. -/
def Lawful (s : UartSys) (op : UartOp) : Prop :=
  ∃ s', s.step op = some s' ∧ StreamLaw s' ∧
    (Rejects s op → s'.result < 0 ∧ s'.ports = s.ports)

/-- A call that names an unconfigured instance does not follow one that was rejected, unless one
that was not is between them. A read does not find more than 19 bytes. -/
def Sound (s : UartSys) : UartOp → Prop
  | .send name .. => Configured s name ∨ s.sendErr = false
  | .read name early _ =>
    match hm2GetUart name s.instances with
    | none => True
    | some (i, inst) =>
      if inst.bitrate = 0 then s.readErr = false
      else ((s.ports i).queue.length + early.length) % 32 ≤ 19
  | .arrive .. => True

/-! ### The calls -/

variable {s s' : UartSys} {op : UartOp} {name : String} {data : ℕ → BitVec 8} {count i : ℕ}
  {early : List (BitVec 8)} {arrive : ℕ → List (BitVec 8)} {inst : Instance}

lemma streamLaw_init (instances : List Instance) : StreamLaw (.init instances) :=
  ⟨fun _ => rfl, fun _ => rfl⟩

/-- One port and its stream change. -/
lemma forall_update_update {α β : Type} {R : α → β → Prop} {f : ℕ → α} {g : ℕ → β} {x : α} {y : β}
    (h : ∀ j, R (f j) (g j)) (hxy : R x y) (i j : ℕ) :
    R (Function.update f i x j) (Function.update g i y j) := by
  rcases eq_or_ne j i with rfl | hne
  · rw [Function.update_self, Function.update_self]
    exact hxy
  · rw [Function.update_of_ne hne, Function.update_of_ne hne]
    exact h j

/-- One port changes, its stream does not. -/
lemma forall_update {α β : Type} {R : α → β → Prop} {f : ℕ → α} {g : ℕ → β} {x : α}
    (h : ∀ j, R (f j) (g j)) {i : ℕ} (hx : R x (g i)) (j : ℕ) :
    R (Function.update f i x j) (g j) := by
  have hboth := forall_update_update h hx i j
  rwa [Function.update_eq_self] at hboth

/-- A send to an instance, which need not be configured. -/
lemma step_send (hget : hm2GetUart name s.instances = some (i, inst))
    (hgoes : ¬ (inst.bitrate = 0 ∧ s.sendErr = false)) :
    ∃ k, s.step (.send name data count) = some { s with
      ports := Function.update s.ports i { s.ports i with
        written := (s.ports i).written ++ (List.range count).map data, accesses := k }
      sendErr := false
      result := count
      sent := Function.update s.sent i (s.sent i ++ (List.range count).map data) } := by
  obtain ⟨k, hk⟩ := sendBytes_eq data count 0 (s.ports i)
  refine ⟨k, ?_⟩
  have hgoes' : ¬ (inst.bitrate = 0 ∧ (!s.sendErr) = true) := by simpa using hgoes
  rw [UartSys.step, hm2UartSend, hget]
  dsimp only
  rw [if_neg hgoes', hk, Option.map_some, note, hget]
  dsimp only
  rw [if_pos (by omega), Nat.cast_zero, zero_add, ← List.range_eq_range']

/-- The count does not exceed the queue. -/
lemma count_le (p : Port) (early : List (BitVec 8)) :
    (p.queue.length + early.length) % 32 ≤ (p.arrive early).rxFifoCount.2.queue.length := by
  refine (Nat.mod_le _ _).trans ?_
  show _ ≤ (p.queue ++ early).length
  rw [List.length_append]

/-- What a read leaves behind, once it goes on to the registers. -/
lemma step_read (hget : hm2GetUart name s.instances = some (i, inst))
    (hgoes : ¬ (inst.bitrate = 0 ∧ s.readErr = false)) {result : ℤ} {bytes : List (BitVec 8)}
    {p : Port} (hread : readBytes (fun _ => 1) arrive
      (((s.ports i).queue.length + early.length) % 32) 0 []
      ((s.ports i).arrive early).rxFifoCount.2 = (result, bytes, p)) :
    s.step (.read name early arrive) = some { s with
      ports := Function.update s.ports i p
      readErr := false
      result := result
      delivered := if 0 ≤ result
        then Function.update s.delivered i (s.delivered i ++ bytes.take result.toNat)
        else s.delivered } := by
  have hgoes' : ¬ (inst.bitrate = 0 ∧ (!s.readErr) = true) := by simpa using hgoes
  have hcount : (((s.ports i).arrive early).rxFifoCount.1 &&& 0x1F).toNat
      = ((s.ports i).queue.length + early.length) % 32 := by
    rw [Port.rxFifoCount, Port.arrive, List.length_append]
    show (BitVec.ofNat 32 _ &&& BitVec.ofNat 32 (2 ^ 5 - 1)).toNat = _
    rw [BitVec.toNat_and, BitVec.toNat_ofNat, BitVec.toNat_ofNat]
    rw [Nat.mod_eq_of_lt (show 2 ^ 5 - 1 < 2 ^ 32 by decide), Nat.and_two_pow_sub_one_eq_mod]
    omega
  rw [UartSys.step, hm2UartRead, hget]
  dsimp only
  rw [if_neg hgoes', hcount, hread]
  dsimp only
  rw [note, hget]

lemma not_configured (hget : hm2GetUart name s.instances = some (i, inst)) :
    ¬ Configured s name ↔ inst.bitrate = 0 := by
  constructor
  · intro hnot
    by_contra hrate
    exact hnot ⟨i, inst, hget, hrate⟩
  · rintro hrate ⟨j, inst', hget', hrate'⟩
    cases hget.symm.trans hget'
    exact hrate' hrate

lemma step_send_rejected (hnot : ¬ Configured s name) (herr : s.sendErr = false) :
    s.step (.send name data count) = some { s with sendErr := true, result := -1 } := by
  rw [UartSys.step, hm2UartSend]
  cases hget : hm2GetUart name s.instances with
  | none =>
    dsimp only
    rw [if_pos (by rw [herr]; rfl), Option.map_some, note, hget]
  | some found =>
    obtain ⟨i, inst⟩ := found
    dsimp only
    rw [if_pos ⟨(not_configured hget).1 hnot, by rw [herr]; rfl⟩, Option.map_some, note, hget]
    rfl

lemma step_read_rejected (hnot : ¬ Configured s name) (hsound : Sound s (.read name early arrive)) :
    ∃ errFlag, s.step (.read name early arrive)
      = some { s with readErr := errFlag, result := -1 } := by
  rw [UartSys.step, hm2UartRead]
  rw [Sound] at hsound
  cases hget : hm2GetUart name s.instances with
  | none =>
    refine ⟨s.readErr, ?_⟩
    dsimp only
    rw [note, hget]
  | some found =>
    obtain ⟨i, inst⟩ := found
    have hrate := (not_configured hget).1 hnot
    rw [hget] at hsound
    dsimp only at hsound ⊢
    rw [if_pos hrate] at hsound
    refine ⟨true, ?_⟩
    rw [if_pos ⟨hrate, by rw [hsound]; rfl⟩, note, hget]
    rfl

lemma StreamLaw.sound (h : StreamLaw s) (hsound : Sound s op) : Lawful s op := by
  cases op with
  | arrive port bytes =>
    refine ⟨_, rfl, ⟨?_, ?_⟩, fun hrejects => hrejects.elim⟩
    · exact forall_update (R := fun (p : Port) bytes => p.written = bytes) h.written
        (h.written port)
    · exact forall_update (R := Port.Taken) h.received ((h.received port).arrive bytes)
  | send name data count =>
    by_cases hconf : Configured s name
    · obtain ⟨i, inst, hget, hrate⟩ := hconf
      obtain ⟨k, hstep⟩ := @step_send s name data count i inst hget fun hbad => hrate hbad.1
      refine ⟨_, hstep, ⟨?_, ?_⟩, fun hrejects => absurd ⟨i, inst, hget, hrate⟩ hrejects⟩
      · refine forall_update_update (R := fun (p : Port) bytes => p.written = bytes) h.written
          ?_ i
        exact congrArg (· ++ _) (h.written i)
      · exact forall_update (R := Port.Taken) h.received (h.received i)
    · have herr := hsound.resolve_left hconf
      exact ⟨_, step_send_rejected hconf herr, ⟨h.written, h.received⟩,
        fun _ => ⟨neg_one_lt_zero, rfl⟩⟩
  | read name early arrive =>
    by_cases hconf : Configured s name
    · obtain ⟨i, inst, hget, hrate⟩ := hconf
      rw [Sound, hget] at hsound
      dsimp only at hsound
      rw [if_neg hrate] at hsound
      have htaken : ((s.ports i).arrive early).rxFifoCount.2.Taken (s.delivered i) :=
        (h.received i).arrive early
      obtain ⟨bytes, hlength, hresult, hdata, htaken', hwritten⟩ :=
        @delivers_readBytes _ 0 _ _ [] arrive htaken (count_le _ early) (dvd_zero 4) (by omega)
      have hstep := @step_read s name i early arrive inst hget (fun hbad => hrate hbad.1)
        _ _ _ rfl
      refine ⟨_, hstep, ⟨?_, ?_⟩, fun hrejects => absurd ⟨i, inst, hget, hrate⟩ hrejects⟩
      · exact forall_update (R := fun (p : Port) bytes => p.written = bytes) h.written
          (hwritten.trans (h.written i))
      · dsimp only
        rw [if_pos (by rw [hresult]; omega)]
        refine forall_update_update (R := Port.Taken) h.received ?_ i
        rw [hdata, hresult, List.nil_append, List.take_of_length_le (by omega)]
        exact htaken'
    · obtain ⟨errFlag, hstep⟩ := step_read_rejected hconf hsound
      exact ⟨_, hstep, ⟨h.written, h.received⟩, fun _ => ⟨neg_one_lt_zero, rfl⟩⟩

/-- A send that names an unconfigured instance is a success, one that names an unknown instance
leaves the instances. -/
lemma not_lawful_send (hnot : ¬ Configured s name) (herr : s.sendErr = true) :
    ¬ Lawful s (.send name data count) := by
  rintro ⟨s', hstep, -, hrejects⟩
  cases hget : hm2GetUart name s.instances with
  | none =>
    rw [UartSys.step, hm2UartSend, hget] at hstep
    dsimp only at hstep
    rw [if_neg (by rw [herr]; decide)] at hstep
    cases hstep
  | some found =>
    obtain ⟨i, inst⟩ := found
    obtain ⟨k, hsend⟩ := @step_send s name data count i inst hget
      fun hbad => absurd (herr.symm.trans hbad.2) (by decide)
    cases hsend.symm.trans hstep
    exact absurd (hrejects hnot).1 (not_lt.2 (Int.natCast_nonneg count))

/-- A read that names an unconfigured instance reads the count register. -/
lemma not_lawful_read (hget : hm2GetUart name s.instances = some (i, inst))
    (hrate : inst.bitrate = 0) (herr : s.readErr = true) :
    ¬ Lawful s (.read name early arrive) := by
  rintro ⟨s', hstep, -, hrejects⟩
  have hread := @step_read s name i early arrive inst hget
    (fun hbad => absurd (herr.symm.trans hbad.2) (by decide)) _ _ _ rfl
  cases hread.symm.trans hstep
  have hports := congrFun (hrejects ((not_configured hget).2 hrate)).2 i
  dsimp only at hports
  rw [Function.update_self] at hports
  have haccesses := accesses_le_readBytes (fun _ => 1) arrive
    (((s.ports i).queue.length + early.length) % 32) 0 [] ((s.ports i).arrive early).rxFifoCount.2
  rw [hports] at haccesses
  exact absurd haccesses (Nat.not_succ_le_self _)

/-- A read that finds more than 19 bytes loses 16 of them. -/
lemma not_lawful_lost (h : StreamLaw s) (hget : hm2GetUart name s.instances = some (i, inst))
    (hrate : inst.bitrate ≠ 0)
    (hcount : 19 < ((s.ports i).queue.length + early.length) % 32) :
    ¬ Lawful s (.read name early arrive) := by
  rintro ⟨s', hstep, hlaw, -⟩
  have htaken : ((s.ports i).arrive early).rxFifoCount.2.Taken (s.delivered i) :=
    (h.received i).arrive early
  have hlost : ((s.ports i).arrive early).rxFifoCount.2.Lost (s.delivered i).length :=
    (congrArg List.length htaken).trans List.length_append
  obtain ⟨hresult, hrest⟩ := @readBytes_lost _ _ 0 _ [] arrive hlost (count_le _ early)
    (dvd_zero 4) (Nat.zero_le _) (by omega)
  have hread := @step_read s name i early arrive inst hget (fun hbad => hrate hbad.1) _ _ _ rfl
  cases hread.symm.trans hstep
  have hreceived := hlaw.received i
  dsimp only at hreceived
  rw [Function.update_self, if_neg (by rw [hresult]; decide)] at hreceived
  have hlength := (Eq.symm hrest).trans ((congrArg List.length hreceived).trans List.length_append)
  have hsame : (s.delivered i).length + (16 - 0) = (s.delivered i).length :=
    Nat.add_right_cancel hlength
  omega

lemma Lawful.sound (h : StreamLaw s) (hlawful : Lawful s op) : Sound s op := by
  cases op with
  | arrive port bytes => trivial
  | send name data count =>
    by_contra hsound
    obtain ⟨hnot, herr⟩ := not_or.1 hsound
    exact not_lawful_send hnot (by simpa using herr) hlawful
  | read name early arrive =>
    rw [Sound]
    cases hget : hm2GetUart name s.instances with
    | none => trivial
    | some found =>
      obtain ⟨i, inst⟩ := found
      dsimp only
      split_ifs with hrate
      · by_contra herr
        exact not_lawful_read hget hrate (by simpa using herr) hlawful
      · by_contra hcount
        exact not_lawful_lost h hget hrate (not_le.1 hcount) hlawful

/-! ### Runs -/

/-- The byte streams. In every run of sound calls, whatever names they have and whatever bytes
arrive: the next call is lawful if and only if it is sound. -/
theorem streams_iff {instances : List Instance}
    (hs : Reach UartSys.step Sound (.init instances) s) (op : UartOp) :
    Lawful s op ↔ Sound s op := by
  have hlaw : StreamLaw s := by
    refine hs.invariant (streamLaw_init instances) fun hs hsound hstep => ?_
    obtain ⟨s', hstep', hlaw, -⟩ := hs.sound hsound
    cases hstep.symm.trans hstep'
    exact hlaw
  exact ⟨fun h => h.sound hlaw, fun h => hlaw.sound h⟩

/-- An instance that is configured, and one that is not. -/
def twoInstances : List Instance := [⟨"hm2_7i80.0.uart.0", 9895⟩, ⟨"hm2_7i80.0.uart.1", 0⟩]

/-- Nineteen bytes are delivered. -/
theorem streams_nineteen : ∃ s, (UartSys.init twoInstances).step
    (.arrive 0 (List.replicate 19 0x55)) = some s ∧
      Lawful s (.read "hm2_7i80.0.uart.0" [] fun _ => []) := by
  have hsound : Sound (.init twoInstances) (.arrive 0 (List.replicate 19 0x55)) := trivial
  refine ⟨_, rfl, (streams_iff (Reach.refl.tail hsound rfl) _).2 ?_⟩
  show (19 + 0) % 32 ≤ 19
  decide

/-- The second call of two that name an instance which is not there. -/
theorem streams_unknown : ¬ ∀ (instances : List Instance) (s : UartSys) (op : UartOp),
    Reach UartSys.step (fun _ _ => True) (.init instances) s → Lawful s op := by
  intro hall
  have hstep : (UartSys.init twoInstances).step (.send "uart" (fun _ => 0) 1)
      = some { UartSys.init twoInstances with sendErr := true, result := -1 } := rfl
  obtain ⟨s', hsecond, -⟩ := hall twoInstances _ (.send "uart" (fun _ => 0) 1)
    (Reach.refl.tail trivial hstep)
  cases hsecond

end MachinekitHal.Uart
