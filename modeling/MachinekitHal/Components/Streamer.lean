import MachinekitHal.Components.SamplerFifo
import MachinekitHal.HalCommand.Tokenize
import MachinekitHal.Lib.Lines
import MachinekitHal.Lib.Numerals

/-!
The FIFO between the program `halstreamer`, which reads a file line by line, and the realtime
component `streamer`, which sets its pins to the values of a line.

* `field`, `parseFrom`: a field of a line and what is stored for it; the fields of a line.
* `Writer`, `StreamerSys.write`: the main loop of `halstreamer`, one access to the shared memory
  at a time.
* `Update`, `StreamerSys.advance`: the realtime function, likewise.
* `StreamerSys.step`: both in any order. Beside the state stands which lines have been
  dealt with, and what was kept, refused and taken.
* `keptOf`, `messagesOf`, `Streamed`: what is asked for.
* `Placed`, `WriterAt`, `UpdateAt`, `Inv`: the invariant: the `k`-th record is in the entry
  `k % depth`, and what both halves know of the entries they use.
* `streamer_right`: every run is right.
-/

namespace MachinekitHal.Streamer

open Lines Numerals Runs Turns
open Sampler (ShmemData Fifo assign member)

/-! ### Lines -/

/-- The messages for a line. -/
inductive FieldError where
  | bitValue
  | prematureEnd
  | badCharacter
  deriving DecidableEq

/-- Their texts. -/
def FieldError.text : FieldError → String
  | .bitValue => "bit value not 0 or 1"
  | .prematureEnd => "premature end of line"
  | .badCharacter => "bad character"

/-- The character at a pointer; behind the text is the end of the string. -/
def charAt (cp : List UInt8) : UInt8 := cp.headD 0

/-- `strtoul` with base `10`, and `cp2`; without a number this is the text. -/
def strtoul (cp : List UInt8) : ShmemData × List UInt8 :=
  match scanDecimal isspace cp with
  | none => (0, cp)
  | some ((neg, n), rest) =>
    (if 2 ^ 64 ≤ n then BitVec.allOnes 64 else BitVec.ofInt 64 (signed neg n), rest)

/-- `strtol` with base `10`, and `cp2`. -/
def strtol (cp : List UInt8) : ShmemData × List UInt8 :=
  match scanDecimal isspace cp with
  | none => (0, cp)
  | some ((neg, n), rest) =>
    (BitVec.ofInt 64 (max (-2 ^ 63) (min (2 ^ 63 - 1) (signed neg n))), rest)

/-- What is stored for a field, and `cp2`. -/
def convert (strtod : List UInt8 → ShmemData × List UInt8) (type : Sampler.HalType)
    (cp : List UInt8) : Except FieldError (ShmemData × List UInt8) :=
  match type with
  | .float => .ok (strtod cp)
  | .bit =>
    if charAt cp = 48 then .ok (0, cp.tail)
    else if charAt cp = 49 then .ok (1, cp.tail)
    else .error .bitValue
  | .u32 => .ok (strtoul cp)
  | .s32 => .ok (strtol cp)

/-- What stands behind a field: whitespace, or something is wrong. -/
def checkEnd (cp2 : List UInt8) : Option FieldError :=
  if charAt cp2 = 0 then some .prematureEnd
  else if !isspace (charAt cp2) then some .badCharacter
  else none

/-- The result for a field: an error before or after its value is stored, or the text behind it. -/
inductive FieldResult where
  | refused (error : FieldError)
  | stored (value : ShmemData) (next : Except FieldError (List UInt8))

/-- One field of a line. -/
def field (strtod : List UInt8 → ShmemData × List UInt8) (type : Sampler.HalType)
    (cp : List UInt8) : FieldResult :=
  match convert strtod type (cp.dropWhile isspace) with
  | .error e => .refused e
  | .ok (value, cp2) =>
    .stored value (match checkEnd cp2 with
      | some e => .error e
      | none => .ok cp2)

/-- The fields from the `n`-th one on, with their values as the pins will show them, or the number
of the first field with an error. -/
def parseFrom (strtod : List UInt8 → ShmemData × List UInt8) (type : ℕ → Sampler.HalType) :
    ℕ → ℕ → List UInt8 → Except (ℕ × FieldError) (List ShmemData)
  | 0, _, _ => .ok []
  | k + 1, n, cp =>
    match field strtod (type n) cp with
    | .refused e => .error (n, e)
    | .stored _ (.error e) => .error (n, e)
    | .stored value (.ok cp2) =>
      (parseFrom strtod type k (n + 1) cp2).map (member (type n) value :: ·)

/-! ### Both halves -/

/-- The store of a value to the `n`-th cell of the record at `tmpin`. -/
def storeField (fifo : Fifo) (tmpin n : ℕ) (value : ShmemData) : Fifo :=
  let x := tmpin * fifo.numPins + n
  { fifo with data := Function.update fifo.data x (assign (fifo.type n) (fifo.data x) value) }

/-- The first `n` cells of the entry `pos`, as the pins will show them. -/
def cells (fifo : Fifo) (pos n : ℕ) : List ShmemData :=
  (List.range n).map fun i => member (fifo.type i) (fifo.data (pos * fifo.numPins + i))

/-- `streamer_t`: the pins of the realtime half. -/
structure Pins where
  currDepth : ℕ
  empty : Bool
  underruns : BitVec 32

/-- The next access of the main loop, with its variables. -/
inductive Writer where
  /-- `fgets`, and `in` -/
  | fetch
  /-- `out` in the test for space -/
  | wait (tmpin : ℕ)
  /-- the `n`-th field, and its store -/
  | field (tmpin n : ℕ) (cp : List UInt8)
  | storeIn (tmpin : ℕ)
  | done

/-- The next access of the realtime function. -/
inductive Update where
  | idle
  | loadIn
  | loadOut (tmpin : ℕ)
  /-- the `n`-th cell of the record at `tmpout` -/
  | copy (tmpout n : ℕ)
  | storeOut (tmpout : ℕ)

/-- Both halves, with the line at hand. History: the lines dealt with before, the records that were
kept, the messages with the number of the line and of the field, the records that the pins were
set to, the calls and underruns, and how many records were kept when `in` was last read. -/
structure StreamerSys where
  fifo : Fifo
  input : Stream UInt8
  writer : Writer
  current : List UInt8
  line : ℕ
  pins : Pins
  outs : ℕ → ShmemData
  update : Update
  consumed : List (List UInt8)
  kept : List (List ShmemData)
  messages : List (ℕ × ℕ × FieldError)
  taken : List (List ShmemData)
  calls : ℕ
  dry : ℕ
  seen : ℕ

namespace StreamerSys

variable (s : StreamerSys)

/-- The line is skipped. -/
def skip (n : ℕ) (e : FieldError) : StreamerSys :=
  { s with
    writer := .fetch
    line := s.line + 1
    consumed := s.consumed ++ [s.current]
    messages := s.messages ++ [(s.line, n, e)] }

/-- The next access of the main loop. -/
def write (strtod : List UInt8 → ShmemData × List UInt8) : Option StreamerSys :=
  match s.writer with
  | .fetch =>
    match fgets 10 4000 s.input with
    | (some line, input) =>
      some { s with input := input, current := line, writer := .wait s.fifo.inPos }
    | (none, input) => some { s with input := input, writer := .done }
  | .wait tmpin =>
    some { s with writer :=
      if (next s.fifo.depth tmpin) = s.fifo.outPos then .wait tmpin else .field tmpin 0 s.current }
  | .field tmpin n cp =>
    match field strtod (s.fifo.type n) cp with
    | .refused e => some (s.skip n e)
    | .stored value (.error e) =>
      some ({ s with fifo := storeField s.fifo tmpin n value }.skip n e)
    | .stored value (.ok cp2) =>
      some { s with
        fifo := storeField s.fifo tmpin n value
        writer := if n + 1 < s.fifo.numPins then .field tmpin (n + 1) cp2
          else .storeIn tmpin }
  | .storeIn tmpin =>
    some { s with
      fifo := { s.fifo with inPos := next s.fifo.depth tmpin }
      writer := .fetch
      line := s.line + 1
      consumed := s.consumed ++ [s.current]
      kept := s.kept ++ [cells s.fifo tmpin s.fifo.numPins] }
  | .done => none

/-- A call of the realtime function. -/
def call (enable : Bool) : Option StreamerSys :=
  match s.update with
  | .idle => some (if enable then { s with update := .loadIn, calls := s.calls + 1 } else s)
  | _ => none

/-- The next access of the realtime function. -/
def advance : Option StreamerSys :=
  match s.update with
  | .idle => none
  | .loadIn => some { s with update := .loadOut s.fifo.inPos, seen := s.kept.length }
  | .loadOut tmpin =>
    let tmpout := s.fifo.outPos
    if tmpout = tmpin then
      -- fifo empty
      some { s with
        pins := { underruns := s.pins.underruns + 1, empty := true, currDepth := 0 }
        update := .idle
        dry := s.dry + 1 }
    else
      let tmpin := if tmpin < tmpout then tmpin + s.fifo.depth else tmpin
      some { s with
        pins := { s.pins with empty := false, currDepth := tmpin - tmpout }
        update := .copy tmpout 0 }
  | .copy tmpout n =>
    let cell := s.fifo.data (tmpout * s.fifo.numPins + n)
    some { s with
      outs := Function.update s.outs n (member (s.fifo.type n) cell)
      update := if n + 1 < s.fifo.numPins then .copy tmpout (n + 1) else .storeOut tmpout }
  | .storeOut tmpout =>
    some { s with
      fifo := { s.fifo with outPos := next s.fifo.depth tmpout }
      update := .idle
      taken := s.taken ++ [(List.range s.fifo.numPins).map s.outs] }

/-- An access of the main loop, a call of the realtime function, or an access of it. -/
inductive Op where
  | write
  | call (enable : Bool)
  | advance

/-- One step. -/
def step (strtod : List UInt8 → ShmemData × List UInt8) : Op → Option StreamerSys
  | .write => s.write strtod
  | .call enable => s.call enable
  | .advance => s.advance

/-- After both halves have started. -/
def init (depth numPins : ℕ) (type : ℕ → Sampler.HalType) (data : ℕ → ShmemData)
    (text : List UInt8) : StreamerSys where
  fifo := {
    inPos := 0, outPos := 0, depth := depth, numPins := numPins
    lastSample := 0, type := type, data := data }
  input := ⟨text, false⟩
  writer := .fetch
  current := []
  line := 1
  pins := { currDepth := 0, empty := true, underruns := 0 }
  outs := fun _ => 0
  update := .idle
  consumed := []
  kept := []
  messages := []
  taken := []
  calls := 0
  dry := 0
  seen := 0

end StreamerSys

/-! ### What is asked for -/

section Law

variable (strtod : List UInt8 → ShmemData × List UInt8)

/-- The line as a record, or its error. -/
def parseLine (fifo : Fifo) (line : List UInt8) : Except (ℕ × FieldError) (List ShmemData) :=
  parseFrom strtod fifo.type fifo.numPins 0 line

/-- The records of the good lines. -/
def keptOf (fifo : Fifo) (lines : List (List UInt8)) : List (List ShmemData) :=
  lines.filterMap fun line => (parseLine strtod fifo line).toOption

/-- The message for a line. -/
def messageOf (fifo : Fifo) (line : List UInt8) (number : ℕ) : Option (ℕ × ℕ × FieldError) :=
  match parseLine strtod fifo line with
  | .error (n, e) => some (number, n, e)
  | .ok _ => none

/-- The messages for the other lines. -/
def messagesOf (fifo : Fifo) (lines : List (List UInt8)) : List (ℕ × ℕ × FieldError) :=
  (lines.zipIdx 1).filterMap fun l => messageOf strtod fifo l.1 l.2

/-- The line at hand, if it has not been dealt with. -/
def StreamerSys.pending (s : StreamerSys) : List (List UInt8) :=
  match s.writer with
  | .fetch | .done => []
  | _ => [s.current]

/-- The realtime function is setting the pins. -/
def Update.copying : Update → Bool
  | .copy .. | .storeOut _ => true
  | _ => false

/-- A call is going on. -/
def Update.busy : Update → ℕ
  | .idle => 0
  | _ => 1

/-- The lines are those of the text; the good ones are kept and the others are refused; the records
kept are taken in their order, and fewer than the depth of the FIFO are waiting; and a call takes
one unless none was waiting when it read `in`; else it tells how many there were. -/
structure Streamed (text : List UInt8) (s : StreamerSys) : Prop where
  lines : Gives 10 4000 ⟨text, false⟩ (s.consumed ++ s.pending) s.input
  kept : s.kept = keptOf strtod s.fifo s.consumed
  messages : s.messages = messagesOf strtod s.fifo s.consumed
  taken : ∃ waiting, s.kept = s.taken ++ waiting ∧ waiting.length < s.fifo.depth
  outs : s.update.copying = false → (List.range s.fifo.numPins).map s.outs =
    s.taken.getLastD (List.replicate s.fifo.numPins 0)
  calls : s.calls = s.taken.length + s.dry + s.update.busy
  underruns : s.pins.underruns = BitVec.ofNat 32 s.dry
  depth : s.update.copying = true →
    s.pins.currDepth = s.seen - s.taken.length ∧ s.taken.length < s.seen
  empty : ∀ tmpin, s.update = .loadOut tmpin →
    (s.fifo.outPos = tmpin ↔ s.seen = s.taken.length)
  finished : s.writer = .done → s.input.rest = []

end Law

/-! ### The invariant -/

/-- The FIFO: it has the records that are kept and not taken. -/
structure Placed (fifo : Fifo) (kept taken : List (List ShmemData)) : Prop where
  pins : 0 < fifo.numPins
  depth : 0 < fifo.depth
  inPos : fifo.inPos = kept.length % fifo.depth
  outPos : fifo.outPos = taken.length % fifo.depth
  isPrefix : taken <+: kept
  lt : kept.length < taken.length + fifo.depth
  holds : ∀ (k : ℕ) (record : List ShmemData), taken.length ≤ k → kept[k]? = some record →
    cells fifo (k % fifo.depth) fifo.numPins = record

/-- What holds at each access of the main loop. -/
inductive WriterAt (strtod : List UInt8 → ShmemData × List UInt8) (fifo : Fifo)
    (kept taken : List (List ShmemData)) (current rest : List UInt8) : Writer → Prop where
  | fetch : WriterAt strtod fifo kept taken current rest .fetch
  | wait : WriterAt strtod fifo kept taken current rest (.wait fifo.inPos)
  | field {n : ℕ} {cp : List UInt8} (room : kept.length + 1 < taken.length + fifo.depth)
      (lt : n < fifo.numPins)
      (parsed : parseLine strtod fifo current =
        (parseFrom strtod fifo.type (fifo.numPins - n) n cp).map (cells fifo fifo.inPos n ++ ·)) :
      WriterAt strtod fifo kept taken current rest (.field fifo.inPos n cp)
  | storeIn (room : kept.length + 1 < taken.length + fifo.depth)
      (parsed : parseLine strtod fifo current = .ok (cells fifo fifo.inPos fifo.numPins)) :
      WriterAt strtod fifo kept taken current rest (.storeIn fifo.inPos)
  | done (hrest : rest = []) : WriterAt strtod fifo kept taken current rest .done

/-- What holds at each access of the realtime function. -/
inductive UpdateAt (fifo : Fifo) (kept taken : List (List ShmemData)) (seen : ℕ)
    (outs : ℕ → ShmemData) : Update → Prop where
  | idle : UpdateAt fifo kept taken seen outs .idle
  | loadIn : UpdateAt fifo kept taken seen outs .loadIn
  | loadOut (le : taken.length ≤ seen) (ge : seen ≤ kept.length) :
      UpdateAt fifo kept taken seen outs (.loadOut (seen % fifo.depth))
  | copy {n : ℕ} (waiting : taken.length < kept.length) (lt : n < fifo.numPins)
      (copied : (List.range n).map outs = cells fifo fifo.outPos n) :
      UpdateAt fifo kept taken seen outs (.copy fifo.outPos n)
  | storeOut (waiting : taken.length < kept.length)
      (copied : (List.range fifo.numPins).map outs = cells fifo fifo.outPos fifo.numPins) :
      UpdateAt fifo kept taken seen outs (.storeOut fifo.outPos)

/-- What was done with the lines. -/
structure Dealt (strtod : List UInt8 → ShmemData × List UInt8) (text : List UInt8)
    (s : StreamerSys) : Prop where
  line : s.line = s.consumed.length + 1
  lines : Gives 10 4000 ⟨text, false⟩ (s.consumed ++ s.pending) s.input
  kept : s.kept = keptOf strtod s.fifo s.consumed
  messages : s.messages = messagesOf strtod s.fifo s.consumed

/-- What was done with the calls. -/
structure Counted (s : StreamerSys) : Prop where
  outs : s.update.copying = false → (List.range s.fifo.numPins).map s.outs =
    s.taken.getLastD (List.replicate s.fifo.numPins 0)
  calls : s.calls = s.taken.length + s.dry + s.update.busy
  underruns : s.pins.underruns = BitVec.ofNat 32 s.dry
  depth : s.update.copying = true →
    s.pins.currDepth = s.seen - s.taken.length ∧ s.taken.length < s.seen

/-- The invariant. -/
structure Inv (strtod : List UInt8 → ShmemData × List UInt8) (text : List UInt8)
    (s : StreamerSys) : Prop where
  placed : Placed s.fifo s.kept s.taken
  writer : WriterAt strtod s.fifo s.kept s.taken s.current s.input.rest s.writer
  update : UpdateAt s.fifo s.kept s.taken s.seen s.outs s.update
  dealt : Dealt strtod text s
  counted : Counted s

/-! ### Cells -/

section Cells

variable {fifo : Fifo} {pos pos' n m : ℕ} {value : ShmemData}

/-- A value that is stored reads back. -/
lemma member_assign (type : Sampler.HalType) (old value : ShmemData) :
    member type (assign type old value) = member type value := by
  have hmask := Word.store_and_mask old value (Sampler.mask type)
  cases type with
  | bit =>
    show (if assign .bit old value &&& Sampler.mask .bit ≠ 0 then (1 : ShmemData) else 0) = _
    rw [assign, hmask]
    rfl
  | float | u32 | s32 => exact hmask

lemma cells_succ (fifo : Fifo) (pos n : ℕ) : cells fifo pos (n + 1) = cells fifo pos n ++
    [member (fifo.type n) (fifo.data (pos * fifo.numPins + n))] := by
  rw [cells, List.range_succ, List.map_append]
  rfl

lemma storeField_data (fifo : Fifo) (pos n : ℕ) (value : ShmemData) (x : ℕ) :
    (storeField fifo pos n value).data x = if x = pos * fifo.numPins + n then
      assign (fifo.type n) (fifo.data (pos * fifo.numPins + n)) value else fifo.data x :=
  Function.update_apply ..

/-- The next value of a record. -/
lemma cells_storeField (fifo : Fifo) (pos n : ℕ) (value : ShmemData) :
    cells (storeField fifo pos n value) pos (n + 1) =
      cells fifo pos n ++ [member (fifo.type n) value] := by
  have hpins : (storeField fifo pos n value).numPins = fifo.numPins := rfl
  have htype : (storeField fifo pos n value).type = fifo.type := rfl
  rw [cells_succ, storeField_data, hpins, htype, if_pos rfl, member_assign]
  congr 1
  refine List.map_congr_left fun i hi => ?_
  rw [List.mem_range] at hi
  rw [storeField_data, hpins, if_neg (by omega)]
  rfl

/-- The other entries keep their cells. -/
lemma cells_storeField_apart (hapart : pos * fifo.numPins + fifo.numPins ≤ pos' * fifo.numPins ∨
      pos' * fifo.numPins + fifo.numPins ≤ pos * fifo.numPins) (hn : n < fifo.numPins)
    (hm : m ≤ fifo.numPins) :
    cells (storeField fifo pos n value) pos' m = cells fifo pos' m := by
  refine List.map_congr_left fun i hi => ?_
  rw [List.mem_range] at hi
  rw [storeField_data, show (storeField fifo pos n value).numPins = fifo.numPins from rfl,
    if_neg (by omega)]
  rfl

end Cells

/-! ### The main loop -/

section Main

variable {strtod : List UInt8 → ShmemData × List UInt8} {text : List UInt8} {s t : StreamerSys}
  {fifo : Fifo} {kept taken : List (List ShmemData)} {n : ℕ} {value : ShmemData}

/-- A store to the entry that is filled leaves the records alone. -/
lemma Placed.storeField (h : Placed fifo kept taken)
    (room : kept.length + 1 < taken.length + fifo.depth) (hn : n < fifo.numPins)
    (value : ShmemData) : Placed (Streamer.storeField fifo fifo.inPos n value) kept taken ∧
      ∀ k, taken.length ≤ k → k < kept.length → ∀ m ≤ fifo.numPins,
        cells (Streamer.storeField fifo fifo.inPos n value) (k % fifo.depth) m
          = cells fifo (k % fifo.depth) m := by
  have happly : ∀ k, taken.length ≤ k → k < kept.length → ∀ m ≤ fifo.numPins,
      cells (Streamer.storeField fifo fifo.inPos n value) (k % fifo.depth) m
        = cells fifo (k % fifo.depth) m := by
    intro k hk hlt m hm
    refine cells_storeField_apart ?_ hn hm
    rw [h.inPos]
    exact (entries_apart (mod_ne_of_lt hlt (by omega))).symm
  refine ⟨{ h with holds := fun k record hk hrec => ?_ }, happly⟩
  obtain ⟨hlt, -⟩ := List.getElem?_eq_some_iff.1 hrec
  exact (happly k hk hlt _ le_rfl).trans (h.holds k record hk hrec)

/-- What the realtime function has copied is of an entry that is not filled. -/
lemma UpdateAt.storeField {seen : ℕ} {outs : ℕ → ShmemData} {u : Update}
    (h : UpdateAt fifo kept taken seen outs u) (hp : Placed fifo kept taken)
    (room : kept.length + 1 < taken.length + fifo.depth) (hn : n < fifo.numPins)
    (value : ShmemData) :
    UpdateAt (Streamer.storeField fifo fifo.inPos n value) kept taken seen outs u := by
  obtain ⟨-, happly⟩ := hp.storeField room hn value
  have hkeep : taken.length < kept.length → ∀ m ≤ fifo.numPins,
      cells (Streamer.storeField fifo fifo.inPos n value) fifo.outPos m
        = cells fifo fifo.outPos m := by
    rw [hp.outPos]
    exact happly _ le_rfl
  cases h with
  | idle => exact .idle
  | loadIn => exact .loadIn
  | loadOut le ge => exact .loadOut le ge
  | copy waiting lt copied =>
    exact .copy waiting lt (copied.trans (hkeep waiting _ lt.le).symm)
  | storeOut waiting copied =>
    exact .storeOut waiting (copied.trans (hkeep waiting _ le_rfl).symm)

/-- A record that is kept waits behind the others. -/
lemma Placed.storeIn (h : Placed fifo kept taken)
    (room : kept.length + 1 < taken.length + fifo.depth) :
    Placed { fifo with inPos := next fifo.depth fifo.inPos }
      (kept ++ [cells fifo fifo.inPos fifo.numPins]) taken := by
  refine ⟨h.pins, h.depth, ?_, h.outPos, h.isPrefix.trans (List.prefix_append _ _), ?_,
    fun k record hk hrec => ?_⟩
  · show next fifo.depth fifo.inPos = _
    rw [h.inPos, next_mod h.depth, List.length_append]
    rfl
  · rw [List.length_append]
    exact room
  · rcases Nat.lt_or_ge k kept.length with hlt | hge
    · rw [List.getElem?_append_left hlt] at hrec
      exact h.holds k record hk hrec
    · obtain ⟨hlt, -⟩ := List.getElem?_eq_some_iff.1 hrec
      rw [List.length_append, List.length_singleton] at hlt
      obtain rfl : k = kept.length := by omega
      rw [List.getElem?_concat_length] at hrec
      rw [← Option.some.inj hrec, h.inPos]
      rfl

/-- The realtime function goes on with the record it has. -/
lemma UpdateAt.storeIn {seen : ℕ} {outs : ℕ → ShmemData} {u : Update}
    (h : UpdateAt fifo kept taken seen outs u) (record : List ShmemData) :
    UpdateAt { fifo with inPos := next fifo.depth fifo.inPos } (kept ++ [record]) taken seen
      outs u := by
  have hle : kept.length ≤ (kept ++ [record]).length := by
    rw [List.length_append]
    exact Nat.le_add_right _ _
  cases h with
  | idle => exact .idle
  | loadIn => exact .loadIn
  | loadOut le ge => exact .loadOut le (ge.trans hle)
  | copy waiting lt copied => exact .copy (waiting.trans_le hle) lt copied
  | storeOut waiting copied => exact .storeOut (waiting.trans_le hle) copied

/-- The lines that were dealt with, and one more. -/
lemma keptOf_append (fifo : Fifo) (lines : List (List UInt8)) (line : List UInt8) :
    keptOf strtod fifo (lines ++ [line]) =
      keptOf strtod fifo lines ++ (parseLine strtod fifo line).toOption.toList := by
  rw [keptOf, List.filterMap_append]
  congr 1

lemma messagesOf_append (fifo : Fifo) (lines : List (List UInt8)) (line : List UInt8) :
    messagesOf strtod fifo (lines ++ [line]) = messagesOf strtod fifo lines ++
      (messageOf strtod fifo line (lines.length + 1)).toList := by
  rw [messagesOf, List.zipIdx_append, List.filterMap_append, Nat.add_comm 1]
  congr 1

/-- A line that is kept or refused is dealt with. -/
lemma Dealt.append (h : Dealt strtod text s) (hpending : s.pending = [s.current])
    (hconsumed : t.consumed = s.consumed ++ [s.current]) (hline : t.line = s.line + 1)
    (hinput : t.input = s.input) (hwriter : t.writer = .fetch)
    (hkept : t.kept = keptOf strtod t.fifo s.consumed ++
      (parseLine strtod t.fifo s.current).toOption.toList)
    (hmessages : t.messages = messagesOf strtod t.fifo s.consumed ++
      (messageOf strtod t.fifo s.current s.line).toList) : Dealt strtod text t where
  line := by
    rw [hline, h.line, hconsumed, List.length_append]
    rfl
  lines := by
    have hnone : t.pending = [] := by rw [StreamerSys.pending, hwriter]
    rw [hconsumed, hnone, hinput, List.append_nil, ← hpending]
    exact h.lines
  kept := by rw [hconsumed, keptOf_append, hkept]
  messages := by rw [hconsumed, messagesOf_append, hmessages, h.line]

lemma Inv.fetch (h : Inv strtod text s) (hs : s.writer = .fetch)
    (ht : s.write strtod = some t) : Inv strtod text t := by
  have hpending : s.pending = [] := by rw [StreamerSys.pending, hs]
  have hlines := h.dealt.lines
  rw [hpending, List.append_nil] at hlines
  rw [StreamerSys.write, hs] at ht
  rcases hget : fgets 10 4000 s.input with ⟨line | line, input⟩
  all_goals
    simp only [hget] at ht
    cases ht
  · obtain ⟨hrest, hrest'⟩ := fgets_none (by omega) hget
    refine ⟨h.placed, .done hrest', h.update, { h.dealt with lines := ?_ }, { h.counted with }⟩
    show Gives 10 4000 ⟨text, false⟩ (s.consumed ++ []) input
    rw [List.append_nil]
    exact hlines.finish hget
  · refine ⟨h.placed, .wait, h.update, { h.dealt with lines := ?_ }, { h.counted with }⟩
    exact hlines.line hget

/-- There is space for one more record. -/
lemma Placed.room (h : Placed fifo kept taken)
    (hnext : next fifo.depth fifo.inPos ≠ fifo.outPos) :
    kept.length + 1 < taken.length + fifo.depth := by
  refine lt_of_le_of_ne h.lt fun heq => hnext ?_
  rw [h.inPos, h.outPos, next_mod h.depth, heq, Nat.add_mod_right]

lemma Inv.wait {tmpin : ℕ} (h : Inv strtod text s) (hs : s.writer = .wait tmpin)
    (ht : s.write strtod = some t) : Inv strtod text t := by
  have hw := h.writer
  rw [hs] at hw
  cases hw
  have hlines := h.dealt.lines
  rw [StreamerSys.pending, hs] at hlines
  rw [StreamerSys.write, hs] at ht
  cases ht
  refine ⟨h.placed, ?_, h.update, { h.dealt with lines := ?_ }, { h.counted with }⟩
  · show WriterAt strtod s.fifo s.kept s.taken s.current s.input.rest (if _ then _ else _)
    split_ifs with hfull
    · exact .wait
    · refine .field (h.placed.room hfull) h.placed.pins ?_
      rw [parseLine, Nat.sub_zero]
      cases parseFrom strtod s.fifo.type s.fifo.numPins 0 s.current <;> rfl
  · rw [StreamerSys.pending]
    split_ifs <;> exact hlines

/-- The line is skipped, whether the value was stored or not. -/
lemma Inv.skip {e : FieldError} (h : Inv strtod text s) (hpending : s.pending = [s.current])
    (herr : parseLine strtod s.fifo s.current = .error (n, e)) : Inv strtod text (s.skip n e) := by
  refine ⟨h.placed, .fetch, h.update,
    h.dealt.append hpending rfl rfl rfl rfl ?_ ?_, { h.counted with }⟩
  · show s.kept = keptOf strtod s.fifo s.consumed ++
      (parseLine strtod s.fifo s.current).toOption.toList
    rw [herr, h.dealt.kept]
    exact (List.append_nil _).symm
  · show s.messages ++ [(s.line, n, e)] = messagesOf strtod s.fifo s.consumed ++
      (messageOf strtod s.fifo s.current s.line).toList
    rw [messageOf, herr, h.dealt.messages]
    rfl

/-- The next field, as `parseFrom` reads it. -/
lemma parse_field {cp : List UInt8} (hn : n < fifo.numPins) :
    parseFrom strtod fifo.type (fifo.numPins - n) n cp =
      match field strtod (fifo.type n) cp with
      | .refused e => .error (n, e)
      | .stored _ (.error e) => .error (n, e)
      | .stored value (.ok cp2) =>
        (parseFrom strtod fifo.type (fifo.numPins - (n + 1)) (n + 1) cp2).map
          (member (fifo.type n) value :: ·) := by
  obtain ⟨k, hk⟩ : ∃ k, fifo.numPins - n = k + 1 := ⟨fifo.numPins - n - 1, by omega⟩
  rw [hk, parseFrom, show fifo.numPins - (n + 1) = k by omega]

/-- A value is stored to the entry that is filled. -/
lemma Inv.store {cp : List UInt8} (h : Inv strtod text s)
    (hs : s.writer = .field s.fifo.inPos n cp) (hn : n < s.fifo.numPins)
    (room : s.kept.length + 1 < s.taken.length + s.fifo.depth) {w : Writer}
    (hpending : StreamerSys.pending { s with writer := w } = [s.current])
    (hw : WriterAt strtod (storeField s.fifo s.fifo.inPos n value) s.kept s.taken s.current
      s.input.rest w) :
    Inv strtod text
      { s with fifo := storeField s.fifo s.fifo.inPos n value, writer := w } := by
  have hbefore : s.pending = [s.current] := by rw [StreamerSys.pending, hs]
  obtain ⟨hplaced, -⟩ := h.placed.storeField room hn value
  have hlines := h.dealt.lines
  rw [hbefore, ← hpending] at hlines
  exact ⟨hplaced, hw, h.update.storeField h.placed room hn value,
    { h.dealt with lines := hlines }, { h.counted with }⟩

lemma Inv.field {tmpin : ℕ} {cp : List UInt8} (h : Inv strtod text s)
    (hs : s.writer = .field tmpin n cp) (ht : s.write strtod = some t) :
    Inv strtod text t := by
  have hw := h.writer
  rw [hs] at hw
  cases hw with
  | field room hn parsed =>
    rw [parse_field hn] at parsed
    rw [StreamerSys.write, hs] at ht
    rcases hfield : Streamer.field strtod (s.fifo.type n) cp with e | ⟨value, e | cp2⟩
    all_goals
      simp only [hfield] at ht parsed
      cases ht
    · exact h.skip (by rw [StreamerSys.pending, hs]) parsed
    -- the store is to an entry without a record
    · have hstored : Inv strtod text
          { s with fifo := storeField s.fifo s.fifo.inPos n value, writer := .wait s.fifo.inPos } :=
        h.store hs hn room rfl .wait
      exact hstored.skip rfl parsed
    · refine h.store hs hn room ?_ ?_
      · rw [StreamerSys.pending]
        split_ifs <;> rfl
      · have hcells := cells_storeField s.fifo s.fifo.inPos n value
        split_ifs with hlast
        · refine .field room hlast (parsed.trans ?_)
          show _ = (parseFrom strtod s.fifo.type (s.fifo.numPins - (n + 1)) (n + 1) cp2).map
            (cells (storeField s.fifo s.fifo.inPos n value) s.fifo.inPos (n + 1) ++ ·)
          rw [hcells]
          cases parseFrom strtod s.fifo.type (s.fifo.numPins - (n + 1)) (n + 1) cp2 with
          | error e => rfl
          | ok values => exact congrArg Except.ok (List.append_cons ..)
        · obtain hlast : n + 1 = s.fifo.numPins := by omega
          refine .storeIn room (parsed.trans ?_)
          show _ = Except.ok (cells (storeField s.fifo s.fifo.inPos n value) s.fifo.inPos
            s.fifo.numPins)
          rw [← hlast, hcells, Nat.sub_self, parseFrom]
          rfl

lemma Inv.storeIn {tmpin : ℕ} (h : Inv strtod text s) (hs : s.writer = .storeIn tmpin)
    (ht : s.write strtod = some t) : Inv strtod text t := by
  have hpending : s.pending = [s.current] := by rw [StreamerSys.pending, hs]
  have hw := h.writer
  rw [hs] at hw
  cases hw with
  | storeIn room parsed =>
    rw [StreamerSys.write, hs] at ht
    cases ht
    refine ⟨h.placed.storeIn room, .fetch, h.update.storeIn _,
      h.dealt.append hpending rfl rfl rfl rfl ?_ ?_, { h.counted with }⟩
    · show s.kept ++ [cells s.fifo s.fifo.inPos s.fifo.numPins] = keptOf strtod s.fifo s.consumed ++
        (parseLine strtod s.fifo s.current).toOption.toList
      rw [parsed, h.dealt.kept]
      rfl
    · show s.messages = messagesOf strtod s.fifo s.consumed ++
        (messageOf strtod s.fifo s.current s.line).toList
      rw [messageOf, parsed, h.dealt.messages]
      exact (List.append_nil _).symm

/-- An access of the main loop. -/
lemma Inv.write (h : Inv strtod text s) (ht : s.write strtod = some t) : Inv strtod text t := by
  cases hs : s.writer with
  | fetch => exact h.fetch hs ht
  | wait tmpin => exact h.wait hs ht
  | field tmpin n cp => exact h.field hs ht
  | storeIn tmpin => exact h.storeIn hs ht
  | done =>
    rw [StreamerSys.write, hs] at ht
    cases ht

end Main

/-! ### The realtime function -/

section Realtime

variable {strtod : List UInt8 → ShmemData × List UInt8} {text : List UInt8} {s t : StreamerSys}
  {fifo : Fifo} {kept taken : List (List ShmemData)} {a b d n tmpin tmpout : ℕ}

/-- The number of records between two positions. -/
lemma currDepth_mod (hab : a ≤ b) (hb : b < a + d) :
    (if b % d < a % d then b % d + d else b % d) - a % d = b - a := by
  have hheld := held_mod hab hb
  have ha := Nat.mod_lt a (by omega : 0 < d)
  have hb' := Nat.mod_lt b (by omega : 0 < d)
  rw [held] at hheld
  split_ifs with hlt
  · rwa [Nat.mod_eq_of_lt (by omega)] at hheld
  · rwa [show b % d + d - a % d = b % d - a % d + d by omega, Nat.add_mod_right,
      Nat.mod_eq_of_lt (by omega)] at hheld

/-- Nothing waits at the same position. -/
lemma Placed.empty_iff (h : Placed fifo kept taken) (le : taken.length ≤ a) (ge : a ≤ kept.length) :
    fifo.outPos = a % fifo.depth ↔ a = taken.length := by
  rw [h.outPos]
  constructor
  · intro heq
    by_contra hne
    have hlt := h.lt
    exact mod_ne_of_lt (lt_of_le_of_ne le (Ne.symm hne)) (by omega) heq
  · rintro rfl
    rfl

lemma Placed.storeOut {record : List ShmemData} (h : Placed fifo kept taken)
    (waiting : taken.length < kept.length)
    (hrecord : record = cells fifo fifo.outPos fifo.numPins) :
    Placed { fifo with outPos := next fifo.depth fifo.outPos } kept (taken ++ [record]) := by
  have hlength : (taken ++ [record]).length = taken.length + 1 := List.length_append
  have hfirst : record = kept[taken.length] := by
    rw [hrecord, h.outPos]
    exact h.holds _ _ le_rfl (List.getElem?_eq_getElem waiting)
  refine ⟨h.pins, h.depth, h.inPos, ?_, ?_, ?_, fun k record' hk hrec => ?_⟩
  · show next fifo.depth fifo.outPos = _
    rw [h.outPos, next_mod h.depth, hlength]
  · have hnext := List.take_append_getElem waiting
    rw [← List.prefix_iff_eq_take.1 h.isPrefix] at hnext
    rw [hfirst, hnext]
    exact List.take_prefix _ _
  · have hlt := h.lt
    rw [hlength]
    show kept.length < taken.length + 1 + fifo.depth
    omega
  · rw [hlength] at hk
    exact h.holds k record' (by omega) hrec

/-- The main loop has no less space. -/
lemma WriterAt.storeOut {current rest : List UInt8} {w : Writer} (record : List ShmemData)
    (h : WriterAt strtod fifo kept taken current rest w) :
    WriterAt strtod { fifo with outPos := next fifo.depth fifo.outPos } kept (taken ++ [record])
      current rest w := by
  have hle : taken.length ≤ (taken ++ [record]).length := by
    rw [List.length_append]
    exact Nat.le_add_right _ _
  cases h with
  | fetch => exact .fetch
  | wait => exact .wait
  | field room lt parsed => exact .field (room.trans_le (Nat.add_le_add_right hle _)) lt parsed
  | storeIn room parsed => exact .storeIn (room.trans_le (Nat.add_le_add_right hle _)) parsed
  | done hrest => exact .done hrest

lemma Inv.loadIn (h : Inv strtod text s) (hs : s.update = .loadIn) (ht : s.advance = some t) :
    Inv strtod text t := by
  have hcalls := h.counted.calls
  have houts := h.counted.outs
  rw [hs] at hcalls houts
  rw [StreamerSys.advance, hs] at ht
  cases ht
  refine ⟨h.placed, h.writer, ?_, { h.dealt with },
    ⟨houts, hcalls, h.counted.underruns, fun hcopy => by cases hcopy⟩⟩
  show UpdateAt s.fifo s.kept s.taken s.kept.length s.outs (.loadOut s.fifo.inPos)
  rw [h.placed.inPos]
  exact .loadOut h.placed.isPrefix.length_le le_rfl

/-- `out`, and what the pins tell about the FIFO. -/
lemma Inv.loadOut (h : Inv strtod text s) (hs : s.update = .loadOut tmpin)
    (ht : s.advance = some t) : Inv strtod text t := by
  have hu := h.update
  have hcalls := h.counted.calls
  have houts := h.counted.outs
  have hbound := h.placed.lt
  rw [hs] at hu hcalls houts
  cases hu with
  | loadOut le ge =>
    have hempty := h.placed.empty_iff le ge
    rw [StreamerSys.advance, hs] at ht
    by_cases heq : s.fifo.outPos = s.seen % s.fifo.depth
    · simp only [if_pos heq] at ht
      cases ht
      refine ⟨h.placed, h.writer, .idle, { h.dealt with },
        ⟨houts, ?_, ?_, fun hcopy => by cases hcopy⟩⟩
      · show s.calls = s.taken.length + (s.dry + 1) + 0
        rw [hcalls]
        rfl
      · show s.pins.underruns + 1 = BitVec.ofNat 32 (s.dry + 1)
        rw [h.counted.underruns, BitVec.ofNat_add]
        rfl
    · simp only [if_neg heq] at ht
      cases ht
      have hwaiting : s.taken.length < s.seen := by
        refine lt_of_le_of_ne le fun hdry => heq ?_
        exact hempty.2 hdry.symm
      refine ⟨h.placed, h.writer, .copy (hwaiting.trans_le ge) h.placed.pins rfl, { h.dealt with },
        ⟨fun hcopy => (by cases hcopy), hcalls, h.counted.underruns, fun _ => ⟨?_, hwaiting⟩⟩⟩
      show (if s.seen % s.fifo.depth < s.fifo.outPos then _ else _) - s.fifo.outPos = _
      rw [h.placed.outPos]
      exact currDepth_mod le (by omega)

lemma Inv.copy (h : Inv strtod text s) (hs : s.update = .copy tmpout n)
    (ht : s.advance = some t) : Inv strtod text t := by
  have hu := h.update
  have hcalls := h.counted.calls
  have hdepth := h.counted.depth
  rw [hs] at hu hcalls hdepth
  cases hu with
  | copy waiting lt copied =>
    rw [StreamerSys.advance, hs] at ht
    cases ht
    have hcopied : (List.range (n + 1)).map (Function.update s.outs n
        (member (s.fifo.type n) (s.fifo.data (s.fifo.outPos * s.fifo.numPins + n)))) =
        cells s.fifo s.fifo.outPos (n + 1) := by
      rw [cells_succ, List.range_succ, List.map_append, ← copied]
      congr 1
      · refine List.map_congr_left fun i hi => ?_
        exact Function.update_of_ne (List.mem_range.1 hi).ne _ _
      · rw [List.map_singleton, Function.update_self]
    refine ⟨h.placed, h.writer, ?_, { h.dealt with },
      ⟨?_, ?_, h.counted.underruns, fun _ => hdepth rfl⟩⟩
    · show UpdateAt _ _ _ _ _ (if _ then _ else _)
      split_ifs with hlast
      · exact .copy waiting hlast hcopied
      · obtain hlast : n + 1 = s.fifo.numPins := by omega
        rw [hlast] at hcopied
        exact .storeOut waiting hcopied
    · intro hcopy
      revert hcopy
      show (Update.copying (if _ then _ else _)) = false → _
      split_ifs <;> exact fun hcopy => by cases hcopy
    · rw [hcalls]
      show _ = s.taken.length + s.dry + Update.busy (if _ then _ else _)
      split_ifs <;> rfl

lemma Inv.storeOut (h : Inv strtod text s) (hs : s.update = .storeOut tmpout)
    (ht : s.advance = some t) : Inv strtod text t := by
  have hu := h.update
  have hcalls := h.counted.calls
  rw [hs] at hu hcalls
  cases hu with
  | storeOut waiting copied =>
    rw [StreamerSys.advance, hs] at ht
    cases ht
    refine ⟨h.placed.storeOut waiting copied, h.writer.storeOut _, .idle, { h.dealt with },
      ⟨fun _ => ?_, ?_, h.counted.underruns, fun hcopy => by cases hcopy⟩⟩
    · show _ = (s.taken ++ [_]).getLastD _
      rw [List.getLastD_concat]
    · show s.calls = (s.taken ++ [_]).length + s.dry + 0
      rw [hcalls, List.length_append]
      show s.taken.length + s.dry + 1 = s.taken.length + 1 + s.dry + 0
      omega

/-- An access of the realtime function. -/
lemma Inv.advance (h : Inv strtod text s) (ht : s.advance = some t) : Inv strtod text t := by
  cases hs : s.update with
  | idle =>
    rw [StreamerSys.advance, hs] at ht
    cases ht
  | loadIn => exact h.loadIn hs ht
  | loadOut tmpin => exact h.loadOut hs ht
  | copy tmpout n => exact h.copy hs ht
  | storeOut tmpout => exact h.storeOut hs ht

lemma Inv.call {enable : Bool} (h : Inv strtod text s) (ht : s.call enable = some t) :
    Inv strtod text t := by
  rw [StreamerSys.call] at ht
  cases hs : s.update with
  | idle =>
    have hcalls := h.counted.calls
    have houts := h.counted.outs
    rw [hs] at ht hcalls houts
    cases enable with
    | false =>
      cases ht
      exact h
    | true =>
      cases ht
      refine ⟨h.placed, h.writer, .loadIn, { h.dealt with },
        ⟨houts, ?_, h.counted.underruns, fun hcopy => by cases hcopy⟩⟩
      show s.calls + 1 = s.taken.length + s.dry + 1
      rw [hcalls]
      rfl
  | loadIn | loadOut tmpin | copy tmpout n | storeOut tmpout =>
    rw [hs] at ht
    cases ht

end Realtime

/-! ### Every run -/

section Every

variable {strtod : List UInt8 → ShmemData × List UInt8} {text : List UInt8} {s t : StreamerSys}
  {depth numPins : ℕ}

lemma inv_init (strtod : List UInt8 → ShmemData × List UInt8) (type : ℕ → Sampler.HalType)
    (data : ℕ → ShmemData) (text : List UInt8) (hdepth : 0 < depth) (hpins : 0 < numPins) :
    Inv strtod text (.init depth numPins type data text) where
  placed := ⟨hpins, hdepth, (Nat.zero_mod _).symm, (Nat.zero_mod _).symm, List.prefix_rfl,
    by simpa [StreamerSys.init] using hdepth, fun k record _ hrec => by cases hrec⟩
  writer := .fetch
  update := .idle
  dealt := ⟨rfl, .nil, rfl, rfl⟩
  counted := by
    refine ⟨fun _ => ?_, rfl, rfl, fun hcopy => by cases hcopy⟩
    show (List.range numPins).map (fun _ => (0 : ShmemData)) = List.replicate numPins 0
    rw [List.map_const', List.length_range]

lemma Inv.step {op : StreamerSys.Op} (h : Inv strtod text s) (ht : s.step strtod op = some t) :
    Inv strtod text t := by
  cases op with
  | write => exact h.write ht
  | call enable => exact h.call ht
  | advance => exact h.advance ht

lemma Inv.streamed (h : Inv strtod text s) : Streamed strtod text s where
  lines := h.dealt.lines
  kept := h.dealt.kept
  messages := h.dealt.messages
  taken := by
    obtain ⟨waiting, hwaiting⟩ := h.placed.isPrefix
    have hlt := h.placed.lt
    rw [← hwaiting, List.length_append] at hlt
    exact ⟨waiting, hwaiting.symm, by omega⟩
  outs := h.counted.outs
  calls := h.counted.calls
  underruns := h.counted.underruns
  depth := h.counted.depth
  empty := by
    intro tmpin hs
    have hu := h.update
    rw [hs] at hu
    cases hu with
    | loadOut le ge => exact h.placed.empty_iff le ge
  finished := by
    intro hs
    have hw := h.writer
    rw [hs] at hw
    cases hw with
    | done hrest => exact hrest

end Every

/-- Every run of both halves, with their accesses in any order, is right: the pins are set to the
records of the good lines, each to the whole of one and in the order of the file, none is lost and
none comes twice, and every other line has its message. -/
theorem streamer_right {depth numPins : ℕ} (strtod : List UInt8 → ShmemData × List UInt8)
    (type : ℕ → Sampler.HalType) (data : ℕ → ShmemData) (text : List UInt8) (hdepth : 0 < depth)
    (hpins : 0 < numPins) : ∀ s, Reach (fun s => StreamerSys.step s strtod) (fun _ _ => True)
      (.init depth numPins type data text) s → Streamed strtod text s := by
  intro s hs
  have hinv : Inv strtod text s :=
    hs.invariant (inv_init strtod type data text hdepth hpins) fun h _ ht => h.step ht
  exact hinv.streamed

/-- A number, a call of the realtime function, and a line with a letter. -/
theorem streamer_right_two : ∃ t,
      Reach (fun s => StreamerSys.step s fun cp => (0, cp)) (fun _ _ => True)
      (.init 2 1 (fun _ => .u32) (fun _ => 0) [55, 10, 120, 10]) t ∧
    t.taken = [[7]] ∧ t.messages = [(2, 0, .badCharacter)] ∧
    Streamed (fun cp => (0, cp)) [55, 10, 120, 10] t := by
  have hrun : ∃ t, run (fun s => StreamerSys.step s fun cp => (0, cp)) (fun _ _ => true)
      (.init 2 1 (fun _ => .u32) (fun _ => 0) [55, 10, 120, 10])
      [.write, .call true, .write, .write, .write, .advance, .advance, .write, .write, .advance,
        .advance, .write, .write] = some t ∧
      t.taken = [[7]] ∧ t.messages = [(2, 0, .badCharacter)] := ⟨_, rfl, rfl, rfl⟩
  obtain ⟨t, ht, htaken, hmessages⟩ := hrun
  have hreach := (reach_of_run _ _ ht).mono fun _ => trivial
  exact ⟨t, hreach, htaken, hmessages,
    streamer_right _ _ _ _ (by decide : 0 < 2) (by decide : 0 < 1) t hreach⟩

end MachinekitHal.Streamer
