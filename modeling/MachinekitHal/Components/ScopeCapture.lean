import MachinekitHal.Components.Scope

/-!
The record of the oscilloscope.

* `Shm.advance_eq`, `getElem?_copySamples`: both halves go through the places of the samples
  in the same circle of `rec_len`.
* `CaptureRight`: at the end of a capture the record is `rec_len` consecutive samples, the
  trigger at its place.
* `Held`, `Phase`, `Inv`: the invariant: the `j`-th sample is at place `j % rec_len` until it is
  overwritten.
* `capture_right`: every capture of every run is right exactly if `rec_len` is not `2`: with two
  samples the trigger itself fills the record, and the state after it takes one more.
-/

namespace MachinekitHal.Halscope

open Runs

/-! ### Places -/

/-- The realtime half goes through `rec_len` places. -/
lemma Shm.advance_eq {shm : Shm} {c : ℕ} (hlen : 0 < shm.sampleLen)
    (hc : c < shm.bufLen / shm.sampleLen) :
    shm.advance (c * shm.sampleLen)
      = (c + 1) % (shm.bufLen / shm.sampleLen) * shm.sampleLen := by
  have hroom : c + 2 ≤ shm.bufLen / shm.sampleLen ↔
      c * shm.sampleLen + shm.sampleLen + shm.sampleLen ≤ shm.bufLen := by
    rw [Nat.le_div_iff_mul_le hlen, Nat.add_mul]
    omega
  rw [Shm.advance]
  split_ifs with hfull
  · have hlast : c + 1 = shm.bufLen / shm.sampleLen := by omega
    rw [hlast, Nat.mod_self, Nat.zero_mul]
  · rw [Nat.mod_eq_of_lt (by omega), Nat.add_mul, Nat.one_mul]

/-- A place is inside the buffer. -/
lemma place_fits {bufLen sampleLen c : ℕ} (hc : c < bufLen / sampleLen) :
    c * sampleLen + sampleLen ≤ bufLen := by
  have hle : (c + 1) * sampleLen ≤ bufLen :=
    (Nat.mul_le_mul_right _ hc).trans (Nat.div_mul_le_self _ _)
  rwa [Nat.add_mul, Nat.one_mul] at hle

variable {buffer : ℕ → Cell} {sampleLen recLen : ℕ}

@[simp] lemma length_copySamples (srcEnd : ℕ) : ∀ (n src : ℕ),
    (copySamples buffer sampleLen srcEnd n src).length = n
  | 0, _ => rfl
  | n + 1, src => by rw [copySamples, List.length_cons, length_copySamples]

/-- The user half goes through the same places. -/
lemma getElem?_copySamples (hlen : 0 < sampleLen) : ∀ (n c i : ℕ), c < recLen → i < n →
    (copySamples buffer sampleLen (recLen * sampleLen) n (c * sampleLen))[i]?
      = some ((List.range sampleLen).map fun k => buffer ((c + i) % recLen * sampleLen + k))
  | 0, _, _, _, hi => absurd hi (Nat.not_lt_zero _)
  | n + 1, c, 0, hc, _ => by
      rw [copySamples, List.getElem?_cons_zero, Nat.add_zero, Nat.mod_eq_of_lt hc]
  | n + 1, c, i + 1, hc, hi => by
      have hnext : (if recLen * sampleLen ≤ c * sampleLen + sampleLen then 0
          else c * sampleLen + sampleLen) = (c + 1) % recLen * sampleLen := by
        have hend : recLen * sampleLen ≤ c * sampleLen + sampleLen ↔ recLen ≤ c + 1 := by
          rw [← Nat.succ_mul]
          exact Nat.mul_le_mul_right_iff hlen
        split_ifs with hle
        · have hlast : c + 1 = recLen := by
            have hge := hend.1 hle
            omega
          rw [hlast, Nat.mod_self, Nat.zero_mul]
        · rw [Nat.mod_eq_of_lt (by
            by_contra hge
            exact hle (hend.2 (by omega))), Nat.add_mul, Nat.one_mul]
      rw [copySamples, List.getElem?_cons_succ, hnext,
        getElem?_copySamples hlen n _ i (Nat.mod_lt _ (by omega)) (by omega), Nat.mod_add_mod,
        Nat.add_assoc, Nat.add_comm 1 i]

/-! ### Samples -/

/-- The values of the channels in the cells from `base` on. -/
def Stored (dataLen : ℕ → ℕ) (buffer : ℕ → Cell) (base : ℕ) (values : ℕ → Cell) : Prop :=
  ∀ (k n : ℕ), (channels dataLen)[k]? = some n →
    buffer (base + k) &&& mask (dataLen n) = values n &&& mask (dataLen n)

variable {dataLen : ℕ → ℕ} {values : ℕ → Cell}

/-- Only the cells of the captured channels are stored to. -/
lemma captureChannels_outside {x : ℕ} : ∀ (ns : List ℕ) (dest : ℕ) (buffer : ℕ → Cell),
    x < dest ∨ dest + (ns.filter fun n => captured (dataLen n)).length ≤ x →
    captureChannels dataLen values ns dest buffer x = buffer x
  | [], _, _, _ => rfl
  | n :: rest, dest, buffer, hx => by
      rw [captureChannels]
      cases hn : captured (dataLen n) with
      | false =>
        rw [List.filter_cons_of_neg (by simpa using hn)] at hx
        rw [if_neg (by simp)]
        exact captureChannels_outside rest dest buffer hx
      | true =>
        rw [List.filter_cons_of_pos (by simpa using hn), List.length_cons] at hx
        rw [if_pos rfl, captureChannels_outside rest (dest + 1) _ (by omega),
          Function.update_of_ne (by omega)]

lemma captureChannels_inside : ∀ (ns : List ℕ) (dest : ℕ) (buffer : ℕ → Cell) (k n : ℕ),
    (ns.filter fun n => captured (dataLen n))[k]? = some n →
    captureChannels dataLen values ns dest buffer (dest + k) &&& mask (dataLen n)
      = values n &&& mask (dataLen n)
  | [], _, _, k, n, hk => by simp at hk
  | m :: rest, dest, buffer, k, n, hk => by
      rw [captureChannels]
      cases hm : captured (dataLen m) with
      | false =>
        rw [List.filter_cons_of_neg (by simpa using hm)] at hk
        rw [if_neg (by simp)]
        exact captureChannels_inside rest dest buffer k n hk
      | true =>
        rw [List.filter_cons_of_pos (by simpa using hm)] at hk
        rw [if_pos rfl]
        cases k with
        | zero =>
          obtain rfl : m = n := by simpa using hk
          rw [captureChannels_outside rest (dest + 1) _ (by omega), Nat.add_zero dest,
            Function.update_self, Word.store_and_mask]
        | succ k =>
          have hrest := captureChannels_inside rest (dest + 1) (Function.update buffer dest
            (buffer dest &&& ~~~ mask (dataLen m) ||| values m &&& mask (dataLen m))) k n
            (by simpa using hk)
          rwa [Nat.add_assoc, Nat.add_comm 1 k] at hrest

/-! ### The record -/

/-- The sampling calls of the samples follow each other, up to the one before `last`. -/
def Consecutive (log : List Taken) (last : ℕ) : Prop :=
  ∀ (j : ℕ) (t : Taken), log[j]? = some t → t.instant + log.length = last + j

/-- The state at the end of a capture: the record is full, the user half copies its samples in
the order in which they were taken, the last `rec_len` ones, and the trigger is at its place. -/
structure CaptureRight (s : ScopeSys) : Prop where
  full : s.scope.shm.samples = s.scope.shm.recLen
  length : (captureCopyData s.scope).length = s.scope.shm.recLen
  copied : ∀ i < s.scope.shm.recLen, ∃ (cells : List Cell) (t : Taken),
    (captureCopyData s.scope)[i]? = some cells ∧
    s.log[s.log.length - s.scope.shm.recLen + i]? = some t ∧
    ∀ (k n : ℕ), (channels s.scope.shm.dataLen)[k]? = some n → ∃ cell : Cell,
      cells[k]? = some cell ∧
      cell &&& mask (s.scope.shm.dataLen n) = t.values n &&& mask (s.scope.shm.dataLen n)
  consecutive : ∃ last, Consecutive s.log last
  trigger : s.trigAt = some (s.log.length - s.scope.shm.recLen + max s.scope.shm.preTrig 1)

/-- The places are inside the buffer, and a capture that ended is right. -/
structure Right (s : ScopeSys) : Prop where
  curr : s.scope.shm.curr + s.scope.shm.sampleLen ≤ s.scope.shm.bufLen
  start : s.scope.shm.start + s.scope.shm.sampleLen ≤ s.scope.shm.bufLen
  done : s.scope.shm.state = .DONE → CaptureRight s

/-! ### The invariant -/

/-- The lengths of the buffer and of the record, and the places. -/
structure Placed (shm : Shm) : Prop where
  sampleLen : 0 < shm.sampleLen
  recLen : shm.recLen = shm.bufLen / shm.sampleLen
  three : 3 ≤ shm.recLen
  curr : ∃ c < shm.recLen, shm.curr = c * shm.sampleLen
  start : ∃ c < shm.recLen, shm.start = c * shm.sampleLen

/-- What the user half guarantees at the start of a capture. -/
structure Chosen (shm : Shm) : Prop where
  preTrig : shm.preTrig ≤ shm.recLen - 2
  room : (channels shm.dataLen).length ≤ shm.sampleLen

/-- The buffer during a capture: the last samples are at their places in the circle. -/
structure Held (shm : Shm) (buffer : ℕ → Cell) (log : List Taken) : Prop where
  chosen : Chosen shm
  samples : shm.samples ≤ log.length
  curr : shm.curr = log.length % shm.recLen * shm.sampleLen
  start : shm.start = (log.length - shm.samples) % shm.recLen * shm.sampleLen
  stored : ∀ (j : ℕ) (t : Taken), log[j]? = some t → log.length ≤ j + shm.recLen →
    Stored shm.dataLen buffer (j % shm.recLen * shm.sampleLen) t.values

/-- What holds in each state of the capture. -/
inductive Phase (shm : Shm) (instant : ℕ) (log : List Taken) (trigAt : Option ℕ) : Prop where
  | preTrig (state : shm.state = .PRE_TRIG) (all : shm.samples = log.length)
      (few : log.length < max shm.preTrig 1) (consecutive : Consecutive log instant)
  | trigWait (state : shm.state = .TRIG_WAIT) (samples : shm.samples = max shm.preTrig 1)
      (consecutive : Consecutive log instant)
  | postTrig (state : shm.state = .POST_TRIG) (more : max shm.preTrig 1 < shm.samples)
      (few : shm.samples < shm.recLen) (consecutive : Consecutive log instant)
      (trigger : trigAt = some (log.length - shm.samples + max shm.preTrig 1))
  | done (state : shm.state = .DONE) (full : shm.samples = shm.recLen)
      (consecutive : ∃ last, Consecutive log last)
      (trigger : trigAt = some (log.length - shm.samples + max shm.preTrig 1))

/-- The states of a capture. -/
def capturing : ScopeState → Bool
  | .PRE_TRIG | .TRIG_WAIT | .POST_TRIG | .DONE => true
  | _ => false

/-- The invariant. -/
structure Inv (s : ScopeSys) : Prop where
  placed : Placed s.scope.shm
  chosen : s.scope.shm.state = .INIT → Chosen s.scope.shm
  dataLen : capturing s.scope.shm.state → s.scope.rt.dataLen = s.scope.shm.dataLen
  held : capturing s.scope.shm.state → Held s.scope.shm s.scope.rt.buffer s.log
  phase : capturing s.scope.shm.state → Phase s.scope.shm s.instant s.log s.trigAt

/-- The state of a phase is one of a capture. -/
lemma Phase.capturing {shm : Shm} {instant : ℕ} {log : List Taken} {trigAt : Option ℕ}
    (h : Phase shm instant log trigAt) : capturing shm.state = true := by
  cases h with
  | preTrig state => rw [state]; rfl
  | trigWait state => rw [state]; rfl
  | postTrig state => rw [state]; rfl
  | done state => rw [state]; rfl

/-- The invariant in a state of a capture. -/
lemma Inv.of_phase {s : ScopeSys} (placed : Placed s.scope.shm)
    (dataLen : s.scope.rt.dataLen = s.scope.shm.dataLen)
    (held : Held s.scope.shm s.scope.rt.buffer s.log)
    (phase : Phase s.scope.shm s.instant s.log s.trigAt) : Inv s where
  placed := placed
  chosen hstate := by
    have hcap := phase.capturing
    rw [hstate] at hcap
    cases hcap
  dataLen _ := dataLen
  held _ := held
  phase _ := phase

/-- The invariant outside of captures. -/
lemma Inv.of_idle {s : ScopeSys} (placed : Placed s.scope.shm)
    (hinit : s.scope.shm.state ≠ .INIT) (hcap : Halscope.capturing s.scope.shm.state = false) :
    Inv s where
  placed := placed
  chosen hstate := absurd hstate hinit
  dataLen h := by rw [hcap] at h; cases h
  held h := by rw [hcap] at h; cases h
  phase h := by rw [hcap] at h; cases h

/-! ### Samples keep it -/

/-- The state and the trigger do not matter to the places. -/
lemma Placed.congr {shm shm' : Shm} (h : Placed shm) (hbuf : shm'.bufLen = shm.bufLen)
    (hrec : shm'.recLen = shm.recLen) (hlen : shm'.sampleLen = shm.sampleLen)
    (hcurr : ∃ c < shm'.recLen, shm'.curr = c * shm'.sampleLen)
    (hstart : ∃ c < shm'.recLen, shm'.start = c * shm'.sampleLen) : Placed shm' where
  sampleLen := hlen ▸ h.sampleLen
  recLen := by rw [hrec, hbuf, hlen, h.recLen]
  three := hrec ▸ h.three
  curr := hcurr
  start := hstart

/-- The next place is one of the places. -/
lemma Placed.advance {shm : Shm} (h : Placed shm) {pos c : ℕ} (hc : c < shm.recLen)
    (hpos : pos = c * shm.sampleLen) :
    shm.advance pos = (c + 1) % shm.recLen * shm.sampleLen := by
  rw [hpos, Shm.advance_eq h.sampleLen (h.recLen ▸ hc), h.recLen]

/-- The place after one of the places. -/
lemma Placed.exists_advance {shm : Shm} (h : Placed shm) {pos : ℕ}
    (hpos : ∃ c < shm.recLen, pos = c * shm.sampleLen) :
    ∃ c < shm.recLen, shm.advance pos = c * shm.sampleLen := by
  obtain ⟨c, hc, hpos⟩ := hpos
  exact ⟨(c + 1) % shm.recLen, Nat.mod_lt _ (Nat.zero_lt_of_lt hc), h.advance hc hpos⟩

lemma Placed.first {shm : Shm} (h : Placed shm) : ∃ c < shm.recLen, 0 = c * shm.sampleLen :=
  ⟨0, Nat.lt_of_lt_of_le (by omega) h.three, (Nat.zero_mul _).symm⟩

lemma Placed.acquire {s : Scope} (h : Placed s.shm) (values : ℕ → Cell) :
    Placed (acquire s values).shm :=
  h.congr rfl rfl rfl (h.exists_advance h.curr) h.start

lemma Placed.discard {s : Scope} (h : Placed s.shm) : Placed (discard s).shm :=
  h.congr rfl rfl rfl h.curr (h.exists_advance h.start)

lemma Placed.become {s : Scope} (h : Placed s.shm) (state : ScopeState) :
    Placed (s.become state).shm :=
  h.congr rfl rfl rfl h.curr h.start

/-- A sample: the oldest one that is still held is overwritten. -/
lemma Held.acquire {s : Scope} {log : List Taken} (hp : Placed s.shm)
    (hdata : s.rt.dataLen = s.shm.dataLen) (h : Held s.shm s.rt.buffer log) (t : Taken) :
    Held (acquire s t.values).shm (acquire s t.values).rt.buffer (log ++ [t]) where
  chosen := ⟨h.chosen.preTrig, h.chosen.room⟩
  samples := by
    rw [List.length_append]
    exact Nat.add_le_add_right h.samples 1
  curr := by
    have hlt : log.length % s.shm.recLen < s.shm.recLen :=
      Nat.mod_lt _ (Nat.zero_lt_of_lt hp.three)
    rw [List.length_append, List.length_singleton]
    exact (hp.advance hlt h.curr).trans (by rw [Nat.mod_add_mod]; rfl)
  start := by
    rw [List.length_append, List.length_singleton]
    exact h.start.trans (by rw [← Nat.add_sub_add_right]; rfl)
  stored := by
    have hlen : (channels s.shm.dataLen).length ≤ s.shm.sampleLen := h.chosen.room
    intro j u hu hj k n hk
    change (channels s.shm.dataLen)[k]? = some n at hk
    change (log ++ [t]).length ≤ j + s.shm.recLen at hj
    change captureChannels s.rt.dataLen t.values (List.range 16) s.shm.curr s.rt.buffer
      (j % s.shm.recLen * s.shm.sampleLen + k) &&& mask (s.shm.dataLen n) = _
    rw [List.length_append, List.length_singleton] at hj
    obtain ⟨hklt, -⟩ := List.getElem?_eq_some_iff.1 hk
    rw [hdata, h.curr]
    rcases Nat.lt_or_ge j log.length with hlt | hge
    · -- the sample is at another place
      rw [List.getElem?_append_left hlt] at hu
      have hne : j % s.shm.recLen ≠ log.length % s.shm.recLen := Turns.mod_ne_of_lt hlt (by omega)
      have hapart : j % s.shm.recLen * s.shm.sampleLen + s.shm.sampleLen
            ≤ log.length % s.shm.recLen * s.shm.sampleLen ∨
          log.length % s.shm.recLen * s.shm.sampleLen + s.shm.sampleLen
            ≤ j % s.shm.recLen * s.shm.sampleLen := Turns.entries_apart hne
      rw [channels] at hlen hklt
      rw [captureChannels_outside _ _ _ (by omega)]
      exact h.stored j u hu (by omega) k n hk
    · obtain rfl : j = log.length := by
        obtain ⟨hlt, -⟩ := List.getElem?_eq_some_iff.1 hu
        rw [List.length_append, List.length_singleton] at hlt
        omega
      obtain rfl : t = u := by simpa using hu
      exact captureChannels_inside _ _ _ k n hk

/-- The oldest sample is discarded. -/
lemma Held.discard {s : Scope} {log : List Taken} (hp : Placed s.shm)
    (h : Held s.shm s.rt.buffer log) (hpos : 0 < s.shm.samples) :
    Held (discard s).shm (discard s).rt.buffer log where
  chosen := ⟨h.chosen.preTrig, h.chosen.room⟩
  samples := (Nat.sub_le _ _).trans h.samples
  curr := h.curr
  start := by
    have hlt : (log.length - s.shm.samples) % s.shm.recLen < s.shm.recLen :=
      Nat.mod_lt _ (Nat.zero_lt_of_lt hp.three)
    have hnext : log.length - s.shm.samples + 1 = log.length - (s.shm.samples - 1) := by
      have hle := h.samples
      omega
    refine (hp.advance hlt h.start).trans ?_
    rw [Nat.mod_add_mod, hnext]
    rfl
  stored := h.stored

/-- The state does not matter. -/
lemma Held.become {s : Scope} {log : List Taken} (h : Held s.shm s.rt.buffer log)
    (state : ScopeState) : Held (s.become state).shm (s.become state).rt.buffer log where
  chosen := ⟨h.chosen.preTrig, h.chosen.room⟩
  samples := h.samples
  curr := h.curr
  start := h.start
  stored := h.stored

lemma Consecutive.append {log : List Taken} {instant : ℕ} (h : Consecutive log instant)
    (values : ℕ → Cell) : Consecutive (log ++ [⟨instant, values⟩]) (instant + 1) := by
  intro j t ht
  rw [List.length_append, List.length_singleton]
  rcases Nat.lt_or_ge j log.length with hlt | hge
  · rw [List.getElem?_append_left hlt] at ht
    have hin := h j t ht
    omega
  · obtain rfl : j = log.length := by
      obtain ⟨hlt, -⟩ := List.getElem?_eq_some_iff.1 ht
      rw [List.length_append, List.length_singleton] at hlt
      omega
    obtain rfl : (⟨instant, values⟩ : Taken) = t := by simpa using ht
    show instant + (log.length + 1) = instant + 1 + log.length
    omega

/-! ### Calls of `sample` keep it -/

variable {s : ScopeSys}

/-- The trigger only keeps its own variables. -/
lemma checkTrigger_frame (s : Scope) (values : ℕ → Cell) :
    (checkTrigger s values).2.shm = s.shm ∧
    (checkTrigger s values).2.rt.buffer = s.rt.buffer ∧
    (checkTrigger s values).2.rt.dataLen = s.rt.dataLen := by
  have hedge : ∀ s : Scope, (checkEdge s values).2.shm = s.shm ∧
      (checkEdge s values).2.rt.buffer = s.rt.buffer ∧
      (checkEdge s values).2.rt.dataLen = s.rt.dataLen := by
    intro s
    rw [checkEdge]
    by_cases hchan : s.shm.trigChan = 0
    · rw [if_pos hchan]
      exact ⟨rfl, rfl, rfl⟩
    · rw [if_neg hchan]
      exact ⟨rfl, rfl, rfl⟩
  rw [checkTrigger]
  by_cases hforce : s.shm.forceTrig
  · rw [if_pos hforce]
    exact ⟨rfl, rfl, rfl⟩
  · rw [if_neg hforce]
    by_cases hauto : s.shm.autoTrig
    · rw [if_pos hauto]
      by_cases hlate : s.shm.recLen ≤ s.rt.autoTimer + 1
      · rw [if_pos hlate]
        exact ⟨rfl, rfl, rfl⟩
      · rw [if_neg hlate]
        exact hedge _
    · rw [if_neg hauto]
      exact hedge _

/-- The invariant after the trigger has been checked. -/
lemma Inv.of_checkTrigger {s : Scope} {values : ℕ → Cell} {instant : ℕ} {log : List Taken}
    {trigAt : Option ℕ} {after : Scope} (hafter : after = (checkTrigger s values).2)
    (h : Inv ⟨s, instant, log, trigAt⟩) : Inv ⟨after, instant, log, trigAt⟩ := by
  obtain ⟨hshm, hbuffer, hdata⟩ := checkTrigger_frame s values
  rw [← hafter] at hshm hbuffer hdata
  refine ⟨hshm ▸ h.placed, fun hstate => ?_, fun hcap => ?_, fun hcap => ?_, fun hcap => ?_⟩
  · rw [hshm] at hstate ⊢
    exact h.chosen hstate
  · rw [hshm] at hcap ⊢
    exact hdata.trans (h.dataLen hcap)
  · rw [hshm] at hcap ⊢
    rw [hbuffer]
    exact h.held hcap
  · rw [hshm] at hcap ⊢
    exact h.phase hcap

lemma Inv.init (h : Inv s) (hstate : s.scope.shm.state = .INIT) :
    Inv ⟨sampleInit s.scope, s.instant + 1, [], none⟩ := by
  have hchosen := h.chosen hstate
  have hcleared : Placed (sampleInit s.scope).shm :=
    h.placed.congr rfl rfl rfl h.placed.first h.placed.first
  refine .of_phase hcleared rfl ?_ ?_
  · exact {
      chosen := ⟨hchosen.preTrig, hchosen.room⟩
      samples := Nat.le_refl 0
      curr := by
        show 0 = 0 % _ * _
        rw [Nat.zero_mod, Nat.zero_mul]
      start := by
        show 0 = (0 - 0) % _ * _
        rw [Nat.sub_zero, Nat.zero_mod, Nat.zero_mul]
      stored := fun j t ht => by simp at ht }
  · exact .preTrig rfl rfl (lt_max_of_lt_right Nat.one_pos) fun j t ht => by simp at ht

variable {values : ℕ → Cell}

/-- The samples of a capture after one more. -/
lemma length_log_append :
    (s.log ++ [(⟨s.instant, values⟩ : Taken)]).length = s.log.length + 1 := by
  rw [List.length_append, List.length_singleton]

lemma Inv.preTrig (h : Inv s) (hstate : s.scope.shm.state = .PRE_TRIG) :
    Inv ⟨sampleState s.scope values, s.instant + 1, s.log ++ [⟨s.instant, values⟩], s.trigAt⟩ := by
  have hcap : capturing s.scope.shm.state := by rw [hstate]; rfl
  have hdata := h.dataLen hcap
  have hheld := (h.held hcap).acquire h.placed hdata ⟨s.instant, values⟩
  have hplaced := h.placed.acquire values
  have hphase := h.phase hcap
  rw [sampleState, hstate]
  cases hphase with
  | trigWait hother | postTrig hother | done hother => rw [hstate] at hother; cases hother
  | preTrig _ hall hfew hcons =>
    by_cases hmany : s.scope.shm.preTrig ≤ s.scope.shm.samples + 1
    · have hafter : Inv ⟨(acquire s.scope values).become .TRIG_WAIT, s.instant + 1,
          s.log ++ [⟨s.instant, values⟩], s.trigAt⟩ := by
        refine .of_phase (hplaced.become _) hdata (hheld.become _)
          (.trigWait rfl ?_ (hcons.append values))
        show s.scope.shm.samples + 1 = max s.scope.shm.preTrig 1
        omega
      exact hafter.of_checkTrigger (if_pos hmany)
    · have hafter : Inv ⟨acquire s.scope values, s.instant + 1,
          s.log ++ [⟨s.instant, values⟩], s.trigAt⟩ := by
        refine .of_phase hplaced hdata hheld (.preTrig hstate ?_ ?_ (hcons.append values))
        · show s.scope.shm.samples + 1 = _
          rw [hall, length_log_append]
        · rw [length_log_append]
          show s.log.length + 1 < max s.scope.shm.preTrig 1
          omega
      exact (if_neg hmany).symm ▸ hafter

/-- `sample` in the state `TRIG_WAIT`. -/
lemma sampleState_trigWait {s : Scope} (hstate : s.shm.state = .TRIG_WAIT) :
    sampleState s values
      = if (checkTrigger (acquire s values) values).1 then
          (checkTrigger (acquire s values) values).2.become .POST_TRIG
        else discard (checkTrigger (acquire s values) values).2 := by
  rw [sampleState, hstate]

lemma Inv.trigWait (h : Inv s) (hstate : s.scope.shm.state = .TRIG_WAIT) :
    Inv ⟨sampleState s.scope values, s.instant + 1, s.log ++ [⟨s.instant, values⟩],
      if (sampleState s.scope values).shm.state = .POST_TRIG then some s.log.length
      else s.trigAt⟩ := by
  have hcap : capturing s.scope.shm.state := by rw [hstate]; rfl
  have hpre := (h.held hcap).chosen.preTrig
  have hthree := h.placed.three
  have hle := (h.held hcap).samples
  have hheld := (h.held hcap).acquire h.placed (h.dataLen hcap) ⟨s.instant, values⟩
  have hplaced := h.placed.acquire values
  obtain ⟨hshm, hbuffer, hdata⟩ := checkTrigger_frame (acquire s.scope values) values
  have hphase := h.phase hcap
  rw [sampleState_trigWait hstate]
  generalize hafter : (checkTrigger (acquire s.scope values) values).2 = after
    at hshm hbuffer hdata
  have hdata' : after.rt.dataLen = after.shm.dataLen := by
    rw [hdata, hshm]
    exact h.dataLen hcap
  change Held (acquire s.scope values).shm (acquire s.scope values).rt.buffer _ at hheld
  rw [← hshm, ← hbuffer] at hheld
  rw [← hshm] at hplaced
  have hsamples : after.shm.samples = s.scope.shm.samples + 1 := by rw [hshm]; rfl
  have hpreTrig : after.shm.preTrig = s.scope.shm.preTrig := by rw [hshm]; rfl
  have hrecLen : after.shm.recLen = s.scope.shm.recLen := by rw [hshm]; rfl
  have hstays : after.shm.state = .TRIG_WAIT := by rw [hshm]; exact hstate
  cases hphase with
  | preTrig hother | postTrig hother | done hother => rw [hstate] at hother; cases hother
  | trigWait _ hmax hcons =>
    by_cases hmet : (checkTrigger (acquire s.scope values) values).1
    · have hposts : (after.become .POST_TRIG).shm.state = .POST_TRIG := rfl
      rw [if_pos hmet, if_pos hposts]
      refine .of_phase (hplaced.become _) hdata' (hheld.become _)
        (.postTrig rfl ?_ ?_ (hcons.append values) ?_)
      · show max after.shm.preTrig 1 < after.shm.samples
        omega
      · show after.shm.samples < after.shm.recLen
        omega
      · rw [length_log_append]
        show some s.log.length
          = some (s.log.length + 1 - after.shm.samples + max after.shm.preTrig 1)
        congr 1
        omega
    · have hwaits : (discard after).shm.state ≠ .POST_TRIG := by
        show after.shm.state ≠ .POST_TRIG
        rw [hstays]
        decide
      rw [if_neg hmet, if_neg hwaits]
      refine .of_phase hplaced.discard hdata' (hheld.discard hplaced (by omega))
        (.trigWait hstays ?_ (hcons.append values))
      show after.shm.samples - 1 = max after.shm.preTrig 1
      omega

lemma Inv.postTrig (h : Inv s) (hstate : s.scope.shm.state = .POST_TRIG) :
    Inv ⟨sampleState s.scope values, s.instant + 1, s.log ++ [⟨s.instant, values⟩], s.trigAt⟩ := by
  have hcap : capturing s.scope.shm.state := by rw [hstate]; rfl
  have hdata := h.dataLen hcap
  have hheld := (h.held hcap).acquire h.placed hdata ⟨s.instant, values⟩
  have hplaced := h.placed.acquire values
  have hphase := h.phase hcap
  rw [sampleState, hstate]
  cases hphase with
  | preTrig hother | trigWait hother | done hother => rw [hstate] at hother; cases hother
  | postTrig _ hmore hfew hcons htrig =>
    have htrig' : s.trigAt = some ((s.log ++ [(⟨s.instant, values⟩ : Taken)]).length
        - (s.scope.shm.samples + 1) + max s.scope.shm.preTrig 1) := by
      rw [htrig, length_log_append, Nat.add_sub_add_right]
    by_cases hfull : s.scope.shm.recLen ≤ s.scope.shm.samples + 1
    · have hafter : Inv ⟨(acquire s.scope values).become .DONE, s.instant + 1,
          s.log ++ [⟨s.instant, values⟩], s.trigAt⟩ := by
        refine .of_phase (hplaced.become _) hdata (hheld.become _)
          (.done rfl ?_ ⟨_, hcons.append values⟩ htrig')
        show s.scope.shm.samples + 1 = s.scope.shm.recLen
        omega
      exact (if_pos hfull).symm ▸ hafter
    · have hafter : Inv ⟨acquire s.scope values, s.instant + 1,
          s.log ++ [⟨s.instant, values⟩], s.trigAt⟩ := by
        refine .of_phase hplaced hdata hheld
          (.postTrig hstate ?_ ?_ (hcons.append values) htrig')
        · exact hmore.trans (Nat.lt_succ_self _)
        · show s.scope.shm.samples + 1 < s.scope.shm.recLen
          omega
      exact (if_neg hfull).symm ▸ hafter

lemma Inv.begin (h : Inv s) : Inv { s with scope := beginSample s.scope } := by
  rw [beginSample]
  by_cases hreset : s.scope.shm.state = .RESET
  · rw [if_pos hreset]
    exact .of_idle (h.placed.congr rfl rfl rfl h.placed.first h.placed.first) nofun rfl
  · rw [if_neg hreset]
    exact ⟨h.placed, h.chosen, h.dataLen, h.held, h.phase⟩

lemma Inv.done (h : Inv s) (hstate : s.scope.shm.state = .DONE) (instant : ℕ) :
    Inv { s with instant := instant } := by
  have hcap : capturing s.scope.shm.state := by rw [hstate]; rfl
  cases h.phase hcap with
  | preTrig hother | trigWait hother | postTrig hother => rw [hstate] at hother; cases hother
  | done _ hfull hcons htrig =>
    exact .of_phase h.placed (h.dataLen hcap) (h.held hcap) (.done hstate hfull hcons htrig)

lemma Inv.record (h : Inv s) (values : ℕ → Cell) : Inv (s.record values) := by
  have hbegin := h.begin
  rw [ScopeSys.record, sample]
  generalize beginSample s.scope = before at hbegin
  by_cases hearly : before.rt.multCntr < before.shm.mult
  · rw [if_pos hearly, if_pos hearly]
    exact hbegin
  · rw [if_neg hearly, if_neg hearly]
    have hzero : Inv ⟨{ before with rt := { before.rt with multCntr := 0 } }, s.instant,
        s.log, s.trigAt⟩ :=
      ⟨hbegin.placed, hbegin.chosen, hbegin.dataLen, hbegin.held, hbegin.phase⟩
    cases hstate : before.shm.state with
    | IDLE =>
      rw [sampleState, hstate]
      exact .of_idle hzero.placed (fun hinit => by rw [hstate] at hinit; cases hinit)
        (by rw [hstate]; rfl)
    | INIT =>
      rw [sampleState, hstate]
      exact hzero.init hstate
    | PRE_TRIG => exact hzero.preTrig hstate
    | TRIG_WAIT => exact hzero.trigWait hstate
    | POST_TRIG => exact hzero.postTrig hstate
    | DONE =>
      rw [sampleState, hstate]
      exact hzero.done hstate _
    | RESET =>
      rw [sampleState, hstate]
      have hidle : ScopeState.IDLE ≠ .INIT := by decide
      exact .of_idle (hzero.placed.become .IDLE) hidle rfl

/-- The multiplier and the settings of the trigger do not matter. -/
lemma Inv.set (h : Inv s) (mult trigChan : ℕ) (trigLevel : Cell)
    (trigEdge forceTrig autoTrig : Bool) :
    Inv { s with scope.shm := { s.scope.shm with
      mult := mult, trigChan := trigChan, trigLevel := trigLevel, trigEdge := trigEdge
      forceTrig := forceTrig, autoTrig := autoTrig } } where
  placed := h.placed.congr rfl rfl rfl h.placed.curr h.placed.start
  chosen hstate := ⟨(h.chosen hstate).preTrig, (h.chosen hstate).room⟩
  dataLen := h.dataLen
  held hcap := {
    chosen := ⟨(h.held hcap).chosen.preTrig, (h.held hcap).chosen.room⟩
    samples := (h.held hcap).samples
    curr := (h.held hcap).curr
    start := (h.held hcap).start
    stored := (h.held hcap).stored }
  phase hcap := by
    cases h.phase hcap with
    | preTrig hstate hall hfew hcons => exact .preTrig hstate hall hfew hcons
    | trigWait hstate hsamples hcons => exact .trigWait hstate hsamples hcons
    | postTrig hstate hmore hfew hcons htrig => exact .postTrig hstate hmore hfew hcons htrig
    | done hstate hfull hcons htrig => exact .done hstate hfull hcons htrig

/-- Every operation keeps the invariant. -/
lemma Inv.step {t : ScopeSys} {op : ScopeOp} (h : Inv s) (hop : s.step op = some t) : Inv t := by
  cases op with
  | sample values =>
    obtain rfl : s.record values = t := by simpa [ScopeSys.step] using hop
    exact h.record values
  | startCapture preTrig dataType dataLen =>
    rw [ScopeSys.step, startCapture] at hop
    split_ifs at hop with hguard
    · cases hop
      exact {
        placed := h.placed.congr rfl rfl rfl h.placed.curr h.placed.start
        chosen := fun _ => ⟨hguard.2.1, hguard.2.2⟩
        dataLen := fun hcap => by cases hcap
        held := fun hcap => by cases hcap
        phase := fun hcap => by cases hcap }
    · cases hop
  | reset =>
    cases hop
    exact .of_idle (h.placed.become .RESET) nofun rfl
  | complete =>
    rw [ScopeSys.step] at hop
    split_ifs at hop
    cases hop
    exact .of_idle (h.placed.become .IDLE) nofun rfl
  | timeout =>
    cases hop
    exact .of_idle (h.placed.congr rfl rfl rfl h.placed.curr h.placed.start) nofun rfl
  | setMult mult =>
    cases hop
    exact h.set mult _ _ _ _ _
  | setTrigger chan level edge auto =>
    cases hop
    exact h.set _ chan level edge _ auto
  | forceTrigger =>
    cases hop
    exact h.set _ _ _ _ true _

/-- Under the invariant the state is right. -/
lemma Inv.right (h : Inv s) : Right s where
  curr := by
    obtain ⟨c, hc, hcurr⟩ := h.placed.curr
    rw [h.placed.recLen] at hc
    rw [hcurr]
    exact place_fits hc
  start := by
    obtain ⟨c, hc, hstart⟩ := h.placed.start
    rw [h.placed.recLen] at hc
    rw [hstart]
    exact place_fits hc
  done hstate := by
    have hcap : capturing s.scope.shm.state := by rw [hstate]; rfl
    have hheld := h.held hcap
    have hpos : 0 < s.scope.shm.recLen := Nat.zero_lt_of_lt h.placed.three
    cases h.phase hcap with
    | preTrig hother | trigWait hother | postTrig hother => rw [hstate] at hother; cases hother
    | done _ hfull hcons htrig =>
      have hle : s.scope.shm.recLen ≤ s.log.length := hfull ▸ hheld.samples
      refine ⟨hfull, ?_, fun i hi => ?_, hcons, hfull ▸ htrig⟩
      · rw [captureCopyData, length_copySamples, hfull]
      · have hlt : s.log.length - s.scope.shm.recLen + i < s.log.length := by omega
        have hcells : (captureCopyData s.scope)[i]?
            = some ((List.range s.scope.shm.sampleLen).map fun k => s.scope.rt.buffer
              ((s.log.length - s.scope.shm.recLen + i) % s.scope.shm.recLen
                * s.scope.shm.sampleLen + k)) := by
          rw [captureCopyData, hfull, hheld.start, hfull, ← Nat.mod_add_mod]
          exact getElem?_copySamples h.placed.sampleLen _ _ i (Nat.mod_lt _ hpos) hi
        refine ⟨_, s.log[s.log.length - s.scope.shm.recLen + i], hcells,
          List.getElem?_eq_getElem hlt, fun k n hk => ?_⟩
        obtain ⟨hklt, -⟩ := List.getElem?_eq_some_iff.1 hk
        have hroom : k < s.scope.shm.sampleLen := hklt.trans_le hheld.chosen.room
        refine ⟨s.scope.rt.buffer ((s.log.length - s.scope.shm.recLen + i)
          % s.scope.shm.recLen * s.scope.shm.sampleLen + k), ?_, ?_⟩
        · rw [List.getElem?_map, List.getElem?_range hroom, Option.map_some]
        · exact hheld.stored _ _ (List.getElem?_eq_getElem hlt) (by omega) k n hk

/-- The invariant holds at the start. -/
lemma inv_init {bufLen sampleLen : ℕ} (buffer : ℕ → Cell) (hlen : 0 < sampleLen)
    (hthree : 3 ≤ bufLen / sampleLen) : Inv (.init bufLen sampleLen buffer) := by
  have hplace : ∃ c < bufLen / sampleLen, 0 = c * sampleLen :=
    ⟨0, Nat.zero_lt_of_lt hthree, (Nat.zero_mul _).symm⟩
  exact .of_idle ⟨hlen, rfl, hthree, hplace, hplace⟩ nofun rfl

/-! ### A record of two samples -/

/-- A forced trigger with no sample before it. -/
def forcedOps (values : ℕ → Cell) : List ScopeOp :=
  [.startCapture 0 (fun _ => .other) (fun _ => 0), .sample values, .sample values, .forceTrigger,
    .sample values, .sample values]

/-- The trigger is met at the second sample, which fills the record of two, and the state after
the trigger takes one more. -/
lemma forced_overfull {bufLen sampleLen : ℕ} (buffer : ℕ → Cell)
    (htwo : bufLen / sampleLen = 2) (values : ℕ → Cell) : ∃ t : ScopeSys,
    run ScopeSys.step (fun _ _ => true) (.init bufLen sampleLen buffer) (forcedOps values)
      = some t ∧
    t.scope.shm.state = .DONE ∧ t.scope.shm.samples = 3 ∧ t.scope.shm.recLen = 2 := by
  rw [ScopeSys.init, htwo, forcedOps]
  simp [run, ScopeSys.step, startCapture, ScopeSys.record, beginSample, sample, sampleState,
    sampleInit, acquire, captureSample, checkTrigger, checkEdge, Scope.become, Shm.cleared,
    channels, captured]

/-- Every capture of every run is right exactly if the record has more than two samples. -/
theorem capture_right {bufLen sampleLen : ℕ} (buffer : ℕ → Cell) (hlen : 0 < sampleLen)
    (htwo : 2 ≤ bufLen / sampleLen) :
    (∀ s, Reach ScopeSys.step (fun _ _ => True) (.init bufLen sampleLen buffer) s → Right s)
      ↔ bufLen / sampleLen ≠ 2 := by
  constructor
  · intro hright heq
    obtain ⟨t, ht, hdone, hthree, hrec⟩ := forced_overfull buffer heq fun _ => 0
    have hreach : Reach ScopeSys.step (fun _ _ => True) (.init bufLen sampleLen buffer) t :=
      (reach_of_run _ _ ht).mono fun _ => trivial
    have hfull := ((hright t hreach).done hdone).full
    rw [hthree, hrec] at hfull
    cases hfull
  · intro hne s hs
    have hthree : 3 ≤ bufLen / sampleLen := by omega
    have hinv : Inv s := hs.invariant (inv_init buffer hlen hthree) fun h _ hop => h.step hop
    exact hinv.right

/-- The buffer that is allocated by default, with four channels. -/
theorem capture_right_four :
    (∀ s, Reach ScopeSys.step (fun _ _ => True) (.init 16000 4 fun _ => 0) s → Right s)
      ↔ 16000 / 4 ≠ 2 :=
  capture_right (fun _ => 0) (by decide) (by decide)

/-- A forced trigger in a record of two samples ends with three. -/
theorem capture_right_two : ¬ ∀ (bufLen sampleLen : ℕ) (buffer : ℕ → Cell), 0 < sampleLen →
    2 ≤ bufLen / sampleLen → ∀ s : ScopeSys,
    Reach ScopeSys.step (fun _ _ => True) (.init bufLen sampleLen buffer) s → Right s := by
  intro hright
  obtain ⟨t, ht, hdone, hthree, hrec⟩ :=
    forced_overfull (fun _ => 0) (by decide : 32 / 16 = 2) fun _ => 0
  have hreach : Reach ScopeSys.step (fun _ _ => True) (.init 32 16 fun _ => 0) t :=
    (reach_of_run _ _ ht).mono fun _ => trivial
  have hfull := ((hright 32 16 _ (by decide) (by decide) t hreach).done hdone).full
  rw [hthree, hrec] at hfull
  cases hfull

end MachinekitHal.Halscope
