import MachinekitHal.Hostmot2.SserialPorts

/-!
The output frame of a smart-serial card.

* `Conf.handled`, `encodingBit`: the types of fields that are written, and their bits.
* `IsFrame`: registers with every output field at its place and every other bit clear.
* `staleBit`: a bit of `buff`, as the fields before have left it.
* `PadsClear`: all that the padding of a card takes from `buff` is clear.
* `outputFrame_iff`: a running port puts out the frames of its cards, exactly if the function
  gets to it and the padding of its cards is clear.
-/

namespace MachinekitHal.Sserial

variable {A : FloatArith}

/-! ### Frames -/

/-- The types of fields that are written. A signed field is shifted by `32 - DataLength`. -/
def Conf.handled (conf : Conf) : Bool :=
  match conf.dataType with
  | .pad | .bits | .unsigned | .stream | .boolean => true
  | .signed => conf.dataLength ≤ 32
  | .float => conf.dataLength = 32 || conf.dataLength = 64
  | .encoder | .other _ => false

/-- Bit `j` of a field, by its type: that of the pin, of the number in the format of the type,
or the truth value in every bit. Padding is clear. -/
def encodingBit (conf : Conf) (pin : Pins A) (j : ℕ) : Bool :=
  let len := conf.dataLength
  match conf.dataType with
  | .bits => j < len && (pin.bitPins j ^^ pin.invert j)
  | .unsigned => (A.unsigned pin.limited pin.fullscale len).getLsbD j
  -- the highest bits of the number
  | .signed => j < len && (A.signed pin.limited pin.fullscale).getLsbD (32 - len + j)
  | .stream => j < len && pin.u32Pin.getLsbD j
  | .boolean => j < len && (pin.boolean ^^ pin.invert 0)
  | .float =>
    if len = 32 then (A.singleBits (A.toSingle pin.floatPin)).getLsbD j
    else (A.doubleBits pin.floatPin).getLsbD j
  | .pad | .encoder | .other _ => false

/-- The registers of a card hold its output fields one behind the other, and nothing else. -/
structure IsFrame (confs : List (Conf × Pins A)) (regs : Regs) : Prop where
  field : ∀ pre conf pin post, confs = pre ++ (conf, pin) :: post → conf.output = true →
    ∀ j < conf.dataLength, regs.bit (numWriteBits (fieldsOf pre) + j) = encodingBit conf pin j
  unused : Clear regs (numWriteBits (fieldsOf confs)) (numWriteBits (fieldsOf confs))

/-! ### The buffer -/

/-- The fields that are written. -/
def outputs (confs : List (Conf × Pins A)) : List (Conf × Pins A) :=
  confs.filter fun f => f.1.output

/-- Bit `j` of `buff` behind some fields: as the last field that sets it has left it. -/
def staleBit (fields : List (Conf × Pins A)) (buff : BitVec 64) (j : ℕ) : Bool :=
  fields.foldl (fun bit f => if j < f.1.fresh 0 then encodingBit f.1 f.2 j else bit)
    (buff.getLsbD j)

/-- The bits of `buff` that the padding of a card puts out, behind some fields of other cards,
are clear. -/
def PadsClear (earlier : List (Conf × Pins A)) (buff : BitVec 64)
    (confs : List (Conf × Pins A)) : Prop :=
  ∀ pre conf pin post, confs = pre ++ (conf, pin) :: post → conf.output = true →
    conf.dataType = .pad → ∀ j < conf.dataLength, staleBit (earlier ++ outputs pre) buff j = false

/-- The same for the cards of a port. -/
def PaddingClear (earlier : List (Conf × Pins A)) (buff : BitVec 64)
    (cards : List (List (Conf × Pins A))) : Prop :=
  ∀ pre confs post, cards = pre ++ confs :: post →
    PadsClear (earlier ++ pre.flatMap outputs) buff confs

section Fields

variable {conf : Conf} {pin : Pins A} {buff v : BitVec 64} {confs pre post : List (Conf × Pins A)}
  {earlier : List (Conf × Pins A)} {bitcount bits j : ℕ} {regs : Regs}

lemma getLsbD_bitAt (x : Bool) (b : ℕ) (hj : j < 64) :
    ((BitVec.ofBool x).setWidth 64 <<< b).getLsbD j = (decide (j = b) && x) := by
  rw [BitVec.getLsbD_shiftLeft, BitVec.getLsbD_setWidth, decide_eq_true hj, Bool.true_and]
  rcases lt_trichotomy j b with h | rfl | h
  · simp [h, h.ne]
  · simp
  · rw [decide_eq_false h.ne', BitVec.getLsbD_of_ge _ _ (by omega)]
    simp

/-- The bit pins, each at its place. -/
lemma getLsbD_packed (pin : Pins A) (n : ℕ) (hj : j < 64) :
    (pin.packed n).getLsbD j = (decide (j < n) && (pin.bitPins j ^^ pin.invert j)) := by
  induction n with
  | zero => simp [Pins.packed]
  | succ n ih =>
    rw [Pins.packed, BitVec.getLsbD_or, BitVec.getLsbD_xor, ih, getLsbD_bitAt _ _ hj,
      getLsbD_bitAt _ _ hj]
    rcases lt_trichotomy j n with h | rfl | h
    · simp [h, h.ne, show j < n + 1 by omega]
    · simp
    · simp [h.ne', show ¬ j < n by omega, show ¬ j < n + 1 by omega]

lemma getLsbD_mask {len : ℕ} (x : BitVec 64) (hlen : len ≤ 64) :
    (x &&& ones >>> (64 - len)).getLsbD j = (decide (j < len) && x.getLsbD j) := by
  rw [BitVec.getLsbD_and, getLsbD_ones, Bool.and_comm]
  congr 1
  exact decide_eq_decide.2 (by omega)

/-- The highest bits of a signed number. -/
lemma getLsbD_highest {len : ℕ} (x : BitVec 32) (hlen : len ≤ 32) :
    ((x.sshiftRight (32 - len)).signExtend 64 &&& ones >>> (64 - len)).getLsbD j
      = (decide (j < len) && x.getLsbD (32 - len + j)) := by
  rw [getLsbD_mask _ (by omega)]
  by_cases hj : j < len
  · rw [BitVec.getLsbD_signExtend, if_pos (by omega), BitVec.getLsbD_sshiftRight,
      if_pos (by omega), decide_eq_true (by omega : j < 64), decide_eq_false (by omega : ¬ 32 ≤ j)]
    simp
  · rw [decide_eq_false hj, Bool.false_and, Bool.false_and]

/-- A field sets its bits of `buff`; the others stay. -/
lemma getLsbD_packConf (h : conf.handled = true) (hj : j < 64) :
    (packConf conf pin buff).getLsbD j
      = if j < conf.fresh 0 then encodingBit conf pin j else buff.getLsbD j := by
  have hlen := conf.length_le
  rw [packConf, Conf.fresh, encodingBit]
  rw [Conf.handled] at h
  cases htype : conf.dataType with
  | pad => rfl
  | encoder => rfl
  | other code => rfl
  | bits => exact (getLsbD_packed pin _ hj).trans (if_pos hj).symm
  | unsigned =>
    refine Eq.trans ?_ (if_pos hj).symm
    rw [BitVec.getLsbD_setWidth, decide_eq_true hj, Bool.true_and]
  | signed =>
    refine Eq.trans ?_ (if_pos hj).symm
    rw [htype] at h
    exact getLsbD_highest _ (of_decide_eq_true h)
  | stream =>
    refine Eq.trans ?_ (if_pos hj).symm
    dsimp only
    rw [getLsbD_mask _ hlen, BitVec.getLsbD_setWidth, decide_eq_true hj, Bool.true_and]
  | boolean =>
    refine Eq.trans ?_ (if_pos hj).symm
    dsimp only
    split_ifs with hbit
    · rw [getLsbD_ones, hbit, Bool.and_true]
      exact decide_eq_decide.2 (by omega)
    · rw [Bool.eq_false_iff.2 hbit, Bool.and_false]
      exact BitVec.getLsbD_zero
  | float =>
    dsimp only
    split_ifs with h32 hj32 h64 <;> try omega
    · exact (getLsbD_memcpy _ _).trans (if_pos (by omega))
    · exact (getLsbD_memcpy _ _).trans (if_neg (by omega))
    · rfl
    · rfl

/-- A field that is not padding sets all its bits. -/
lemma fresh_of_handled (h : conf.handled = true) (hpad : conf.dataType ≠ .pad) :
    conf.dataLength ≤ conf.fresh 0 := by
  have hlen := conf.length_le
  rw [Conf.handled] at h
  rw [Conf.fresh]
  cases htype : conf.dataType <;> simp_all
  split_ifs <;> omega

lemma staleBit_append (fields fields' : List (Conf × Pins A))
    (hj : v.getLsbD j = staleBit fields buff j) :
    staleBit (fields ++ fields') buff j = staleBit fields' v j := by
  rw [staleBit, staleBit, List.foldl_append, hj, staleBit]

/-- What the fields of a card leave in `buff`. -/
lemma packConfs_buff (hh : ∀ f ∈ outputs confs, f.1.handled = true) (hj : j < 64) :
    (packConfs confs bitcount buff regs).2.1.getLsbD j = staleBit (outputs confs) buff j := by
  induction confs generalizing bitcount buff regs with
  | nil => rfl
  | cons head rest ih =>
    obtain ⟨conf, pin⟩ := head
    by_cases hout : conf.output = true
    · have houts : outputs ((conf, pin) :: rest) = (conf, pin) :: outputs rest :=
        List.filter_cons_of_pos hout
      rw [houts] at hh ⊢
      simp only [packConfs, hout, if_true]
      rw [ih fun f hf => hh f (.tail _ hf)]
      refine (staleBit_append [(conf, pin)] _ ?_).symm
      exact getLsbD_packConf (hh _ (List.mem_cons_self ..)) hj
    · have houts : outputs ((conf, pin) :: rest) = outputs rest := List.filter_cons_of_neg hout
      rw [houts] at hh ⊢
      simp only [packConfs, if_neg hout]
      exact ih hh

/-- The bits of a field, in the registers of its card. -/
lemma packConfs_field (buff : BitVec 64)
    (hh : ∀ f ∈ outputs (pre ++ (conf, pin) :: post), f.1.handled = true)
    (hout : conf.output = true) (hclear : Clear regs bitcount bits)
    (hbits : bitcount + numWriteBits (fieldsOf (pre ++ (conf, pin) :: post)) ≤ bits)
    (hfits : bits ≤ 96) (hj : j < conf.dataLength) :
    (packConfs (pre ++ (conf, pin) :: post) bitcount buff regs).2.2.bit
        (bitcount + numWriteBits (fieldsOf pre) + j)
      = if j < conf.fresh 0 then encodingBit conf pin j else staleBit (outputs pre) buff j := by
  have hlen := conf.length_le
  induction pre generalizing bitcount buff regs with
  | nil =>
    have hhead : conf.handled = true :=
      hh (conf, pin) (List.mem_filter.2 ⟨List.mem_cons_self .., hout⟩)
    simp only [fieldsOf, List.nil_append, List.map_cons, numWriteBits, hout, if_true,
      List.map_nil, Nat.add_zero] at hbits ⊢
    simp only [packConfs, hout, if_true]
    rw [packConfs_below (by omega) (by omega), bit_setbits_inside hlen (by omega) (by omega)
      (by omega) (hclear _ (by omega) (by omega) (by omega)), Nat.add_sub_cancel_left]
    exact getLsbD_packConf hhead (by omega)
  | cons head rest ih =>
    obtain ⟨conf', pin'⟩ := head
    simp only [fieldsOf, List.cons_append, List.map_cons, numWriteBits] at hbits ⊢
    by_cases hout' : conf'.output = true
    · have houts : ∀ l, outputs ((conf', pin') :: l) = (conf', pin') :: outputs l :=
        fun l => List.filter_cons_of_pos hout'
      rw [List.cons_append, houts] at hh
      rw [if_pos hout'] at hbits ⊢
      rw [houts]
      simp only [packConfs, hout', if_true]
      rw [← Nat.add_assoc, ih _ (fun f hf => hh f (.tail _ hf))
        (hclear.setbits conf' _) (by simp only [fieldsOf]; omega)]
      congr 1
      refine (staleBit_append [(conf', pin')] _ ?_).symm
      exact getLsbD_packConf (hh _ (List.mem_cons_self ..)) (by omega)
    · have houts : ∀ l, outputs ((conf', pin') :: l) = outputs l :=
        fun l => List.filter_cons_of_neg hout'
      rw [List.cons_append, houts] at hh
      rw [if_neg hout', Nat.zero_add] at hbits ⊢
      rw [houts]
      simp only [packConfs, if_neg hout']
      exact ih _ hh hclear (by simp only [fieldsOf]; omega)

/-- Behind the fields the registers stay clear. -/
lemma packConfs_clear (confs : List (Conf × Pins A)) (buff : BitVec 64)
    (hclear : Clear regs bitcount bits) :
    Clear (packConfs confs bitcount buff regs).2.2
      (bitcount + numWriteBits (fieldsOf confs)) bits := by
  induction confs generalizing bitcount buff regs with
  | nil => exact hclear
  | cons head rest ih =>
    obtain ⟨conf, pin⟩ := head
    simp only [fieldsOf, List.map_cons, numWriteBits, packConfs]
    by_cases hout : conf.output = true
    · simp only [hout, if_true]
      rw [← Nat.add_assoc]
      exact ih _ (hclear.setbits conf _)
    · simp only [if_neg hout, Nat.zero_add]
      exact ih _ hclear

/-- The registers of a card hold its frame, exactly if its padding is clear. -/
lemma packConfs_isFrame (regs : Regs) (buff : BitVec 64)
    (hh : ∀ f ∈ outputs confs, f.1.handled = true)
    (hfits : numWriteBits (fieldsOf confs) ≤ 96) :
    IsFrame confs (packConfs confs 0 buff (regs.zeroed (numWriteBits (fieldsOf confs)))).2.2
      ↔ PadsClear [] buff confs := by
  have hclear := Clear.zeroed regs (numWriteBits (fieldsOf confs))
  have hfield : ∀ pre conf pin post, confs = pre ++ (conf, pin) :: post → conf.output = true →
      ∀ j < conf.dataLength,
        (packConfs confs 0 buff (regs.zeroed (numWriteBits (fieldsOf confs)))).2.2.bit
          (numWriteBits (fieldsOf pre) + j)
        = if j < conf.fresh 0 then encodingBit conf pin j else staleBit (outputs pre) buff j := by
    rintro pre conf pin post rfl hout j hj
    have hbit := packConfs_field buff hh hout hclear (by omega) hfits hj
    rwa [Nat.zero_add] at hbit
  constructor
  · intro hframe pre conf pin post hsplit hout hpad j hj
    have hbit := hframe.field pre conf pin post hsplit hout j hj
    rw [hfield pre conf pin post hsplit hout j hj] at hbit
    simpa [Conf.fresh, encodingBit, hpad] using hbit
  · intro hpads
    refine ⟨fun pre conf pin post hsplit hout j hj => ?_, ?_⟩
    · rw [hfield pre conf pin post hsplit hout j hj]
      by_cases hpad : conf.dataType = .pad
      · have hbit := hpads pre conf pin post hsplit hout hpad j hj
        rw [List.nil_append] at hbit
        simp [Conf.fresh, encodingBit, hpad, hbit]
      · have hmem : (conf, pin) ∈ outputs confs := by
          rw [hsplit]
          exact List.mem_filter.2 ⟨by simp, hout⟩
        have hfresh := fresh_of_handled (hh _ hmem) hpad
        rw [if_pos (lt_of_lt_of_le hj hfresh)]
    · have hbehind := packConfs_clear confs buff hclear
      rwa [Nat.zero_add] at hbehind

/-- Padding behind fields of other cards. -/
lemma padsClear_congr (h : ∀ j < 64, v.getLsbD j = staleBit earlier buff j) :
    PadsClear [] v confs ↔ PadsClear earlier buff confs := by
  refine forall_congr' fun pre => forall_congr' fun conf => forall_congr' fun pin =>
    forall_congr' fun post => forall_congr' fun _ => forall_congr' fun _ => forall_congr' fun _ =>
      forall_congr' fun j => forall_congr' fun hj => ?_
  have hlen := conf.length_le
  rw [List.nil_append, staleBit_append _ _ (h j (by omega))]

end Fields

/-! ### Ports -/

/-- The port is running, and a transfer is started. -/
def Port.transfers (inst : Port A) : Bool :=
  inst.state = 0x01 && inst.run && !(inst.faultCount > inst.faultLim) && inst.commandRegRead = 0

/-- The fields that the function writes for a port. -/
def Port.written (inst : Port A) : List (Conf × Pins A) :=
  if inst.transfers then inst.remotes.flatMap fun chan => outputs chan.confs else []

/-- The function leaves the frames of its cards in the registers of the port `inst`. -/
def Framed (modes : ℕ → ℕ → Char) (period : ℤ) (before : List (Port A)) (inst : Port A)
    (rest : List (Port A)) (buff : BitVec 64) : Prop :=
  ∃ port writes,
    (hm2SserialPrepareTramWrite modes period (before ++ inst :: rest) buff)[before.length]?
      = some (port, writes) ∧
    List.Forall₂ (fun chan chan' => IsFrame chan.confs chan'.regs) inst.remotes port.remotes

section Ports

variable {modes : ℕ → ℕ → Char} {period : ℤ} {before rest : List (Port A)} {inst : Port A}
  {chans : List (Remote A)} {buff v : BitVec 64} {j : ℕ} {turn : Turn A}
  {earlier : List (Conf × Pins A)}

/-- What the cards of a port leave in `buff`. -/
lemma packRemotes_buff (hh : ∀ chan ∈ chans, ∀ f ∈ outputs chan.confs, f.1.handled = true)
    (hj : j < 64) : (packRemotes chans buff).2.getLsbD j
      = staleBit (chans.flatMap fun chan => outputs chan.confs) buff j := by
  induction chans generalizing buff with
  | nil => rfl
  | cons chan rest ih =>
    simp only [packRemotes, packRemote, List.flatMap_cons]
    rw [ih fun chan' hc => hh chan' (.tail _ hc)]
    refine (staleBit_append _ _ ?_).symm
    exact packConfs_buff (hh chan (List.mem_cons_self ..)) hj

/-- The registers of the cards hold their frames, exactly if the padding of each is clear. -/
lemma packRemotes_isFrame (hh : ∀ chan ∈ chans, ∀ f ∈ outputs chan.confs, f.1.handled = true)
    (hfits : ∀ chan ∈ chans, numWriteBits chan.fields ≤ 96)
    (hv : ∀ j < 64, v.getLsbD j = staleBit earlier buff j) :
    List.Forall₂ (fun chan chan' => IsFrame chan.confs chan'.regs) chans (packRemotes chans v).1 ↔
      PaddingClear earlier buff (chans.map Remote.confs) := by
  induction chans generalizing v earlier with
  | nil => simp [packRemotes, PaddingClear]
  | cons chan rest ih =>
    have hhead := hh chan (List.mem_cons_self ..)
    have hbuff : ∀ j < 64, (packConfs chan.confs 0 v
        (chan.regs.zeroed (numWriteBits chan.fields))).2.1.getLsbD j
          = staleBit (earlier ++ outputs chan.confs) buff j := fun j hj => by
      rw [packConfs_buff hhead hj, staleBit_append _ _ (hv j hj)]
    have hframe := packConfs_isFrame chan.regs v hhead
      (hfits chan (List.mem_cons_self ..))
    simp only [packRemotes, packRemote, List.forall₂_cons, List.map_cons]
    rw [ih (fun c hc => hh c (.tail _ hc))
      (fun c hc => hfits c (.tail _ hc)) hbuff]
    constructor
    · rintro ⟨hfirst, hothers⟩ pre confs post hsplit
      cases pre with
      | nil =>
        obtain ⟨rfl, -⟩ := List.cons.inj hsplit
        rw [List.flatMap_nil, List.append_nil]
        exact (padsClear_congr hv).1 (hframe.1 hfirst)
      | cons c pre =>
        obtain ⟨rfl, hrest⟩ := List.cons.inj hsplit
        rw [List.flatMap_cons, ← List.append_assoc]
        exact hothers pre confs post hrest
    · intro hpads
      constructor
      · have hfirst := hpads [] chan.confs _ rfl
        rw [List.flatMap_nil, List.append_nil] at hfirst
        exact hframe.2 ((padsClear_congr hv).2 hfirst)
      · intro pre confs post hsplit
        have hother := hpads (chan.confs :: pre) confs post (by rw [hsplit, List.cons_append])
        rwa [List.flatMap_cons, ← List.append_assoc] at hother

/-- A transfer packs the pins. -/
lemma stepPort_transfers (h : inst.transfers = true) :
    stepPort modes period inst buff
      = some ⟨(transfer inst buff).1, [], (transfer inst buff).2⟩ := by
  simp only [Port.transfers, Bool.and_eq_true, decide_eq_true_eq, Bool.not_eq_true',
    decide_eq_false_iff_not] at h
  obtain ⟨⟨⟨hstate, hrun⟩, hfault⟩, hcmd⟩ := h
  rw [stepPort, hstate, hrun, hcmd, if_neg (by decide), if_pos rfl, if_neg (by decide),
    if_neg hfault, if_neg (by decide)]

/-- What a port leaves in `buff`. -/
lemma stepPort_buff (hh : ∀ chan ∈ inst.remotes, ∀ f ∈ outputs chan.confs, f.1.handled = true)
    (h : stepPort modes period inst buff = some turn) (hj : j < 64) :
    turn.buff.getLsbD j = staleBit inst.written buff j := by
  by_cases htransfers : inst.transfers = true
  · rw [stepPort_transfers htransfers] at h
    cases h
    rw [Port.written, if_pos htransfers]
    exact packRemotes_buff hh hj
  · rw [Port.written, if_neg htransfers]
    have hbuff : turn.buff = buff := by
      rw [stepPort] at h
      dsimp only at h
      split_ifs at h with h0 hr0 h1 hrun hfault hcmd <;>
        first
        | (obtain rfl := Option.some.inj h; rfl)
        | refine absurd ?_ htransfers
      simp_all [Port.transfers]
    rw [hbuff]
    rfl

variable (modes period inst rest buff) in
/-- Behind ports that are not idle the function gets to the next one. -/
lemma prepare_append
    (hh : ∀ p ∈ before, ∀ chan ∈ p.remotes, ∀ f ∈ outputs chan.confs, f.1.handled = true)
    (hidle : ∀ p ∈ before, p.idle = false) : ∃ v : BitVec 64,
    (∀ j < 64, v.getLsbD j = staleBit (before.flatMap Port.written) buff j) ∧
    (hm2SserialPrepareTramWrite modes period (before ++ inst :: rest) buff)[before.length]?
      = (hm2SserialPrepareTramWrite modes period (inst :: rest) v)[0]? := by
  induction before generalizing buff with
  | nil => exact ⟨buff, fun j _ => rfl, rfl⟩
  | cons p before ih =>
    have hstep : stepPort modes period p buff ≠ none := fun hnone => by
      rw [stepPort_eq_none, hidle p (List.mem_cons_self ..)] at hnone
      cases hnone
    obtain ⟨turn, hturn⟩ := Option.ne_none_iff_exists'.1 hstep
    obtain ⟨v, hv, hget⟩ := @ih turn.buff
      (fun q hq => hh q (.tail _ hq))
      (fun q hq => hidle q (.tail _ hq))
    refine ⟨v, fun j hj => ?_, ?_⟩
    · rw [hv j hj, List.flatMap_cons]
      refine (staleBit_append _ _ ?_).symm
      exact stepPort_buff (hh p (List.mem_cons_self ..)) hturn hj
    · rw [List.cons_append, hm2SserialPrepareTramWrite, hturn, List.length_cons,
        List.getElem?_cons_succ, hget]

/-- An output field of a card has bits. -/
lemma numWriteBits_pos {pre post confs : List (Conf × Pins A)} {conf : Conf} {pin : Pins A}
    (hsplit : confs = pre ++ (conf, pin) :: post) (hout : conf.output = true) :
    0 < numWriteBits (fieldsOf confs) := by
  subst hsplit
  induction pre with
  | nil =>
    have hpos := conf.length_pos
    simp only [fieldsOf, List.nil_append, List.map_cons, numWriteBits, if_pos hout]
    omega
  | cons head rest ih =>
    simp only [fieldsOf, List.cons_append, List.map_cons, numWriteBits] at ih ⊢
    omega

/-- The first output field of a card. -/
lemma exists_firstField {confs : List (Conf × Pins A)} (h : 0 < numWriteBits (fieldsOf confs)) :
    ∃ pre conf pin post, confs = pre ++ (conf, pin) :: post ∧ conf.output = true ∧
      numWriteBits (fieldsOf pre) = 0 := by
  induction confs with
  | nil => cases h
  | cons head rest ih =>
    obtain ⟨conf, pin⟩ := head
    by_cases hout : conf.output = true
    · exact ⟨[], conf, pin, rest, rfl, hout, rfl⟩
    · simp only [fieldsOf, List.map_cons, numWriteBits, if_neg hout, Nat.zero_add] at h
      obtain ⟨pre, conf', pin', post, hsplit, hout', hzero⟩ := ih h
      refine ⟨(conf, pin) :: pre, conf', pin', post, by rw [hsplit]; rfl, hout', ?_⟩
      simp only [fieldsOf, List.map_cons, numWriteBits, if_neg hout, Nat.zero_add]
      exact hzero

/-- Not all registers hold a frame with a field in it. -/
lemma numWriteBits_eq_zero {confs : List (Conf × Pins A)}
    (h : ∀ regs : Regs, IsFrame confs regs) : numWriteBits (fieldsOf confs) = 0 := by
  by_contra hne
  obtain ⟨pre, conf, pin, post, hsplit, hout, hzero⟩ :=
    exists_firstField (Nat.pos_of_ne_zero hne)
  have hlow := (h ⟨0, 0, 0⟩).field pre conf pin post hsplit hout 0 conf.length_pos
  have hhigh := (h ⟨1, 0, 0⟩).field pre conf pin post hsplit hout 0 conf.length_pos
  rw [hzero, ← hlow] at hhigh
  rw [hzero] at hhigh
  exact absurd hhigh (by decide)

/-- A card without output fields has nothing to put out. -/
lemma isFrame_of_no_bits {confs : List (Conf × Pins A)} (h : numWriteBits (fieldsOf confs) = 0)
    (regs : Regs) : IsFrame confs regs := by
  refine ⟨fun pre conf pin post hsplit hout => ?_, fun p _ _ hp => ?_⟩
  · exact absurd (numWriteBits_pos hsplit hout) (by omega)
  · omega

/-- **The output frame.** For a running port behind any others, with cards of handled fields that
fit their registers: whatever the registers hold before, the function leaves the frame of each card
in them, exactly if no idle port stands before (unless nothing is to be put out), and each bit of
`buff` that goes into the padding of a card is clear, as the last field before that sets it, on any
card of a running port, has left it. -/
theorem outputFrame_iff (modes : ℕ → ℕ → Char) (period : ℤ) (before : List (Port A))
    (inst : Port A) (rest : List (Port A)) (buff : BitVec 64) (hrunning : inst.transfers = true)
    (hhandled : ∀ p ∈ before ++ [inst], ∀ chan ∈ p.remotes, ∀ f ∈ outputs chan.confs,
      f.1.handled = true)
    (hfits : ∀ chan ∈ inst.remotes, numWriteBits chan.fields ≤ 96) :
    (∀ remotes : List (Remote A), remotes.map Remote.confs = inst.remotes.map Remote.confs →
        Framed modes period before { inst with remotes := remotes } rest buff) ↔
      (∀ p ∈ before, p.idle = true → ∀ chan ∈ inst.remotes, numWriteBits chan.fields = 0) ∧
        PaddingClear (before.flatMap Port.written) buff (inst.remotes.map Remote.confs) := by
  have hcard : ∀ remotes : List (Remote A),
      remotes.map Remote.confs = inst.remotes.map Remote.confs → ∀ chan ∈ remotes,
        ∃ chan' ∈ inst.remotes, chan'.confs = chan.confs := fun remotes hmap chan hchan => by
    have hmem := List.mem_map_of_mem (f := Remote.confs) hchan
    rw [hmap] at hmem
    exact List.mem_map.1 hmem
  by_cases hidle : ∃ p ∈ before, p.idle = true
  · obtain ⟨p, hp, hpidle⟩ := hidle
    obtain ⟨i, hi, rfl⟩ := List.getElem_of_mem hp
    -- the port is left as it is
    have hget : ∀ remotes : List (Remote A),
        (hm2SserialPrepareTramWrite modes period
          (before ++ { inst with remotes := remotes } :: rest) buff)[before.length]?
            = some ({ inst with remotes := remotes }, []) := fun remotes =>
      prepare_behind hi (by rw [List.getElem?_append_left hi, List.getElem?_eq_getElem hi])
        hpidle (by simp)
    constructor
    · intro hframed
      have hbits : ∀ chan ∈ inst.remotes, numWriteBits chan.fields = 0 := by
        intro chan hchan
        refine numWriteBits_eq_zero fun regs => ?_
        obtain ⟨port, writes, hport, hframes⟩ :=
          hframed (inst.remotes.map fun chan => { chan with regs := regs }) (by simp)
        rw [hget] at hport
        cases hport
        exact List.forall₂_same.1 hframes { chan with regs := regs }
          (List.mem_map.2 ⟨chan, hchan, rfl⟩)
      refine ⟨fun _ _ _ => hbits, fun pre confs post hsplit => ?_⟩
      intro pre' conf pin post' hfields hout
      have hmem : confs ∈ inst.remotes.map Remote.confs := by simp [hsplit]
      obtain ⟨chan, hchan, rfl⟩ := List.mem_map.1 hmem
      have hpos := numWriteBits_pos hfields hout
      exact absurd (hbits chan hchan) hpos.ne'
    · rintro ⟨hbits, -⟩ remotes hmap
      refine ⟨_, _, hget remotes, List.forall₂_same.2 fun chan hchan => ?_⟩
      obtain ⟨chan', hchan', heq⟩ := hcard remotes hmap chan hchan
      refine isFrame_of_no_bits ?_ _
      rw [← heq]
      exact hbits _ hp hpidle chan' hchan'
  · have hnone : ∀ p ∈ before, p.idle = false := fun p hp =>
      Bool.eq_false_iff.2 fun h => hidle ⟨p, hp, h⟩
    have hframed : ∀ remotes : List (Remote A),
        remotes.map Remote.confs = inst.remotes.map Remote.confs →
        (Framed modes period before { inst with remotes := remotes } rest buff ↔
          PaddingClear (before.flatMap Port.written) buff (inst.remotes.map Remote.confs)) := by
      intro remotes hmap
      obtain ⟨v, hv, hget⟩ := prepare_append modes period rest
        { inst with remotes := remotes } buff
        (fun p hp => hhandled p (List.mem_append_left _ hp)) hnone
      have htransfers : Port.transfers { inst with remotes := remotes } = true := hrunning
      rw [hm2SserialPrepareTramWrite, stepPort_transfers htransfers] at hget
      rw [← hmap, ← packRemotes_isFrame _ _ hv]
      · constructor
        · rintro ⟨port, writes, hport, hframes⟩
          rw [hget] at hport
          cases hport
          exact hframes
        · exact fun hframes => ⟨_, _, hget, hframes⟩
      · intro chan hchan
        obtain ⟨chan', hchan', heq⟩ := hcard remotes hmap chan hchan
        rw [← heq]
        exact hhandled inst (by simp) chan' hchan'
      · intro chan hchan
        obtain ⟨chan', hchan', heq⟩ := hcard remotes hmap chan hchan
        rw [Remote.fields, ← heq]
        exact hfits chan' hchan'
    constructor
    · intro h
      refine ⟨fun p hp hpidle => ?_, (hframed inst.remotes rfl).1 (h inst.remotes rfl)⟩
      rw [hnone p hp] at hpidle
      cases hpidle
    · exact fun h remotes hmap => (hframed remotes hmap).2 h.2

end Ports

/-! ### Padding behind a bit -/

lemma one_le_width : 1 ≤ 64 := by decide

/-- One bit and one bit of padding. -/
def paddedFields (x : Bool) : List (Conf × Pins noFloats) :=
  let pins : Pins noFloats := ⟨0, (0 : ℚ), fun _ => x, fun _ => false, false, (0 : ℚ), (0 : ℚ),
    (1 : ℚ)⟩
  [(⟨1, .bits, .lbpOut, by decide, one_le_width⟩, pins),
    (⟨1, .pad, .lbpOut, by decide, one_le_width⟩, pins)]

/-- A running port with a card of these fields. -/
def paddedPort (x : Bool) : Port noFloats :=
  { barePort 1 true with remotes := [⟨0, paddedFields x, 0, ⟨0, 0, 0⟩, 0⟩] }

lemma paddedPort_handled (x : Bool) : ∀ p ∈ [] ++ [paddedPort x], ∀ chan ∈ p.remotes,
    ∀ f ∈ outputs chan.confs, f.1.handled = true := by
  intro p hp chan hchan f hf
  obtain rfl := List.mem_singleton.1 hp
  obtain rfl := List.mem_singleton.1 hchan
  have hmem : f ∈ paddedFields x := List.mem_of_mem_filter hf
  rcases List.mem_cons.1 hmem with rfl | hmem
  · rfl
  · obtain rfl := List.mem_singleton.1 hmem
    rfl

lemma paddedPort_fits (x : Bool) : ∀ chan ∈ (paddedPort x).remotes,
    numWriteBits chan.fields ≤ 96 := by
  intro chan hchan
  obtain rfl := List.mem_singleton.1 hchan
  exact Nat.le_of_ble_eq_true rfl

/-- With the pin clear the padding is clear. -/
theorem outputFrame_iff_clear : (paddedPort false).transfers = true ∧
    ∀ remotes : List (Remote noFloats),
      remotes.map Remote.confs = (paddedPort false).remotes.map Remote.confs →
        Framed (fun _ _ => 'x') 1000000 [] { paddedPort false with remotes := remotes } [] 0 := by
  refine ⟨by decide, ?_⟩
  refine (outputFrame_iff (fun _ _ => 'x') 1000000 [] (paddedPort false) [] 0 (by decide)
    (paddedPort_handled false) (paddedPort_fits false)).2 ⟨fun p hp => by simp at hp, ?_⟩
  rintro (_ | ⟨_, _ | _⟩) confs post hsplit
  · obtain ⟨rfl, -⟩ := List.cons.inj hsplit
    rintro (_ | ⟨_, _ | ⟨_, _ | _⟩⟩) conf pin post' hfields hout hpad j hj
    · obtain ⟨hhead, -⟩ := List.cons.inj hfields
      cases hhead
      cases hpad
    · obtain ⟨rfl, hrest⟩ := List.cons.inj hfields
      obtain ⟨hhead, -⟩ := List.cons.inj hrest
      cases hhead
      obtain rfl : j = 0 := Nat.lt_one_iff.1 hj
      decide
    · simp [paddedFields] at hfields
    · simp [paddedFields] at hfields
  · simp [paddedPort] at hsplit
  · simp [paddedPort] at hsplit

/-- A pin that is set is seen in the padding. -/
theorem outputFrame_stale : ¬ ∀ (A : FloatArith) (modes : ℕ → ℕ → Char) (period : ℤ)
    (before : List (Port A)) (inst : Port A) (rest : List (Port A)) (buff : BitVec 64),
    inst.transfers = true → (∀ p ∈ before ++ [inst], ∀ chan ∈ p.remotes,
      ∀ f ∈ outputs chan.confs, f.1.handled = true) →
    (∀ chan ∈ inst.remotes, numWriteBits chan.fields ≤ 96) →
    Framed modes period before inst rest buff := by
  intro h
  obtain ⟨port, writes, hport, hframes⟩ := h noFloats (fun _ _ => 'x') 1000000 []
    (paddedPort true) [] 0 (by decide) (paddedPort_handled true) (paddedPort_fits true)
  obtain ⟨hp, -⟩ := Prod.mk.inj (Option.some.inj hport)
  subst hp
  have hframe := (List.forall₂_cons.1 hframes).1
  have hbit := hframe.field [_] _ _ [] rfl rfl 0 (by decide)
  exact absurd hbit (by decide)

end MachinekitHal.Sserial
