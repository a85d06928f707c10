import MachinekitHal.Hostmot2.SserialRead
import MachinekitHal.Lib.WrappedCounter

/-!
The position that `hm2_sserial_read_pins` accumulates from an absolute encoder.

* `Channels`: the channels, and the static variables that they share.
* `Layout`, `HasEncoder`: where the encoder is in the process data of its channel.
* `Run`: the channels are read in any order, while a true position moves.
* `Reliable`: the reads behind which the position is right.
* `run_accum`: in a run of such reads the position is always right.
-/

namespace MachinekitHal.Sserial

open Word WrappedCounter

variable {F : Type}

/-- The channels of a board, and the static variables. -/
structure Channels (F : Type) where
  statics : Statics
  chan : ℕ → InRemote F

/-- A channel is read. -/
def Channels.read (A : ReadArith F) (w : Channels F) (c : ℕ) (regCsRead : BitVec 32)
    (regs : ReadRegs) : Option (Channels F) := do
  let (s, chan) ← hm2SserialReadPins A regCsRead regs w.statics (w.chan c)
  return ⟨s, Function.update w.chan c chan⟩

/-! ### The encoder of a channel -/

/-- Where an encoder is in the process data: first bits and lengths. -/
inductive Layout where
  | whole (start len : ℕ)
  /-- A low part and a high part. -/
  | lowHigh (low lowLen high highLen : ℕ)
  /-- A high part and a low part. -/
  | highLow (high highLen low lowLen : ℕ)

/-- The bits of the encoder. -/
def Layout.bits : Layout → ℕ
  | .whole _ len => len
  | .lowHigh _ lowLen _ highLen => lowLen + highLen
  | .highLow _ highLen _ lowLen => lowLen + highLen

/-- What the registers hold of the encoder. -/
def Layout.raw (regs : ReadRegs) : Layout → BitVec 64
  | .whole start len => getbits regs start len
  | .lowHigh low lowLen high highLen =>
    getbits regs low lowLen ||| getbits regs high highLen <<< lowLen
  | .highLow high highLen low lowLen =>
    getbits regs low lowLen ||| getbits regs high highLen <<< lowLen

/-- A field that is no part of an encoder. -/
def Plain (field : InField F) : Prop :=
  field.1.input = true → field.1.dataType ≠ .encoder ∧ field.1.dataType ≠ .encoderH ∧
    field.1.dataType ≠ .encoderL

/-- A field of an encoder, behind some others. -/
structure EncoderField (type : DataType) (start len : ℕ) (conf : Conf) (before : List (InField F)) :
    Prop where
  input : conf.input = true
  dataType : conf.dataType = type
  dataLength : conf.dataLength = len
  start_eq : numReadBits before = start

/-- The only encoder of the fields. `pin` is its counter. -/
def HasEncoder (pin : InPins F) (fields : List (InField F)) : Layout → Prop
  | .whole start len => ∃ pre conf post, fields = pre ++ (conf, pin) :: post ∧
      (∀ f ∈ pre ++ post, Plain f) ∧ EncoderField .encoder start len conf pre
  | .lowHigh low lowLen high highLen => ∃ pre conf part mid conf' post,
      fields = pre ++ (conf, part) :: (mid ++ (conf', pin) :: post) ∧
      (∀ f ∈ pre ++ mid ++ post, Plain f) ∧ EncoderField .encoderL low lowLen conf pre ∧
      EncoderField .encoderH high highLen conf' (pre ++ (conf, part) :: mid)
  | .highLow high highLen low lowLen => ∃ pre conf part mid conf' post,
      fields = pre ++ (conf, pin) :: (mid ++ (conf', part) :: post) ∧
      (∀ f ∈ pre ++ mid ++ post, Plain f) ∧ EncoderField .encoderH high highLen conf pre ∧
      EncoderField .encoderL low lowLen conf' (pre ++ (conf, pin) :: mid)

/-! ### Runs -/

/-- What an encoder of `b` bits sends at a position. -/
def sent (graycode : Bool) (b : ℕ) (pos : ℤ) : BitVec 64 :=
  if graycode then gray (BitVec.ofInt 64 (pos % 2 ^ b)) else BitVec.ofInt 64 (pos % 2 ^ b)

/-- The first and the last true position that were read. -/
abbrev Seen := Option (ℤ × ℤ)

/-- One more position is read. -/
def Seen.next (seen : Seen) (pos : ℤ) : Seen := some ((seen.map Prod.fst).getD pos, pos)

/-- The true position minus the first one plus the first reading. -/
def accumulated (b : ℕ) : Seen → ℤ
  | none => 0
  | some (first, last) => last - first + first.bmod (2 ^ b)

/-- Fields with the same counter. -/
structure SameCounter (f f' : InField F) : Prop where
  conf : f'.1 = f.1
  graycode : f'.2.graycode = f.2.graycode
  oldval : f'.2.oldval = f.2.oldval
  accum : f'.2.accum = f.2.accum
  offset : f'.2.offset = f.2.offset

/-- Pins and parameters are changed by others; the counters are not. -/
def Channels.Rewired (w w' : Channels F) : Prop :=
  w'.statics = w.statics ∧
    ∀ c, List.Forall₂ SameCounter (w.chan c).confs (w'.chan c).confs

/-- The runs in which the channel `t` has the encoder, and moves by less than a quarter of the
range between two reads. `ok` holds before each read of this channel. -/
inductive Run (A : ReadArith F) (t : ℕ) (layout : Layout) (graycode : Bool)
    (ok : Channels F → Seen → ℤ → Prop) : Channels F → Seen → Prop
  | start {w : Channels F} {pin : InPins F} (hstatics : w.statics = Statics.start)
      (hpin : HasEncoder pin (w.chan t).confs layout) (hgray : pin.graycode = graycode)
      (hold : pin.oldval = 0) (haccum : pin.accum = 0) : Run A t layout graycode ok w none
  | other {w w' : Channels F} {seen : Seen} {c : ℕ} {regCsRead : BitVec 32} {regs : ReadRegs}
      (run : Run A t layout graycode ok w seen) (hc : c ≠ t)
      (hread : w.read A c regCsRead regs = some w') : Run A t layout graycode ok w' seen
  | hal {w w' : Channels F} {seen : Seen} (run : Run A t layout graycode ok w seen)
      (hrewired : w.Rewired w') : Run A t layout graycode ok w' seen
  | read {w w' : Channels F} {seen : Seen} {pos : ℤ} {regCsRead : BitVec 32} {regs : ReadRegs}
      (run : Run A t layout graycode ok w seen)
      (hraw : layout.raw regs = sent graycode layout.bits pos)
      (hmove : ∀ last ∈ seen.map Prod.snd, |pos - last| < 2 ^ (layout.bits - 2))
      (hok : ok w seen pos) (hread : w.read A t regCsRead regs = some w') :
      Run A t layout graycode ok w' (seen.next pos)

/-- The parts come in the order in which they are put together, and the static variables hold
nothing of another encoder. -/
def Assembled (s : Statics) (raw : BitVec 64) : Layout → Prop
  | .whole _ _ => True
  | .lowHigh _ _ _ _ => s.hFlag = 0 ∧ s.buffStore ||| raw = raw
  | .highLow _ _ _ _ => False

/-- No wrap is seen where there is none, and one that is seen can be corrected. -/
def Corrected (b : ℕ) (seen : Seen) (pos : ℤ) : Prop :=
  match seen with
  | none => |pos.bmod (2 ^ b)| ≤ 2 ^ (b - 2)
  | some (_, last) => b ≤ 30 ∨ |pos.bmod (2 ^ b) - last.bmod (2 ^ b)| ≤ 2 ^ (b - 2)

/-- A read behind which the position is right. -/
def Reliable (layout : Layout) (graycode : Bool) (w : Channels F) (seen : Seen) (pos : ℤ) : Prop :=
  layout.bits ≤ 32 ∧ Corrected layout.bits seen pos ∧
    Assembled w.statics (sent graycode layout.bits pos) layout ∧
    -2 ^ 63 ≤ accumulated layout.bits (seen.next pos) ∧
    accumulated layout.bits (seen.next pos) < 2 ^ 63

/-! ### The fields of a channel -/

/-- What stays of a field. -/
structure Kept (f f' : InField F) : Prop where
  input : f'.1.input = f.1.input
  dataLength : f'.1.dataLength = f.1.dataLength
  plain : Plain f → Plain f'

section Fields

variable {A : ReadArith F} {regs : ReadRegs} {s s' : Statics} {fields fields' : List (InField F)}
  {conf : Conf} {pin pin' : InPins F} {buff : BitVec 64} {bitcount : ℕ} {layout : Layout}

lemma numReadBits_append (l l' : List (InField F)) :
    numReadBits (l ++ l') = numReadBits l + numReadBits l' := by
  induction l with
  | nil => rw [List.nil_append, numReadBits, Nat.zero_add]
  | cons head rest ih =>
    obtain ⟨conf, pin⟩ := head
    rw [List.cons_append, numReadBits, numReadBits, ih, Nat.add_assoc]

lemma numReadBits_kept {l l' : List (InField F)} (h : List.Forall₂ Kept l l') :
    numReadBits l' = numReadBits l := by
  induction h with
  | nil => rfl
  | cons hhead _ ih =>
    rw [numReadBits, numReadBits, hhead.input, hhead.dataLength, ih]

lemma plain_kept {l l' : List (InField F)} (h : List.Forall₂ Kept l l') (hl : ∀ f ∈ l, Plain f) :
    ∀ f ∈ l', Plain f := by
  induction h with
  | nil => exact hl
  | cons hhead _ ih =>
    rw [List.forall_mem_cons] at hl ⊢
    exact ⟨hhead.plain hl.1, ih hl.2⟩

/-- Three parts of a list of which none is an encoder. -/
lemma plain_parts {pre pre' mid mid' post post' : List (InField F)}
    (hplain : ∀ f ∈ pre ++ mid ++ post, Plain f) (hpre : List.Forall₂ Kept pre pre')
    (hmid : List.Forall₂ Kept mid mid') (hpost : List.Forall₂ Kept post post') :
    ∀ f ∈ pre' ++ mid' ++ post', Plain f :=
  plain_kept (List.rel_append (List.rel_append hpre hmid) hpost) hplain

lemma kept_warned (conf : Conf) (pin pin' : InPins F) : Kept (conf, pin) (conf.warned, pin') := by
  rw [Conf.warned]
  split_ifs
  · exact ⟨rfl, rfl, fun _ _ => ⟨by simp, by simp, by simp⟩⟩
  · exact ⟨rfl, rfl, id⟩

/-- Reading changes no lengths. -/
lemma readConfs_kept (h : readConfs A regs fields bitcount s = some (s', fields')) :
    List.Forall₂ Kept fields fields' := by
  induction fields generalizing bitcount s s' fields' with
  | nil =>
    cases h
    exact .nil
  | cons head rest ih =>
    rw [readConfs] at h
    split_ifs at h
    · obtain ⟨⟨s1, pin1⟩, -, h⟩ := Option.bind_eq_some_iff.1 h
      obtain ⟨⟨s2, rest2⟩, hrest, h⟩ := Option.bind_eq_some_iff.1 h
      cases h
      exact .cons (kept_warned _ _ _) (ih hrest)
    · obtain ⟨⟨s2, rest2⟩, hrest, h⟩ := Option.bind_eq_some_iff.1 h
      cases h
      exact .cons ⟨rfl, rfl, id⟩ (ih hrest)

/-- Only parts of encoders use the static variables. -/
lemma readConf_plain (hplain : Plain (conf, pin)) (hin : conf.input = true)
    (h : readConf A s conf pin buff = some (s', pin')) : s' = s := by
  obtain ⟨henc, hhigh, hlow⟩ := hplain hin
  rw [readConf] at h
  split at h
  all_goals try contradiction
  all_goals try exact (Prod.mk.inj (Option.some.inj h)).1.symm
  split_ifs at h <;> exact (Prod.mk.inj (Option.some.inj h)).1.symm

lemma readConfs_plain (hplain : ∀ f ∈ fields, Plain f)
    (h : readConfs A regs fields bitcount s = some (s', fields')) : s' = s := by
  induction fields generalizing bitcount s s' fields' with
  | nil => exact (Prod.mk.inj (Option.some.inj h)).1.symm
  | cons head rest ih =>
    rw [List.forall_mem_cons] at hplain
    rw [readConfs] at h
    split_ifs at h with hin
    · obtain ⟨⟨s1, pin1⟩, hconf, h⟩ := Option.bind_eq_some_iff.1 h
      obtain ⟨⟨s2, rest2⟩, hrest, h⟩ := Option.bind_eq_some_iff.1 h
      cases h
      rw [ih hplain.2 hrest, readConf_plain hplain.1 hin hconf]
    · obtain ⟨⟨s2, rest2⟩, hrest, h⟩ := Option.bind_eq_some_iff.1 h
      cases h
      exact ih hplain.2 hrest

/-- The fields of a list that stay what they were, around a field. -/
lemma forall₂_cons_kept {R : InField F → InField F → Prop} {pre post : List (InField F)}
    {f : InField F} (h : List.Forall₂ R (pre ++ f :: post) fields') :
    ∃ pre' f' post', fields' = pre' ++ f' :: post' ∧ List.Forall₂ R pre pre' ∧ R f f' ∧
      List.Forall₂ R post post' := by
  induction pre generalizing fields' with
  | nil =>
    obtain ⟨f', post', hf, hpost, rfl⟩ := List.forall₂_cons_left_iff.1 h
    exact ⟨[], f', post', rfl, .nil, hf, hpost⟩
  | cons head rest ih =>
    obtain ⟨head', tail', hhead, htail, rfl⟩ := List.forall₂_cons_left_iff.1 h
    obtain ⟨pre', f', post', rfl, hpre, hf, hpost⟩ := ih htail
    exact ⟨head' :: pre', f', post', rfl, .cons hhead hpre, hf, hpost⟩

lemma EncoderField.kept {type : DataType} {start len : ℕ} {before before' : List (InField F)}
    (h : EncoderField type start len conf before) (hkept : List.Forall₂ Kept before before') :
    EncoderField type start len conf before' :=
  ⟨h.input, h.dataType, h.dataLength, (numReadBits_kept hkept).trans h.start_eq⟩

/-- The types of encoder fields are not changed. -/
lemma warned_eq (h : conf.dataType ≠ .float) : conf.warned = conf := by
  rw [Conf.warned, if_neg (fun hfloat => h hfloat.1)]

lemma shl_of_lt {x : BitVec 64} {n : ℕ} (h : n < 64) : A.shl x n = x <<< n := by
  rw [ReadArith.shl, if_pos ⟨by omega, by omega⟩, Int.toNat_natCast]

/-- The counter behind a read. -/
lemma HasEncoder.read (hpin : HasEncoder pin fields layout) (hbits : layout.bits ≤ 64)
    (hasm : Assembled s (layout.raw regs) layout)
    (h : readConfs A regs fields 0 s = some (s', fields')) :
    HasEncoder (pin.count A layout.bits (layout.raw regs)) fields' layout := by
  cases layout with
  | whole start len =>
    obtain ⟨pre, conf, post, rfl, hplain, hfield⟩ := hpin
    obtain ⟨s1, s2, pre', pin', post', hpre, hconf, hpost, rfl⟩ :=
      readConfs_field hfield.input h
    obtain rfl := readConfs_plain (fun f hf => hplain f (by simp [hf])) hpre
    rw [readConf_encoder hfield.dataType, Nat.zero_add, hfield.start_eq, hfield.dataLength]
      at hconf
    cases hconf
    rw [warned_eq (by rw [hfield.dataType]; decide)]
    exact ⟨pre', conf, post', rfl,
      plain_kept (List.rel_append (readConfs_kept hpre) (readConfs_kept hpost)) hplain,
      hfield.kept (readConfs_kept hpre)⟩
  | lowHigh low lowLen high highLen =>
    obtain ⟨pre, conf, part, mid, conf', post, rfl, hplain, hlow, hhigh⟩ := hpin
    obtain ⟨hflag, hstore⟩ := hasm
    obtain ⟨s1, s2, pre', part', rest', hpre, hconf, hrest, rfl⟩ :=
      readConfs_field hlow.input h
    obtain ⟨s3, s4, mid', pin', post', hmid, hconf', hpost, rfl⟩ :=
      readConfs_field hhigh.input hrest
    obtain rfl := readConfs_plain (fun f hf => hplain f (by simp [hf])) hpre
    have hstart : numReadBits pre + lowLen + numReadBits mid = high := by
      rw [← hhigh.start_eq, numReadBits_append, numReadBits, if_pos hlow.input, hlow.dataLength,
        Nat.add_assoc]
    have hlowlen : lowLen ≠ 0 := hlow.dataLength ▸ conf.length_pos.ne'
    have hhighlen : highLen ≠ 0 := hhigh.dataLength ▸ conf'.length_pos.ne'
    have hbits' : lowLen + highLen ≤ 64 := hbits
    -- the low part is stored
    rw [readConf_low hlow.dataType, Nat.zero_add, hlow.start_eq, hlow.dataLength] at hconf
    rw [if_neg (by simp [Statics.complete, Statics.low, hflag])] at hconf
    cases hconf
    obtain rfl := readConfs_plain (fun f hf => hplain f (by simp [hf])) hmid
    -- the high part completes it
    rw [readConf_high hhigh.dataType, Nat.zero_add, hlow.dataLength, hstart, hhigh.dataLength]
      at hconf'
    rw [if_pos (by simp [Statics.complete, Statics.high, Statics.low, hlowlen, hhighlen])]
      at hconf'
    cases hconf'
    have hraw : (Statics.high A highLen (getbits regs high highLen)
        (s1.low lowLen (getbits regs low lowLen))).buffStore
          = Layout.raw regs (.lowHigh low lowLen high highLen) := by
      rw [← hstore]
      simp only [Statics.high, Statics.low, Layout.raw, BitVec.or_assoc]
      rw [shl_of_lt (by omega : lowLen < 64)]
    rw [hraw, warned_eq (by rw [hlow.dataType]; decide),
      warned_eq (by rw [hhigh.dataType]; decide)]
    have hcount : (Statics.high A highLen (getbits regs high highLen)
          (s1.low lowLen (getbits regs low lowLen))).hFlag
        + (Statics.high A highLen (getbits regs high highLen)
          (s1.low lowLen (getbits regs low lowLen))).lFlag = lowLen + highLen :=
      Nat.add_comm highLen lowLen
    rw [hcount]
    exact ⟨pre', conf, part, mid', conf', post', rfl,
      plain_parts hplain (readConfs_kept hpre) (readConfs_kept hmid) (readConfs_kept hpost),
      hlow.kept (readConfs_kept hpre), hhigh.kept
        (List.rel_append (readConfs_kept hpre) (.cons ⟨rfl, rfl, id⟩ (readConfs_kept hmid)))⟩
  | highLow high highLen low lowLen => exact absurd hasm id

lemma SameCounter.kept {f f' : InField F} (h : SameCounter f f') : Kept f f' :=
  ⟨by rw [h.conf], by rw [h.conf], fun hplain => by rwa [Plain, h.conf]⟩

lemma kept_of_sameCounter {l l' : List (InField F)} (h : List.Forall₂ SameCounter l l') :
    List.Forall₂ Kept l l' :=
  h.imp fun _ _ => SameCounter.kept

/-- Two fields among others that are no encoders. -/
lemma parts_kept {pre mid post fields' : List (InField F)} {conf conf' : Conf}
    {pin pin' : InPins F}
    (hplain : ∀ f ∈ pre ++ mid ++ post, Plain f)
    (h : List.Forall₂ SameCounter (pre ++ (conf, pin) :: (mid ++ (conf', pin') :: post)) fields') :
    ∃ pre' pin1 mid' pin1' post',
      fields' = pre' ++ (conf, pin1) :: (mid' ++ (conf', pin1') :: post') ∧
      (∀ f ∈ pre' ++ mid' ++ post', Plain f) ∧ List.Forall₂ Kept pre pre' ∧
      List.Forall₂ Kept (pre ++ (conf, pin) :: mid) (pre' ++ (conf, pin1) :: mid') ∧
      SameCounter (conf, pin) (conf, pin1) ∧ SameCounter (conf', pin') (conf', pin1') := by
  obtain ⟨pre', ⟨conf1, pin1⟩, rest', rfl, hpre, hfirst, hrest⟩ := forall₂_cons_kept h
  obtain ⟨mid', ⟨conf2, pin2⟩, post', rfl, hmid, hsecond, hpost⟩ := forall₂_cons_kept hrest
  obtain rfl : conf1 = conf := hfirst.conf
  obtain rfl : conf2 = conf' := hsecond.conf
  exact ⟨pre', pin1, mid', pin2, post', rfl,
    plain_parts hplain (kept_of_sameCounter hpre) (kept_of_sameCounter hmid)
      (kept_of_sameCounter hpost),
    kept_of_sameCounter hpre,
    List.rel_append (kept_of_sameCounter hpre) (.cons hfirst.kept (kept_of_sameCounter hmid)),
    hfirst, hsecond⟩

/-- Others do not touch the counter. -/
lemma HasEncoder.rewired (hpin : HasEncoder pin fields layout)
    (h : List.Forall₂ SameCounter fields fields') :
    ∃ pin', HasEncoder pin' fields' layout ∧ pin'.graycode = pin.graycode ∧
      pin'.oldval = pin.oldval ∧ pin'.accum = pin.accum := by
  cases layout with
  | whole start len =>
    obtain ⟨pre, conf, post, rfl, hplain, hfield⟩ := hpin
    obtain ⟨pre', ⟨conf', pin'⟩, post', rfl, hpre, hsame, hpost⟩ := forall₂_cons_kept h
    obtain rfl : conf' = conf := hsame.conf
    exact ⟨pin', ⟨pre', conf', post', rfl,
      plain_kept (List.rel_append (kept_of_sameCounter hpre) (kept_of_sameCounter hpost)) hplain,
      hfield.kept (kept_of_sameCounter hpre)⟩, hsame.graycode, hsame.oldval, hsame.accum⟩
  | lowHigh low lowLen high highLen =>
    obtain ⟨pre, conf, part, mid, conf', post, rfl, hplain, hlow, hhigh⟩ := hpin
    obtain ⟨pre', part', mid', pin', post', rfl, hplain', hpre, hmid, -, hsame⟩ :=
      parts_kept hplain h
    exact ⟨pin', ⟨pre', conf, part', mid', conf', post', rfl, hplain', hlow.kept hpre,
      hhigh.kept hmid⟩, hsame.graycode, hsame.oldval, hsame.accum⟩
  | highLow high highLen low lowLen =>
    obtain ⟨pre, conf, part, mid, conf', post, rfl, hplain, hhigh, hlow⟩ := hpin
    obtain ⟨pre', pin', mid', part', post', rfl, hplain', hpre, hmid, hsame, -⟩ :=
      parts_kept hplain h
    exact ⟨pin', ⟨pre', conf, part', mid', conf', post', rfl, hplain', hhigh.kept hpre,
      hlow.kept hmid⟩, hsame.graycode, hsame.oldval, hsame.accum⟩

end Fields

/-! ### The counter -/

section Counter

variable {A : ReadArith F} {pin : InPins F} {b : ℕ} {buff64 pos last : ℤ}

lemma grayLoop_eq (fuel : ℕ) (mask buff : BitVec 64) :
    grayLoop fuel mask buff = decodeLoop fuel mask buff := by
  induction fuel generalizing mask buff with
  | zero => rfl
  | succ fuel ih =>
    rw [grayLoop, decodeLoop, ih]
    rfl

/-- The binary number behind the decoding. -/
lemma decoded_sent : pin.decoded (sent pin.graycode b pos) = BitVec.ofInt 64 (pos % 2 ^ b) := by
  rw [InPins.decoded, sent]
  split_ifs
  · rw [grayDecode, grayLoop_eq, decodeLoop_start]
  · rfl

/-- Up to 32 bits the sign is extended. -/
lemma signExtend_sent (hpos : 0 < b) (hb : b ≤ 32) :
    signExtend A b (BitVec.ofInt 64 (pos % 2 ^ b)) = pos.bmod (2 ^ b) := by
  obtain ⟨k, rfl⟩ : ∃ k, b = k + 1 := ⟨b - 1, by omega⟩
  have hone : (A.one ((k + 1 : ℕ) - 1)).setWidth 64 = BitVec.twoPow 64 k := by
    rw [A.one_of_lt (by omega) (by omega)]
    have hk : (((k + 1 : ℕ) : ℤ) - 1).toNat = k := by omega
    rw [hk]
    refine BitVec.eq_of_toNat_eq ?_
    rw [BitVec.toNat_setWidth, BitVec.toNat_shiftLeft, BitVec.toNat_twoPow, Nat.shiftLeft_eq]
    have hlt : 2 ^ k < 2 ^ 32 := Nat.pow_lt_pow_right (by norm_num) (by omega)
    have hone : (1 : BitVec 32).toNat = 1 := rfl
    rw [hone, Nat.one_mul, Nat.mod_eq_of_lt hlt]
  rw [signExtend, hone]
  exact toInt_xor_sub (by omega) pos

/-- Below 31 bits `1 << n` is positive. -/
lemma one_toInt {n : ℕ} (h : n < 31) : (A.one n).toInt = 2 ^ n := by
  rw [A.one_of_lt (by omega) (by omega), Int.toNat_natCast]
  have hlt : 2 ^ n < 2 ^ 31 := Nat.pow_lt_pow_right (by norm_num) h
  have hnat : ((1 : BitVec 32) <<< n).toNat = 2 ^ n := by
    rw [BitVec.toNat_shiftLeft, Nat.shiftLeft_eq]
    have hone : (1 : BitVec 32).toNat = 1 := rfl
    rw [hone, Nat.one_mul, Nat.mod_eq_of_lt (by omega)]
  rw [BitVec.toInt_eq_toNat_of_lt (by omega), hnat]
  push_cast
  rfl

lemma one_quarter (h3 : 3 ≤ b) (hb : b ≤ 32) : (A.one (b - 2)).toInt = 2 ^ (b - 2) := by
  have hcast : (b : ℤ) - 2 = (b - 2 : ℕ) := by omega
  rw [hcast]
  exact one_toInt (by omega)

lemma quarter_le (hb : b ≤ 32) : (2 : ℤ) ^ (b - 2) ≤ 2 ^ 30 :=
  pow_le_pow_right₀ (by norm_num) (by omega)

/-- A difference below the threshold is added. -/
lemma accumulate_straight (h3 : 3 ≤ b) (hb : b ≤ 32)
    (h : |buff64 - pin.oldval| ≤ 2 ^ (b - 2)) :
    (pin.accumulate A b buff64).accum = wrapLong (pin.accum + (buff64 - pin.oldval)) := by
  have hle := quarter_le hb
  rw [abs_le] at h
  have hdiff : wrapLong (buff64 - pin.oldval) = buff64 - pin.oldval :=
    wrapLong_eq (by omega) (by omega)
  have hdiff' : wrapLong (pin.oldval - buff64) = pin.oldval - buff64 :=
    wrapLong_eq (by omega) (by omega)
  rw [InPins.accumulate]
  dsimp only
  rw [one_quarter h3 hb, hdiff, hdiff', if_neg (by omega : ¬ buff64 - pin.oldval > 2 ^ (b - 2)),
    if_neg (by omega : ¬ pin.oldval - buff64 > 2 ^ (b - 2))]

/-- The range is four times the threshold. -/
lemma two_pow_eq (h3 : 3 ≤ b) : 2 ^ b = 4 * 2 ^ (b - 2) := by
  obtain ⟨k, rfl⟩ : ∃ k, b = k + 2 := ⟨b - 2, by omega⟩
  rw [Nat.add_sub_cancel, pow_add, mul_comm]
  norm_num

/-- Two readings and the move between them. -/
lemma reading_cases (h3 : 3 ≤ b) (hmove : |pos - last| < 2 ^ (b - 2)) :
    pos.bmod (2 ^ b) - last.bmod (2 ^ b) = pos - last ∨
      pos.bmod (2 ^ b) - last.bmod (2 ^ b) = pos - last + 4 * 2 ^ (b - 2) ∨
      pos.bmod (2 ^ b) - last.bmod (2 ^ b) = pos - last - 4 * 2 ^ (b - 2) := by
  rw [two_pow_eq h3]
  exact_mod_cast @bmod_sub_cases (2 ^ (b - 2)) last pos (by exact_mod_cast hmove)

/-- Up to 30 bits a wrap is corrected. -/
lemma accumulate_move (h3 : 3 ≤ b) (hb : b ≤ 30) (hold : pin.oldval = last.bmod (2 ^ b))
    (hmove : |pos - last| < 2 ^ (b - 2)) :
    (pin.accumulate A b (pos.bmod (2 ^ b))).accum = wrapLong (pin.accum + (pos - last)) := by
  have hle := quarter_le (by omega : b ≤ 32)
  have hcases := reading_cases h3 hmove
  rw [← hold] at hcases
  have hone : (A.one b).toInt = 4 * 2 ^ (b - 2) := by
    rw [one_toInt (by omega)]
    exact_mod_cast two_pow_eq h3
  rw [abs_lt] at hmove
  rw [InPins.accumulate]
  dsimp only
  rw [one_quarter h3 (by omega), hone]
  generalize pos.bmod (2 ^ b) = buff64 at hcases ⊢
  have hdiff : wrapLong (buff64 - pin.oldval) = buff64 - pin.oldval :=
    wrapLong_eq (by omega) (by omega)
  have hdiff' : wrapLong (pin.oldval - buff64) = pin.oldval - buff64 :=
    wrapLong_eq (by omega) (by omega)
  rw [hdiff, hdiff']
  rcases hcases with h | h | h
  · rw [if_neg (by omega : ¬ buff64 - pin.oldval > 2 ^ (b - 2)),
      if_neg (by omega : ¬ pin.oldval - buff64 > 2 ^ (b - 2)), h]
  · rw [if_pos (by omega : buff64 - pin.oldval > 2 ^ (b - 2)), wrapLong_add]
    exact congrArg wrapLong (by omega)
  · rw [if_neg (by omega : ¬ buff64 - pin.oldval > 2 ^ (b - 2)),
      if_pos (by omega : pin.oldval - buff64 > 2 ^ (b - 2)), wrapLong_add]
    exact congrArg wrapLong (by omega)

/-- The last reading; none is zero. -/
def lastReading (b : ℕ) : Seen → ℤ
  | none => 0
  | some (_, last) => last.bmod (2 ^ b)

/-- A reliable read keeps the position right. -/
lemma accumulate_reliable {seen : Seen} (h3 : 3 ≤ b) (hb : b ≤ 32)
    (hold : pin.oldval = lastReading b seen) (haccum : pin.accum = accumulated b seen)
    (hmove : ∀ last ∈ seen.map Prod.snd, |pos - last| < 2 ^ (b - 2))
    (hcorrect : Corrected b seen pos)
    (hlow : -2 ^ 63 ≤ accumulated b (seen.next pos))
    (hhigh : accumulated b (seen.next pos) < 2 ^ 63) :
    (pin.accumulate A b (pos.bmod (2 ^ b))).accum = accumulated b (seen.next pos) := by
  refine Eq.trans ?_ (wrapLong_eq hlow hhigh)
  match seen with
  | none =>
    have hold0 : pin.oldval = 0 := hold
    have haccum0 : pin.accum = 0 := haccum
    have hle : |pos.bmod (2 ^ b)| ≤ 2 ^ (b - 2) := hcorrect
    rw [accumulate_straight h3 hb (by rwa [hold0, sub_zero]), hold0, haccum0]
    exact congrArg wrapLong (by simp [Seen.next, accumulated])
  | some (first, last) =>
    have hlast : |pos - last| < 2 ^ (b - 2) := hmove last rfl
    have hacc : pin.accum = last - first + first.bmod (2 ^ b) := haccum
    have hmoved : (pin.accumulate A b (pos.bmod (2 ^ b))).accum
        = wrapLong (pin.accum + (pos - last)) := by
      rcases (hcorrect : b ≤ 30 ∨ |pos.bmod (2 ^ b) - last.bmod (2 ^ b)| ≤ 2 ^ (b - 2))
        with h30 | hle
      · exact accumulate_move h3 h30 hold hlast
      · have hcases := reading_cases h3 hlast
        have hold' : pin.oldval = last.bmod (2 ^ b) := hold
        rw [accumulate_straight h3 hb (by rwa [hold']), hold']
        rw [abs_le] at hle
        rw [abs_lt] at hlast
        exact congrArg wrapLong (by omega)
    rw [hmoved, hacc]
    simp only [Seen.next, accumulated, Option.map_some, Option.getD_some]
    congr 1
    ring

@[simp] lemma InPins.index_graycode (previous : ℤ) (pin : InPins F) :
    (pin.index previous).graycode = pin.graycode := by
  rw [InPins.index]
  dsimp only
  split_ifs <;> rfl

lemma InPins.count_graycode (buff : BitVec 64) : (pin.count A b buff).graycode = pin.graycode := by
  simp only [InPins.count, InPins.publish, InPins.index_graycode]
  split_ifs <;> rfl

end Counter

/-! ### Runs of reliable reads -/

section Runs

variable {A : ReadArith F} {t : ℕ} {layout : Layout} {graycode : Bool}
  {ok : Channels F → Seen → ℤ → Prop} {w w' : Channels F} {seen : Seen}

/-- The counter of the channel is right. -/
def Tracked (t : ℕ) (layout : Layout) (graycode : Bool) (w : Channels F) (seen : Seen) : Prop :=
  ∃ pin, HasEncoder pin (w.chan t).confs layout ∧ pin.graycode = graycode ∧
    pin.oldval = lastReading layout.bits seen ∧ pin.accum = accumulated layout.bits seen

lemma read_eq_some {c : ℕ} {regCsRead : BitVec 32} {regs : ReadRegs}
    (h : w.read A c regCsRead regs = some w') :
    ∃ s confs, readConfs A regs (w.chan c).confs 0 w.statics = some (s, confs) ∧
      w'.chan = Function.update w.chan c ⟨regCsRead, confs⟩ := by
  obtain ⟨⟨s, chan⟩, hread, h⟩ := Option.bind_eq_some_iff.1 h
  obtain ⟨⟨s', confs⟩, hconfs, hchan⟩ := Option.bind_eq_some_iff.1 hread
  obtain ⟨-, rfl⟩ := Prod.mk.inj (Option.some.inj hchan)
  cases h
  exact ⟨s', confs, hconfs, rfl⟩

lemma Tracked.other {c : ℕ} {regCsRead : BitVec 32} {regs : ReadRegs}
    (h : Tracked t layout graycode w seen) (hc : c ≠ t)
    (hread : w.read A c regCsRead regs = some w') : Tracked t layout graycode w' seen := by
  obtain ⟨s, confs, -, hchan⟩ := read_eq_some hread
  rw [Tracked, hchan, Function.update_of_ne hc.symm]
  exact h

lemma Tracked.hal (h : Tracked t layout graycode w seen) (hrewired : w.Rewired w') :
    Tracked t layout graycode w' seen := by
  obtain ⟨pin, hpin, hgray, hold, haccum⟩ := h
  obtain ⟨pin', hpin', hgray', hold', haccum'⟩ := hpin.rewired (hrewired.2 t)
  exact ⟨pin', hpin', hgray'.trans hgray, hold'.trans hold, haccum'.trans haccum⟩

lemma Tracked.read {pos : ℤ} {regCsRead : BitVec 32} {regs : ReadRegs}
    (h : Tracked t layout graycode w seen) (h3 : 3 ≤ layout.bits)
    (hraw : layout.raw regs = sent graycode layout.bits pos)
    (hmove : ∀ last ∈ seen.map Prod.snd, |pos - last| < 2 ^ (layout.bits - 2))
    (hok : Reliable layout graycode w seen pos) (hread : w.read A t regCsRead regs = some w') :
    Tracked t layout graycode w' (seen.next pos) := by
  obtain ⟨pin, hpin, hgray, hold, haccum⟩ := h
  obtain ⟨hb, hcorrect, hasm, hlow, hhigh⟩ := hok
  obtain ⟨s, confs, hconfs, hchan⟩ := read_eq_some hread
  have hpin' := hpin.read (by omega) (by rwa [hraw]) hconfs
  have hbuff64 : signExtend A layout.bits (pin.decoded (layout.raw regs))
      = pos.bmod (2 ^ layout.bits) := by
    rw [hraw, ← hgray, decoded_sent, signExtend_sent (by omega) hb]
  refine ⟨pin.count A layout.bits (layout.raw regs), ?_, (InPins.count_graycode _).trans hgray,
    ?_, ?_⟩
  · rw [hchan, Function.update_self]
    exact hpin'
  · rw [InPins.count, InPins.publish_oldval, hbuff64]
    rfl
  · rw [InPins.count_accum, hbuff64]
    exact accumulate_reliable h3 hb hold haccum hmove hcorrect hlow hhigh

lemma Run.tracked (h3 : 3 ≤ layout.bits)
    (run : Run A t layout graycode (Reliable layout graycode) w seen) :
    Tracked t layout graycode w seen := by
  induction run with
  | start _ hpin hgray hold haccum => exact ⟨_, hpin, hgray, hold, haccum⟩
  | other _ hc hread ih => exact ih.other hc hread
  | hal _ hrewired ih => exact ih.hal hrewired
  | read _ hraw hmove hok hread ih => exact ih.read h3 hraw hmove hok hread

/-- **Accumulation.** A channel has one encoder, of one field or of two parts, among any other
fields, and other channels are read in between. The true position moves by less than a quarter of
the range from read to read. In every run whose reads of this channel are reliable, the counter is
always the true position minus the first one plus the first reading. -/
theorem run_accum (A : ReadArith F) (t : ℕ) (layout : Layout) (graycode : Bool) (w : Channels F)
    (seen : Seen) (h3 : 3 ≤ layout.bits)
    (run : Run A t layout graycode (Reliable layout graycode) w seen) :
    ∃ pin, HasEncoder pin (w.chan t).confs layout ∧ pin.accum = accumulated layout.bits seen := by
  obtain ⟨pin, hpin, -, -, haccum⟩ := run.tracked h3
  exact ⟨pin, hpin, haccum⟩

end Runs

/-! ### A field of 16 bits -/

lemma sixteen_pos : 0 < 16 := by decide

lemma sixteen_le : 16 ≤ 64 := by decide

/-- An encoder that sends 16 bits. -/
def absoluteConf : Conf := ⟨16, .encoder, .lbpIn, sixteen_pos, sixteen_le⟩

/-- Its registers at a position. -/
def absoluteRegs (pos : ℤ) : ReadRegs := ⟨some (BitVec.ofInt 32 (pos % 2 ^ 16)), none, none⟩

/-- Numbers for the pins. -/
abbrev pinArith : ReadArith ℚ := .exact (fun _ => 0) (fun _ _ => 0) 0

/-- The counter behind reads at some positions, the last one first. -/
def absolutePin : List ℤ → InPins ℚ
  | [] => .start 0 1
  | pos :: rest => (absolutePin rest).count pinArith 16 (getbits (absoluteRegs pos) 0 16)

/-- One channel. -/
def absoluteChannel (positions : List ℤ) : Channels ℚ where
  statics := .start
  chan := Function.update (fun _ => ⟨0, []⟩) 0 ⟨0, [(absoluteConf, absolutePin positions)]⟩

lemma absoluteChannel_hasEncoder (positions : List ℤ) : HasEncoder (absolutePin positions)
    ((absoluteChannel positions).chan 0).confs (.whole 0 16) :=
  ⟨[], absoluteConf, [], rfl, by simp, rfl, rfl, rfl, rfl⟩

lemma absoluteChannel_read (positions : List ℤ) (pos : ℤ) :
    (absoluteChannel positions).read pinArith 0 0 (absoluteRegs pos)
      = some (absoluteChannel (pos :: positions)) := by
  have hread : (absoluteChannel positions).read pinArith 0 0 (absoluteRegs pos)
      = some ⟨.start, Function.update (absoluteChannel positions).chan 0
          ⟨0, [(absoluteConf, absolutePin (pos :: positions))]⟩⟩ := rfl
  rw [hread, absoluteChannel, Function.update_idem]
  rfl

lemma absoluteChannel_run {ok : Channels ℚ → Seen → ℤ → Prop} {positions : List ℤ} {seen : Seen}
    (pos : ℤ) (run : Run pinArith 0 (.whole 0 16) false ok (absoluteChannel positions) seen)
    (hraw : getbits (absoluteRegs pos) 0 16 = sent false 16 pos)
    (hmove : ∀ last ∈ seen.map Prod.snd, |pos - last| < 2 ^ 14)
    (hok : ok (absoluteChannel positions) seen pos) :
    Run pinArith 0 (.whole 0 16) false ok (absoluteChannel (pos :: positions)) (seen.next pos) :=
  run.read hraw hmove hok (absoluteChannel_read positions pos)

/-- At the third read the field has wrapped. -/
theorem run_accum_wrapped : ∃ pin, HasEncoder pin
    ((absoluteChannel [33000, 32000, 16000]).chan 0).confs (.whole 0 16) ∧ pin.accum = 33000 := by
  have hstart : Run pinArith 0 (.whole 0 16) false (Reliable (.whole 0 16) false)
      (absoluteChannel []) none := .start rfl (absoluteChannel_hasEncoder []) rfl rfl rfl
  have hfirst := absoluteChannel_run 16000 hstart (by decide) (by simp)
    ⟨by decide, show |(16000 : ℤ).bmod (2 ^ 16)| ≤ 2 ^ 14 by decide, trivial, by decide,
      by decide⟩
  have hsecond := absoluteChannel_run 32000 hfirst (by decide) (by simp [Seen.next])
    ⟨by decide, .inl (by decide), trivial, by decide, by decide⟩
  exact run_accum pinArith 0 (.whole 0 16) false _ _ (by decide)
    (absoluteChannel_run 33000 hsecond (by decide) (by simp [Seen.next])
      ⟨by decide, .inl (by decide), trivial, by decide, by decide⟩)

/-- The first reading is 20000, and the counter -45536. -/
theorem accum_first_reading : ¬ ∀ (F : Type) (A : ReadArith F) (t : ℕ) (layout : Layout)
    (graycode : Bool) (w : Channels F) (seen : Seen), 3 ≤ layout.bits → layout.bits ≤ 64 →
    Run A t layout graycode (fun _ _ _ => True) w seen →
    ∃ pin, HasEncoder pin (w.chan t).confs layout ∧
      pin.accum = accumulated layout.bits seen := by
  intro h
  obtain ⟨pin, ⟨pre, conf, post, hfields, -, -⟩, haccum⟩ :=
    h ℚ pinArith 0 (.whole 0 16) false (absoluteChannel [20000]) (some (20000, 20000)) (by decide)
      (by decide)
      (absoluteChannel_run 20000 (.start rfl (absoluteChannel_hasEncoder []) rfl rfl rfl)
        (by decide) (by simp) trivial)
  have hpin : pin = absolutePin [20000] := by
    cases pre with
    | nil => exact (Prod.mk.inj (List.cons.inj hfields).1).2.symm
    | cons head rest => exact absurd (List.cons.inj hfields).2 (by simp)
  rw [hpin] at haccum
  exact absurd haccum (by decide)

end MachinekitHal.Sserial
