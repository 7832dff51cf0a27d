import IotController.Sequencer
import Mathlib.Data.List.GetD

/-! # Sampled bits and committed words

A history of what SDA carried runs beside the registers: the samples of the
transaction under way, whether one of its acknowledge slots was left high, and
the samples of the last completed read. The outputs are the words of that read
and nothing else, whatever `rx_data` held before. -/
namespace IotController.Samples
open IotController.Controller IotController.I2c IotController.Sequencer

/-! ## Bytes of a list of samples -/

/-- Byte `m` of a list of samples, most significant bit first. -/
def byteAt (l : List Bool) (m : Nat) : BitVec 8 :=
  ofBits ((List.range 8).map fun i => l.getD (8 * m + i) false)

theorem getLsbD_byteAt (l : List Bool) (m : Nat) (j : Fin 8) :
    (byteAt l m).getLsbD j = l.getD (8 * m + (7 - j)) false :=
  getLsbD_ofBits (fun i => l.getD (8 * m + i) false) j

theorem getLsbD_byteAt_append (l : List Bool) (x : Bool) (m : Nat) (j : Fin 8)
    (h : 8 * m + (7 - j) < l.length) :
    (byteAt (l ++ [x]) m).getLsbD j = (byteAt l m).getLsbD j := by
  rw [getLsbD_byteAt, getLsbD_byteAt, List.getD_append _ _ _ _ h]

theorem byteAt_append (l : List Bool) (x : Bool) (m : Nat) (h : 8 * (m + 1) ≤ l.length) :
    byteAt (l ++ [x]) m = byteAt l m := by
  apply BitVec.eq_of_getLsbD_eq
  intro j hj
  exact getLsbD_byteAt_append l x m ⟨j, hj⟩ (by dsimp only; omega)

theorem getLsbD_writeBit (v : BitVec 8) (i j : Fin 8) (b : Bool) :
    (writeBit v i b).getLsbD j = if j = i then b else v.getLsbD j := by
  have hone : (1#8 <<< i.val).getLsbD j = decide (j = i) := by revert i j; decide
  have hbit : ((BitVec.ofBool b).zeroExtend 8 <<< i.val).getLsbD j = (decide (j = i) && b) := by
    revert i j b; decide
  simp only [writeBit, BitVec.getLsbD_or, BitVec.getLsbD_and, BitVec.getLsbD_not, hone, hbit,
    j.isLt]
  by_cases h : j = i <;> simp [h]

/-! ## The data registers inside a read -/

/-- The bytes already read are those of `B`: whole ones in `rx_data`, the bits
above the current one in `data_buffer`. -/
def Holds (B : Nat → BitVec 8) (c : Regs) : Slot → Prop
  | .recv n k => (∀ m < n.val, c.rx m = B m) ∧
      ∀ j : Fin 8, k < j ∨ j = k ∧ c.phase = 3#2 → c.dataBuffer.getLsbD j = (B n).getLsbD j
  | .reply n => ∀ m ≤ n.val, c.rx m = B m
  | .stop => ∀ m < 14, c.rx m = B m
  | _ => True

section
variable {P : BitVec 8} {cw : Bool} {s s' : Slot} {c : Regs} {B : Nat → BitVec 8}

theorem rx_of_data {c' : Regs} (h : c'.data = c.data) : c'.rx = c.rx := by
  funext m
  exact congrArg (fun d => d.1.getD m 0) h

theorem getD_setIfInBounds (v : Vector (BitVec 8) 14) (n : Fin 14) (b : BitVec 8) (m : Nat) :
    (v.setIfInBounds n b).getD m 0 = if m = n then b else v.getD m 0 := by
  have hD (w : Vector (BitVec 8) 14) : w.getD m 0 = if h : m < 14 then w[m] else 0 := by
    simp [Vector.getD, Array.getD]
  rw [hD, hD]
  by_cases h : m = n
  · simp [h]
  · by_cases hm : m < 14
    · simp [h, hm, Vector.getElem_setIfInBounds_ne hm (Ne.symm h)]
    · simp [h, hm]

/-- No data register moves in a slot that is not READ_DATA. -/
theorem tick_rx (h : At P cw s c) (hs : ∀ n k, s ≠ .recv n k) (x : Bool) :
    (tick P c x).rx = c.rx := by
  by_cases hstop : s = .stop
  · subst hstop
    rw [h.tick_eq x]
    funext m
    simp only [Slot.arm, Regs.stop]
    split <;> try rfl
    split <;> rfl
  · refine rx_of_data (tick_data c x P ?_ ?_) <;> rw [h.state] <;> intro he
    · obtain ⟨n, k, rfl⟩ := Slot.recv_of_state he
      exact hs n k rfl
    · exact hstop (Slot.stop_of_state he)

/-- A sample that is the bit of `B` at its place keeps `Holds`. -/
theorem Holds.within (hB : Holds B c s) (h : At P cw s c) (hp : c.phase ≠ 3#2) (x : Bool)
    (hx : ∀ n k, s = .recv n k → c.phase = 2#2 → x = (B n).getLsbD k) :
    Holds B (tick P c x) s := by
  cases s with
  | recv n k =>
    obtain ⟨hbytes, hbits⟩ := hB
    obtain ⟨hk, hb⟩ : c.bitCnt = BitVec.ofNat 4 k ∧ c.byteCnt = BitVec.ofNat 4 n := h.counters
    rw [h.tick_eq x]
    rcases phase_cases c.phase with p | p | p | p
    · simp only [Slot.arm, Regs.readData, Regs.next, p]
      exact ⟨hbytes, fun j hj => hbits j (by simpa [p] using hj)⟩
    · simp only [Slot.arm, Regs.readData, Regs.next, p]
      exact ⟨hbytes, fun j hj => hbits j (by simpa [p] using hj)⟩
    · simp only [Slot.arm, Regs.readData, Regs.next, p, hk, toNat_ofNat_fin]
      refine ⟨hbytes, ?_⟩
      intro j hj
      rw [getLsbD_writeBit]
      by_cases hjk : j = k
      · rw [if_pos hjk, hjk]
        exact hx n k rfl p
      · rw [if_neg hjk]
        exact hbits j (.inl (hj.resolve_right (fun h => hjk h.1)))
    · exact absurd p hp
  | reply n => simpa only [Holds, tick_rx h (by simp) x] using hB
  | stop => simpa only [Holds, tick_rx h (by simp) x] using hB
  | start | bit | ack | restart => trivial

theorem above_pred : ∀ k j : Fin 8, k ≠ 0 → k - 1 < j → k < j ∨ j = k := by decide

/-- At the start of a byte no bit of it has been read. -/
theorem no_bit_read {b : BitVec 8} (hp : c.phase = 0#2) (j : Fin 8)
    (hj : 7 < j ∨ j = 7 ∧ c.phase = 3#2) : c.dataBuffer.getLsbD j = b.getLsbD j := by
  rcases hj with hj | ⟨_, hj⟩
  · exact absurd hj (by omega)
  · rw [hp] at hj; exact absurd hj (by decide)

theorem Holds.last (hB : Holds B c s) (h : At P false s c) (hp : c.phase = 3#2) (x : Bool)
    (hn : s.next false = some s') : Holds B (tick P c x) s' := by
  have hp' := (h.tick_last hp x hn).2
  cases s with
  | recv n k =>
    obtain ⟨hbytes, hbits⟩ := hB
    obtain ⟨hk, hb⟩ : c.bitCnt = BitVec.ofNat 4 k ∧ c.byteCnt = BitVec.ofNat 4 n := h.counters
    have toNat : (BitVec.ofNat 4 n).toNat = n := by simp; omega
    cases hn
    rw [h.tick_eq x]
    simp only [Slot.arm, Regs.readData, Regs.next, hp, hk, hb, toNat, ofNat_eq_zero_iff]
    by_cases h0 : k = 0
    · subst h0
      have hdata : c.dataBuffer = B n := by
        apply BitVec.eq_of_getLsbD_eq
        intro j hj
        refine hbits ⟨j, hj⟩ ?_
        rcases Nat.eq_zero_or_pos j with rfl | hpos
        · exact .inr ⟨rfl, hp⟩
        · exact .inl hpos
      simp only [if_true]
      intro m hm
      simp only [Regs.rx, getD_setIfInBounds]
      split
      · rename_i he; rw [he, hdata]
      · exact hbytes m (by omega)
    · simp only [if_neg h0]
      refine ⟨hbytes, fun j hj => hbits j ?_⟩
      rcases hj with hj | ⟨_, hj⟩
      · exact (above_pred k j h0 hj).imp_right fun he => ⟨he, hp⟩
      · simp at hj
  | reply n =>
    have hrx := tick_rx h (by simp) x
    cases hn
    by_cases h13 : n = 13
    · simp only [if_pos h13]
      intro m hm
      rw [hrx]
      exact hB m (by subst h13; exact Nat.le_of_lt_succ hm)
    · simp only [if_neg h13]
      have hsucc := val_succ n h13
      refine ⟨?_, no_bit_read hp'⟩
      intro m hm
      rw [hrx]
      exact hB m (by omega)
  | ack f =>
    cases hn
    cases f with
    | rdDevAddr =>
      exact ⟨fun m hm => absurd hm (Nat.not_lt_zero m), no_bit_read hp'⟩
    | devAddr | regAddr => trivial
    | regData => exact absurd h.allowed (by decide)
  | stop => cases hn
  | start | restart => cases hn; trivial
  | bit f k => cases hn; split <;> trivial

end

/-! ## The history -/

/-- What SDA carried, kept beside the registers. -/
structure History where
  /-- samples of READ_DATA in the transaction under way -/
  cur : List Bool
  /-- an acknowledge slot of the transaction under way was high with SCL high -/
  nacked : Bool
  /-- samples of the last completed read -/
  last : Option (List Bool)
deriving DecidableEq

def History.empty : History := ⟨[], false, none⟩

def History.tick (c : Regs) (h : History) (sda : Bool) : History where
  cur :=
    if c.state = State.idle then []
    else if c.state = State.readData ∧ c.phase = 2 then h.cur ++ [sda]
    else h.cur
  nacked :=
    if c.state = State.idle then false
    else if c.state = State.ackCheck ∧ c.i2cScl then h.nacked || sda
    else h.nacked
  last := if c.Commits then some h.cur else h.last

/-- A tick with what SDA carries, or a reset. -/
inductive Input where
  | tick (sda : Bool)
  | reset

def step (regAddrStart : BitVec 8) (o : Regs × History) : Input → Regs × History
  | .tick sda => (Controller.tick regAddrStart o.1 sda, o.2.tick o.1 sda)
  | .reset => (o.1.reset, .empty)

def run (regAddrStart : BitVec 8) (o : Regs × History) (ins : List Input) : Regs × History :=
  ins.foldl (step regAddrStart) o

/-- How many samples a read has taken at phase `ph` of a slot. -/
def count (ph : BitVec 2) : Slot → Nat
  | .recv n k => 8 * n + (7 - k) + (if ph = 3#2 then 1 else 0)
  | .reply n => 8 * (n + 1)
  | .stop => 112
  | _ => 0

/-- In a read the data registers hold the samples taken so far. -/
def Place (P : BitVec 8) (c : Regs) (cur : List Bool) : Prop :=
  Waiting c ∨ (∃ s, At P true s c) ∨
    ∃ s, At P false s c ∧ cur.length = count c.phase s ∧ Holds (byteAt cur) c s

/-- The outputs hold the words of the last completed read. -/
def Committed (out : Outputs) : Option (List Bool) → Prop
  | none => out = .zero
  | some l => l.length = 112 ∧ out = mapOutputs (byteAt l)

theorem Place.commits {P : BitVec 8} {c : Regs} {cur : List Bool} (h : Place P c cur)
    (hc : c.Commits) : cur.length = 112 ∧ mapOutputs c.rx = mapOutputs (byteAt cur) := by
  obtain ⟨he, hw⟩ := hc
  rcases h with h | ⟨s, h⟩ | ⟨s, h, hlen, hB⟩
  · exact absurd he h.not_ends
  · exact absurd (h.configWrite.symm.trans hw) (by decide)
  · obtain rfl := h.stop_of_ends he
    exact ⟨hlen, mapOutputs_congr hB⟩

theorem count_last {s s' : Slot} (h : s.next false = some s') (ha : s.allowed false = true) :
    count 0#2 s' = count 3#2 s := by
  cases s with
  | recv n k =>
    cases h
    by_cases h0 : k = 0
    · subst h0; simp [count]; omega
    · have := pred_val k h0
      simp [count, h0]; omega
  | reply n =>
    cases h
    by_cases h13 : n = 13
    · subst h13; rfl
    · have := val_succ n h13
      simp only [count, if_neg h13, this]
      rfl
  | ack f => cases h; cases f <;> first | rfl | exact absurd ha (by decide)
  | stop => cases h
  | start | restart => cases h; rfl
  | bit f k => cases h; split <;> rfl

theorem count_within {s : Slot} {ph : BitVec 2} (h : ph ≠ 3#2)
    (hs : ∀ n k, s = .recv n k → ph ≠ 2#2) : count (ph + 1) s = count ph s := by
  cases s with
  | recv n k =>
    have h2 := hs n k rfl
    rcases phase_cases ph with rfl | rfl | rfl | rfl <;> first | rfl | contradiction
  | _ => rfl

/-- One more sample does not disturb the bytes already read. -/
theorem Holds.append {c : Regs} {cur : List Bool} {n : Fin 14} {k : Fin 8}
    (hB : Holds (byteAt cur) c (.recv n k)) (hp : c.phase = 2#2)
    (hlen : cur.length = 8 * n + (7 - k)) (x : Bool) :
    Holds (byteAt (cur ++ [x])) c (.recv n k) := by
  constructor
  · intro m hm
    rw [byteAt_append cur x m (by omega)]
    exact hB.1 m hm
  · intro j hj
    have hkj : k < j := hj.resolve_right (fun h => absurd (hp.symm.trans h.2) (by decide))
    rw [getLsbD_byteAt_append cur x n j (by omega)]
    exact hB.2 j hj

theorem Place.tick {P : BitVec 8} {c : Regs} {h : History} (hpl : Place P c h.cur) (x : Bool) :
    Place P (tick P c x) (h.tick c x).cur := by
  rcases hpl with hw | ⟨s, hs⟩ | ⟨s, hs, hlen, hB⟩
  · rcases hw.tick (P := P) x with ⟨h', _⟩ | ⟨hidle, h', hp'⟩
    · exact .inl h'
    · cases hd : c.configDone <;> rw [hd] at h'
      · exact .inr (.inl ⟨_, h'⟩)
      · exact .inr (.inr ⟨_, h', by simp [History.tick, hidle, count], trivial⟩)
  · rcases hs.step x with ⟨he, rfl⟩ | ⟨_, s', _, h', _⟩ | ⟨_, h', _⟩
    · exact .inl (hs.tick_stop he.2 x).1
    · exact .inr (.inl ⟨_, h'⟩)
    · exact .inr (.inl ⟨_, h'⟩)
  · have hidle : c.state ≠ State.idle := by rw [hs.state]; exact s.state_ne_idle
    rcases hs.step x with ⟨he, rfl⟩ | ⟨hp, s', hn, h', hp'⟩ | ⟨hp, h', hp'⟩
    · exact .inl (hs.tick_stop he.2 x).1
    · have hcur : (h.tick c x).cur = h.cur := by
        simp only [History.tick, if_neg hidle, hp]
        exact if_neg fun hst => absurd hst.2 (by decide)
      rw [hcur]
      refine .inr (.inr ⟨_, h', ?_, hB.last hs hp x hn⟩)
      rw [hp', hlen, hp, count_last hn hs.allowed]
    · by_cases hsample : ∃ n k, s = .recv n k ∧ c.phase = 2#2
      · obtain ⟨n, k, rfl, h2⟩ := hsample
        have hcur : (h.tick c x).cur = h.cur ++ [x] := by
          have hst : c.state = State.readData := hs.state
          simp [History.tick, hst, h2]
        have hlen' : h.cur.length = 8 * n + (7 - k) := by simpa [count, h2] using hlen
        rw [hcur]
        refine .inr (.inr ⟨_, h', ?_, (hB.append h2 hlen' x).within hs hp x ?_⟩)
        · simp [hp', h2, count, hlen']
        · rintro n' k' he -
          obtain ⟨rfl, rfl⟩ := Slot.recv.inj he
          rw [getLsbD_byteAt, ← hlen']
          simp
      · have hnot : ∀ n k, s = .recv n k → c.phase ≠ 2#2 := fun n k he h2 => hsample ⟨n, k, he, h2⟩
        have hcur : (h.tick c x).cur = h.cur := by
          simp only [History.tick, if_neg hidle]
          apply if_neg
          intro hst
          obtain ⟨n, k, he⟩ := Slot.recv_of_state (hs.state.symm.trans hst.1)
          exact hnot n k he hst.2
        rw [hcur]
        refine .inr (.inr ⟨_, h', ?_, hB.within hs hp x fun n k he h2 => absurd h2 (hnot n k he)⟩)
        rw [hp', count_within hp hnot, hlen]

/-- The invariant of a run. -/
def Recorded (P : BitVec 8) (o : Regs × History) : Prop :=
  Place P o.1 o.2.cur ∧ Committed o.1.out o.2.last

theorem Recorded.tick {P : BitVec 8} {o : Regs × History} (h : Recorded P o) (x : Bool) :
    Recorded P (step P o (.tick x)) := by
  refine ⟨h.1.tick x, ?_⟩
  simp only [step, tick_out, History.tick]
  by_cases hc : o.1.Commits
  · simp only [if_pos hc]
    exact h.1.commits hc
  · simp only [if_neg hc]
    exact h.2

theorem Recorded.of_reset {P : BitVec 8} (c : Regs) : Recorded P (c.reset, .empty) :=
  ⟨.inl (Waiting.of_reset c), rfl⟩

theorem Recorded.run {P : BitVec 8} {o : Regs × History} (h : Recorded P o) (ins : List Input) :
    Recorded P (run P o ins) := by
  induction ins generalizing o with
  | nil => exact h
  | cons i ins ih =>
    cases i with
    | tick x => exact ih (h.tick x)
    | reset => exact ih (.of_reset o.1)

/-! ## Results -/

/-- The seven words of 112 samples: two bytes each, the high byte first. -/
def wordsOf (l : List Bool) : Outputs where
  accelX := byteAt l 0 ++ byteAt l 1
  accelY := byteAt l 2 ++ byteAt l 3
  accelZ := byteAt l 4 ++ byteAt l 5
  temp := byteAt l 6 ++ byteAt l 7
  gyroX := byteAt l 8 ++ byteAt l 9
  gyroY := byteAt l 10 ++ byteAt l 11
  gyroZ := byteAt l 12 ++ byteAt l 13

theorem mapOutputs_byteAt (l : List Bool) : mapOutputs (byteAt l) = wordsOf l := rfl

/-- After any run since a reset, whatever SDA carried and `rx_data` held, the
outputs are zero before the first completed read and otherwise the words of the
112 samples of the last one; only the tick that ends a read changes them. -/
theorem outputs_of_last_read (c : Regs) (ins : List Input) :
    let o := run FpgaRtl.regAddrStart (c.reset, .empty) ins
    (o.2.last = none → o.1.out = .zero) ∧
    (∀ l, o.2.last = some l → l.length = 112 ∧ o.1.out = wordsOf l) ∧
    ∀ x, (o.1.Commits → o.2.cur.length = 112 ∧
        (FpgaRtl.tick o.1 x).out = wordsOf o.2.cur) ∧
      (¬ o.1.Commits → (FpgaRtl.tick o.1 x).out = o.1.out) := by
  intro o
  have h : Recorded FpgaRtl.regAddrStart o := (Recorded.of_reset c).run ins
  have hcommitted := h.2
  refine ⟨?_, ?_, ?_⟩
  · intro hl
    rwa [hl] at hcommitted
  · intro l hl
    rw [hl] at hcommitted
    exact ⟨hcommitted.1, hcommitted.2.trans (mapOutputs_byteAt l)⟩
  · intro x
    constructor
    · intro hc
      obtain ⟨hlen, hmap⟩ := h.1.commits hc
      exact ⟨hlen, by rw [FpgaRtl.tick, tick_out, if_pos hc, hmap, mapOutputs_byteAt]⟩
    · intro hc
      rw [FpgaRtl.tick, tick_out, if_neg hc]

/-- What an acknowledge slot left high should mean for the tick that ends the
transaction: the configuration is not done, or the outputs stay. -/
def NackHasNoEffect (c : Regs) (h : History) (x : Bool) : Prop :=
  h.nacked = true →
    if c.configWrite then (FpgaRtl.tick c x).configDone = false
    else (FpgaRtl.tick c x).out = c.out

/-- ACK_CHECK never looks at SDA, so a transaction left unacknowledged has no
effect only where the words a read commits are those the outputs already held. -/
theorem nackHasNoEffect_iff (c : Regs) (ins : List Input) (x : Bool)
    (ends : (run FpgaRtl.regAddrStart (c.reset, .empty) ins).1.Ends) :
    let o := run FpgaRtl.regAddrStart (c.reset, .empty) ins
    NackHasNoEffect o.1 o.2 x ↔
      o.2.nacked = false ∨ o.1.configWrite = false ∧ wordsOf o.2.cur = o.1.out := by
  intro o
  have h : Recorded FpgaRtl.regAddrStart o := (Recorded.of_reset c).run ins
  have hout := tick_out o.1 x FpgaRtl.regAddrStart
  unfold NackHasNoEffect
  cases hw : o.1.configWrite
  · have hc : o.1.Commits := ⟨ends, hw⟩
    rw [if_pos hc, (h.1.commits hc).2, mapOutputs_byteAt] at hout
    simp only [FpgaRtl.tick, hout, Bool.false_eq_true, if_false, true_and]
    cases o.2.nacked <;> simp
  · have hdone : (FpgaRtl.tick o.1 x).configDone = true := by
      rcases h.1 with hwait | ⟨s, hs⟩ | ⟨s, hs, _⟩
      · exact absurd ends hwait.not_ends
      · obtain rfl := hs.stop_of_ends ends
        exact (hs.tick_stop ends.2 x).2
      · exact absurd (hs.configWrite.symm.trans hw) (by decide)
    simp only [hdone, if_true, Bool.true_eq_false, false_and, or_false]
    cases o.2.nacked <;> simp

/-- Registers with nothing in them. -/
def blank : Regs :=
  ⟨0, 0, 0, 0, 0, 0, false, false, false, Vector.replicate 14 0, 0, false, false, .zero⟩

/-- No sensor on the bus: SDA stays high through the whole first configuration. -/
def noSensor : List Input := List.replicate 116 (.tick true)

set_option maxRecDepth 4000 in
theorem nackHasNoEffect_iff_noSensor :
    (run FpgaRtl.regAddrStart (blank.reset, .empty) noSensor).1.Ends ∧
      ¬ NackHasNoEffect (run FpgaRtl.regAddrStart (blank.reset, .empty) noSensor).1
        (run FpgaRtl.regAddrStart (blank.reset, .empty) noSensor).2 true := by
  have ends : (run FpgaRtl.regAddrStart (blank.reset, .empty) noSensor).1.Ends := by
    decide +kernel
  refine ⟨ends, ?_⟩
  intro h
  rcases (nackHasNoEffect_iff blank noSensor true ends).mp h with hn | ⟨hw, _⟩
  · exact absurd hn (by decide +kernel)
  · exact absurd hw (by decide +kernel)

set_option maxRecDepth 4000 in
/-- The wake-up write nobody acknowledged is taken as done. -/
theorem nack_taken_as_done :
    ¬ ∀ (c : Regs) (ins : List Input) (x : Bool),
      (run FpgaRtl.regAddrStart (c.reset, .empty) ins).1.Ends →
        NackHasNoEffect (run FpgaRtl.regAddrStart (c.reset, .empty) ins).1
          (run FpgaRtl.regAddrStart (c.reset, .empty) ins).2 x := by
  intro h
  have hn := h blank noSensor true (by decide +kernel)
  exact absurd (hn (by decide +kernel)) (by decide +kernel)

end IotController.Samples
