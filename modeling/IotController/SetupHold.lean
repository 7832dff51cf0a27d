import IotController.Samples

/-! # When SDA moves

SDA is settled a whole tick before SCL rises, everywhere. Between the bits of a
byte it is also held for a whole tick after SCL falls; where the line changes
hands it moves in the tick in which SCL falls. -/
namespace IotController.SetupHold
open IotController.Controller IotController.I2c IotController.Sequencer
open IotController.Samples (blank)

/-- The ticks that make a START, a repeated START or a STOP. -/
def Framing (c : Regs) : Prop :=
  c.state = State.start ∧ c.phase = 1#2 ∨ c.state = State.restart ∧ c.phase = 2#2 ∨
    c.state = State.stop ∧ c.phase = 2#2

/-- The ticks in which SDA changes hands and level: into and out of the
acknowledge slots that follow a written 0, and into and out of the acknowledges
of the first thirteen bytes read. -/
def HandOver (c : Regs) : Prop :=
  c.phase = 3#2 ∧
    ((c.state = State.wrDevAddr ∨ c.state = State.wrRegData) ∧ c.bitCnt = 0 ∨
      c.state = State.ackCheck ∧
        (c.savedState = State.wrRegAddr ∨ c.savedState = State.stop) ∨
      c.state = State.readData ∧ c.bitCnt = 0 ∧ c.byteCnt ≠ 13 ∨
      c.state = State.ackSend ∧ c.byteCnt ≠ 13)

instance (c : Regs) : Decidable (Framing c) := inferInstanceAs (Decidable (_ ∨ _))
instance (c : Regs) : Decidable (HandOver c) := inferInstanceAs (Decidable (_ ∧ _))

/-! ## Slots -/

def handsOver : Slot → Bool
  | .bit f k => k = 0 && (f = .devAddr || f = .regData)
  | .ack f => f = .devAddr || f = .regData
  | .recv n k => k = 0 && n ≠ 13
  | .reply n => n ≠ 13
  | .start | .restart | .stop => false

section At
variable {P : BitVec 8} {cw : Bool} {s : Slot} {c : Regs}

theorem handOver_iff (h : At P cw s c) : HandOver c ↔ c.phase = 3#2 ∧ handsOver s = true := by
  refine and_congr_right fun _ => ?_
  have ha := h.allowed
  rw [h.state]
  cases s with
  | bit f k =>
    have hk : c.bitCnt = BitVec.ofNat 4 k := h.counters
    rw [hk, ofNat_eq_zero_iff]
    cases f <;> simp [Slot.state, Frame.state, handsOver]
  | ack f =>
    have hsaved : c.savedState = f.saved cw := h.counters
    rw [hsaved]
    cases f <;> cases cw <;> simp [Slot.state, Frame.saved, handsOver]
  | recv n k =>
    obtain ⟨hk, hn⟩ : c.bitCnt = BitVec.ofNat 4 k ∧ c.byteCnt = BitVec.ofNat 4 n := h.counters
    rw [hk, hn, ofNat_eq_zero_iff, Ne, ofNat_eq_13_iff]
    simp [Slot.state, handsOver]
  | reply n =>
    have hn : c.byteCnt = BitVec.ofNat 4 n := h.counters
    rw [hn, Ne, ofNat_eq_13_iff]
    simp [Slot.state, handsOver]
  | start | restart | stop => simp [Slot.state, handsOver]

/-- Inside a slot SDA moves with SCL low, or makes a START or a STOP. -/
theorem sda_within (h : At P cw s c) (hp : c.phase ≠ 3#2) (x : Bool)
    (hne : (tick P c x).sda ≠ c.sda) :
    Framing c ∧ c.i2cScl = true ∧ (tick P c x).i2cScl = true ∨
      c.i2cScl = false ∧ (tick P c x).i2cScl = false := by
  revert hne
  rw [h.tick_eq x]
  obtain ⟨ha, hs, hw, hd, ht, hc, hscl, hen, hout⟩ := h
  cases s <;> rcases phase_cases c.phase with p | p | p | p <;>
    first
    | exact absurd p hp
    | simp_all [Slot.arm, Regs.start, Regs.writeBits, Regs.ackCheck, Regs.restart, Regs.readData,
        Regs.ackSend, Regs.stop, Regs.next, Regs.sda, Slot.scl, Slot.sdaOut, Slot.slaveOwned,
        Framing, Slot.state]

/-- At the end of a slot SCL falls or stays; SDA moves in the hand-overs only. -/
theorem sda_last (h : At P cw s c) (hp : c.phase = 3#2) (hP : P.getLsbD 0 = true) (x : Bool) :
    ((tick P c x).sda ≠ c.sda ↔ handsOver s = true) ∧
      (handsOver s = true → c.i2cScl = true ∧ (tick P c x).i2cScl = false) := by
  rw [h.tick_eq x]
  obtain ⟨ha, hs, hw, hd, ht, hc, hscl, hen, hout⟩ := h
  cases s with
  | start => simp_all [Slot.arm, Regs.start, Regs.next, Regs.sda, handsOver]
  | bit f k =>
    have hk : c.bitCnt = BitVec.ofNat 4 k := hc
    simp only [Slot.arm, Regs.writeBits, Regs.next, hp, hk, ofNat_eq_zero_iff]
    by_cases h0 : k = 0
    · have hlast : c.sdaOut = (f.byte P cw).getLsbD 0 := by
        simpa [Slot.sdaOut, hp, h0] using hout
      rw [if_pos h0, hscl, hp]
      cases f <;> cases cw <;>
        simp_all [Regs.sda, handsOver, Frame.byte, Slot.slaveOwned, Slot.scl]
    · simp [Regs.sda, handsOver, h0]
  | ack f =>
    have hsaved : c.savedState = f.saved cw := hc
    have hlast : c.sdaOut = (f.byte P cw).getLsbD 0 := by simpa [Slot.sdaOut] using hout
    simp only [Slot.arm, Regs.ackCheck, Regs.next, hp, hsaved]
    rw [hscl, hp]
    cases f <;> cases cw <;>
      simp_all [Regs.sda, handsOver, Frame.byte, Frame.saved, Slot.slaveOwned, Slot.scl,
        Slot.allowed]
  | restart => simp_all [Slot.arm, Regs.restart, Regs.next, Regs.sda, handsOver]
  | recv n k =>
    obtain ⟨hk, hb⟩ : c.bitCnt = BitVec.ofNat 4 k ∧ c.byteCnt = BitVec.ofNat 4 n := hc
    simp only [Slot.arm, Regs.readData, Regs.next, hp, hk, ofNat_eq_zero_iff]
    by_cases h0 : k = 0
    · have hb13 : c.byteCnt = 13 ↔ n = 13 := by rw [hb, ofNat_eq_13_iff]
      rw [if_pos h0, hscl, hp]
      simpa [Regs.sda, handsOver, hen, Slot.slaveOwned, Slot.scl, h0] using not_congr hb13
    · simp [Regs.sda, handsOver, h0]
  | reply n =>
    have hb : c.byteCnt = BitVec.ofNat 4 n := hc
    have hlast : c.sdaOut = (n == 13) := by simpa [Slot.sdaOut] using hout
    simp only [Slot.arm, Regs.ackSend, Regs.next, hp, hb, ofNat_eq_13_iff]
    rw [hscl, hp]
    by_cases h13 : n = 13
    · simp [h13, Regs.sda, handsOver]
    · simp [h13, Regs.sda, handsOver, hlast, hen, Slot.slaveOwned, Slot.scl]
  | stop =>
    simp only [Slot.arm, Regs.stop, Regs.next, hp, hw]
    cases cw <;> simp [Regs.sda, handsOver]

end At

/-! ## Results -/

/-- Between transactions SDA is released and stays so. -/
theorem sda_waiting {P : BitVec 8} {c : Regs} (h : Waiting c) (x : Bool) :
    (tick P c x).sda = c.sda ∧ ¬ HandOver c := by
  constructor
  · have hlines := h.lines_eq
    rcases h.tick (P := P) x with ⟨h', _⟩ | ⟨_, h', hph⟩
    · exact congrArg Lines.sda (h'.lines_eq.trans hlines.symm)
    · exact congrArg Lines.sda ((h'.start_lines hph).trans hlines.symm)
  · rintro ⟨_, (⟨hs | hs, _⟩ | ⟨hs, _⟩ | ⟨hs, _⟩ | ⟨hs, _⟩)⟩ <;>
      exact absurd hs (h.state_ne (by decide) (by decide))

/-- Whatever is on SDA, the master moves it in the edge that makes a START, a
repeated START or a STOP, with SCL low before and after the tick, or with SCL
falling in the tick, and the last in every hand-over and nowhere else. -/
theorem sda_moves {c : Regs} (h : Reached FpgaRtl.regAddrStart c) (x : Bool) :
    ((FpgaRtl.tick c x).sda ≠ c.sda →
      Framing c ∧ c.i2cScl = true ∧ (FpgaRtl.tick c x).i2cScl = true ∨
        c.i2cScl = false ∧ (FpgaRtl.tick c x).i2cScl = false ∨ HandOver c) ∧
    (HandOver c → (FpgaRtl.tick c x).sda ≠ c.sda ∧ c.i2cScl = true ∧
      (FpgaRtl.tick c x).i2cScl = false) := by
  unfold FpgaRtl.tick
  rcases h.sequenced with hw | ⟨cw, s, hs⟩
  · obtain ⟨heq, hno⟩ := sda_waiting (P := FpgaRtl.regAddrStart) hw x
    exact ⟨fun hne => absurd heq hne, fun hh => absurd hh hno⟩
  · have hiff := handOver_iff hs
    by_cases hp : c.phase = 3#2
    · obtain ⟨hmoves, hfalls⟩ := sda_last hs hp (by decide) x
      refine ⟨fun hne => .inr (.inr (hiff.mpr ⟨hp, hmoves.mp hne⟩)), ?_⟩
      intro hh
      have hs' := (hiff.mp hh).2
      exact ⟨hmoves.mpr hs', hfalls hs'⟩
    · refine ⟨?_, fun hh => absurd hh.1 hp⟩
      intro hne
      rcases sda_within hs hp x hne with hf | hl
      · exact .inl hf
      · exact .inr (.inl hl)

/-- The last bit of the first device address, with SCL high. -/
def lastAddrBit : Regs :=
  (List.replicate 36 true).foldl (tick FpgaRtl.regAddrStart) blank.reset

theorem sda_moves_lastAddrBit :
    (FpgaRtl.tick lastAddrBit true).sda ≠ lastAddrBit.sda ∧ lastAddrBit.i2cScl = true ∧
      (FpgaRtl.tick lastAddrBit true).i2cScl = false :=
  (sda_moves (Reached.run (.reset blank) (List.replicate 36 true)) true).2 (by decide +kernel)

/-- There SDA is let go in the tick in which SCL falls. -/
theorem sda_moves_with_scl :
    ¬ ∀ c, Reached FpgaRtl.regAddrStart c → ∀ x, (FpgaRtl.tick c x).sda ≠ c.sda →
      Framing c ∧ c.i2cScl = true ∧ (FpgaRtl.tick c x).i2cScl = true ∨
        c.i2cScl = false ∧ (FpgaRtl.tick c x).i2cScl = false := by
  intro h
  have hmoves := h lastAddrBit (Reached.run (.reset blank) _) true (by decide +kernel)
  exact absurd hmoves (by decide +kernel)

end IotController.SetupHold
