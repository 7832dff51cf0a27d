import IotController.Samples

/-! # Counters, indices and states in range

`bit_cnt` and `byte_cnt` have room for 15 and index vectors of 8 and 14,
`state` has room for 31 and names 12 states. `Moves` is all that one tick may do
to the counters and the two configuration flags; with the position of the
controller in its transaction it keeps every index in range. -/
namespace IotController.Limits
open IotController.Controller IotController.Sequencer
open IotController.Samples (blank)

/-- The twelve states of the FSM. -/
def declared : List (BitVec 5) :=
  [State.idle, State.start, State.wrDevAddr, State.wrRegAddr, State.wrRegData, State.ackCheck,
    State.restart, State.rdDevAddr, State.readData, State.ackSend, State.stop, State.waitConfig]

/-- Where ACK_CHECK may continue. -/
def continuations (configWrite : Bool) : List (BitVec 5) :=
  if configWrite then [State.wrRegAddr, State.wrRegData, State.stop]
  else [State.wrRegAddr, State.restart, State.readData]

structure InRange (c : Regs) : Prop where
  state : c.state ∈ declared
  bitCnt : c.bitCnt.toNat < 8
  /-- `SLAVE_ADDR[bit_cnt-1]` -/
  addrBit : c.bitCnt ≠ 0 → (c.bitCnt - 1).toNat + 1 = c.bitCnt.toNat ∧ (c.bitCnt - 1).toNat < 7
  /-- `rx_data[byte_cnt]` -/
  byteCnt : c.byteCnt.toNat < 14
  savedState : c.state = State.ackCheck → c.savedState ∈ continuations c.configWrite
  configDone : c.configWrite = false → c.configDone = true
  lastByte : c.state = State.stop → c.configWrite = false → c.byteCnt = 13
  timer : c.refreshTimer ≤ 50000
  timerZero : c.state ≠ State.idle → c.state ≠ State.waitConfig → c.refreshTimer = 0

/-! ## What a tick does to the counters -/

structure Moves (c c' : Regs) : Prop where
  bitCnt : c'.bitCnt = c.bitCnt ∨ c'.bitCnt = 7 ∨ c.bitCnt ≠ 0 ∧ c'.bitCnt = c.bitCnt - 1
  byteCnt : c'.byteCnt = c.byteCnt ∨ c'.byteCnt = 0 ∨
    c.byteCnt ≠ 13 ∧ c'.byteCnt = c.byteCnt + 1
  flags : c'.configWrite = c.configWrite ∧ c'.configDone = c.configDone ∨
    c'.configWrite = true ∨ c'.configDone = true

section Arms
variable (c : Regs)

/-- An arm that leaves the counters and the flags alone. -/
theorem Moves.of_eq {c c' : Regs} (hbit : c'.bitCnt = c.bitCnt) (hbyte : c'.byteCnt = c.byteCnt)
    (hw : c'.configWrite = c.configWrite) (hd : c'.configDone = c.configDone) : Moves c c' :=
  ⟨.inl hbit, .inl hbyte, .inl ⟨hw, hd⟩⟩

theorem moves_idle : Moves c c.idle := by
  unfold Regs.idle
  split
  · exact ⟨.inl rfl, .inl rfl, .inr (.inl rfl)⟩
  · next hd =>
    have hd : c.configDone = true := by simpa using hd
    split
    · exact .of_eq rfl rfl rfl rfl
    · exact ⟨.inl rfl, .inl rfl, .inr (.inr hd)⟩

theorem moves_start : Moves c c.start := by
  unfold Regs.start
  split
  · exact .of_eq rfl rfl rfl rfl
  · exact .of_eq rfl rfl rfl rfl
  · exact .of_eq rfl rfl rfl rfl
  · exact ⟨.inr (.inl rfl), .inl rfl, .inl ⟨rfl, rfl⟩⟩

theorem moves_writeBits (bit : Bool) (saved : BitVec 5) : Moves c (c.writeBits bit saved) := by
  unfold Regs.writeBits
  split
  · exact .of_eq rfl rfl rfl rfl
  · exact .of_eq rfl rfl rfl rfl
  · exact .of_eq rfl rfl rfl rfl
  · split
    · exact .of_eq rfl rfl rfl rfl
    · next h0 => exact ⟨.inr (.inr ⟨h0, rfl⟩), .inl rfl, .inl ⟨rfl, rfl⟩⟩

theorem moves_ackCheck : Moves c c.ackCheck := by
  unfold Regs.ackCheck
  split
  · exact .of_eq rfl rfl rfl rfl
  · exact .of_eq rfl rfl rfl rfl
  · exact .of_eq rfl rfl rfl rfl
  · dsimp only
    split
    · exact ⟨.inr (.inl rfl), .inr (.inl rfl), .inl ⟨rfl, rfl⟩⟩
    · exact ⟨.inr (.inl rfl), .inl rfl, .inl ⟨rfl, rfl⟩⟩

theorem moves_stop : Moves c c.stop := by
  unfold Regs.stop
  split
  · exact .of_eq rfl rfl rfl rfl
  · exact .of_eq rfl rfl rfl rfl
  · exact .of_eq rfl rfl rfl rfl
  · split
    · exact ⟨.inl rfl, .inl rfl, .inr (.inr rfl)⟩
    · exact .of_eq rfl rfl rfl rfl

theorem moves_waitConfig : Moves c c.waitConfig := by
  unfold Regs.waitConfig
  split
  · exact .of_eq rfl rfl rfl rfl
  · exact .of_eq rfl rfl rfl rfl

theorem moves_restart : Moves c c.restart := by
  unfold Regs.restart
  split
  · exact .of_eq rfl rfl rfl rfl
  · exact .of_eq rfl rfl rfl rfl
  · exact .of_eq rfl rfl rfl rfl
  · exact ⟨.inr (.inl rfl), .inl rfl, .inl ⟨rfl, rfl⟩⟩

theorem moves_readData (sda : Bool) : Moves c (c.readData sda) := by
  unfold Regs.readData
  split
  · exact .of_eq rfl rfl rfl rfl
  · exact .of_eq rfl rfl rfl rfl
  · exact .of_eq rfl rfl rfl rfl
  · split
    · exact .of_eq rfl rfl rfl rfl
    · next h0 => exact ⟨.inr (.inr ⟨h0, rfl⟩), .inl rfl, .inl ⟨rfl, rfl⟩⟩

theorem moves_ackSend : Moves c c.ackSend := by
  unfold Regs.ackSend
  split
  · exact .of_eq rfl rfl rfl rfl
  · exact .of_eq rfl rfl rfl rfl
  · exact .of_eq rfl rfl rfl rfl
  · split
    · exact .of_eq rfl rfl rfl rfl
    · next h13 => exact ⟨.inr (.inl rfl), .inr (.inr ⟨h13, rfl⟩), .inl ⟨rfl, rfl⟩⟩

theorem moves_ite {p : Prop} [Decidable p] {a b : Regs} (ha : Moves c a) (hb : Moves c b) :
    Moves c (if p then a else b) := by
  split
  · exact ha
  · exact hb

theorem moves_tick (P : BitVec 8) (x : Bool) : Moves c (tick P c x) :=
  moves_ite c (moves_idle c) <| moves_ite c (moves_start c) <|
    moves_ite c (moves_writeBits c _ _) <| moves_ite c (moves_writeBits c _ _) <|
    moves_ite c (moves_writeBits c _ _) <| moves_ite c (moves_ackCheck c) <|
    moves_ite c (moves_stop c) <| moves_ite c (moves_waitConfig c) <|
    moves_ite c (moves_restart c) <| moves_ite c (moves_writeBits c _ _) <|
    moves_ite c (moves_readData c x) <| moves_ite c (moves_ackSend c) (.of_eq rfl rfl rfl rfl)

end Arms

/-! ## Every reachable state -/

structure Limited (c : Regs) : Prop where
  bitCnt : c.bitCnt ≤ 7
  byteCnt : c.byteCnt ≤ 13
  configDone : c.configWrite = false → c.configDone = true

theorem Limited.moves {c c' : Regs} (h : Limited c) (hm : Moves c c') : Limited c' := by
  obtain ⟨hbit, hbyte, hflags⟩ := h
  refine ⟨?_, ?_, ?_⟩
  · rcases hm.bitCnt with he | he | ⟨h0, he⟩ <;> rw [he]
    · exact hbit
    · exact BitVec.le_refl 7
    · bv_omega
  · rcases hm.byteCnt with he | he | ⟨h13, he⟩ <;> rw [he]
    · exact hbyte
    · bv_omega
    · bv_omega
  · intro hw
    rcases hm.flags with ⟨hw', hd'⟩ | hw' | hd'
    · rw [hd']
      exact hflags (hw'.symm.trans hw)
    · rw [hw] at hw'
      cases hw'
    · exact hd'

theorem Limited.of_reached {P : BitVec 8} {c : Regs} (h : Reached P c) : Limited c := by
  induction h with
  | reset c => exact ⟨by simp [Regs.reset], by simp [Regs.reset], by simp [Regs.reset]⟩
  | tick _ x ih => exact ih.moves (moves_tick _ P x)

theorem Slot.state_declared (s : Slot) : s.state ∈ declared := by
  cases s with
  | bit f k => cases f <;> simp [Slot.state, Frame.state, declared]
  | start | ack | restart | recv | reply | stop => simp [Slot.state, declared]

theorem Frame.saved_continuations {cw : Bool} {f : Frame} (ha : (Slot.ack f).allowed cw = true) :
    f.saved cw ∈ continuations cw := by
  cases f <;> cases cw <;> revert ha <;> decide

theorem Slot.ack_of_state {s : Slot} (h : s.state = State.ackCheck) : ∃ f, s = .ack f := by
  cases s with
  | bit f k => cases f <;> simp [Slot.state, Frame.state] at h
  | ack f => exact ⟨f, rfl⟩
  | start | restart | recv | reply | stop => simp [Slot.state] at h

/-- Whatever SDA carries and whenever the reset comes, no index leaves its
vector, no counter wraps and the default arm is never taken. -/
theorem inRange_of_reached {P : BitVec 8} {c : Regs} (h : Reached P c) : InRange c := by
  obtain ⟨hbit, hbyte, hdone⟩ := Limited.of_reached h
  have bits : c.bitCnt.toNat < 8 := by bv_omega
  have bytes : c.byteCnt.toNat < 14 := by bv_omega
  have pred : c.bitCnt ≠ 0 →
      (c.bitCnt - 1).toNat + 1 = c.bitCnt.toNat ∧ (c.bitCnt - 1).toNat < 7 := by
    intro h0
    constructor <;> bv_omega
  rcases h.sequenced with hw | ⟨cw, s, hs⟩
  · refine ⟨?_, bits, pred, bytes, ?_, hdone, ?_, hw.timer, ?_⟩
    · rcases hw.state with he | ⟨he, _⟩ <;> rw [he] <;> decide
    · exact fun he => absurd he (hw.state_ne (by decide) (by decide))
    · exact fun he => absurd he (hw.state_ne (by decide) (by decide))
    · intro hi hc
      rcases hw.state with he | ⟨he, _⟩
      · exact absurd he hi
      · exact absurd he hc
  · refine ⟨?_, bits, pred, bytes, ?_, hdone, ?_, ?_, fun _ _ => hs.timer⟩
    · rw [hs.state]
      exact Slot.state_declared s
    · intro he
      obtain ⟨f, rfl⟩ := Slot.ack_of_state (hs.state.symm.trans he)
      have hsaved : c.savedState = f.saved cw := hs.counters
      rw [hsaved, hs.configWrite]
      exact Frame.saved_continuations hs.allowed
    · intro he hcw
      obtain rfl := Slot.stop_of_state (hs.state.symm.trans he)
      exact hs.counters (hs.configWrite.symm.trans hcw)
    · rw [hs.timer]
      bv_omega

/-- In the middle of the first register address, SDA low all the time. -/
theorem inRange_of_reached_regAddr :
    let c := (List.replicate 60 false).foldl (tick FpgaRtl.regAddrStart) blank.reset
    c.state = State.wrRegAddr ∧ InRange c :=
  ⟨by decide +kernel, inRange_of_reached (Reached.run (.reset blank) (List.replicate 60 false))⟩

end IotController.Limits
