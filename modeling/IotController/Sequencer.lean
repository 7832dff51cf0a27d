import IotController.Controller
import IotController.I2c.Bus

/-! # Transactions as sequences of slots

A transaction of the controller is a sequence of four-tick slots, one SCL pulse
each: START, the bits and acknowledge slots of the written frames, a repeated
START, the bits read, the answers to them, STOP. `At` says which registers the
controller has inside a slot, and `At.tick` that a tick moves to the next phase
or to the next slot whatever SDA carries. -/
namespace IotController.Sequencer
open IotController.Controller IotController.I2c

/-! ## Slots -/

/-- The bytes of a burst are numbered by `Fin 14`. -/
instance bytesNeZero : NeZero 14 := ⟨Nat.succ_ne_zero 13⟩

/-- The bytes the master writes, one FSM state each. -/
inductive Frame where
  | devAddr
  | regAddr
  | regData
  | rdDevAddr
deriving DecidableEq, Repr

inductive Slot where
  | start
  | bit (f : Frame) (k : Fin 8)
  | ack (f : Frame)
  | restart
  | recv (n : Fin 14) (k : Fin 8)
  | reply (n : Fin 14)
  | stop
deriving DecidableEq, Repr

def Frame.state : Frame → BitVec 5
  | .devAddr => State.wrDevAddr
  | .regAddr => State.wrRegAddr
  | .regData => State.wrRegData
  | .rdDevAddr => State.rdDevAddr

/-- The byte of a frame, in a configuration (`cw`) or a read transaction. -/
def Frame.byte (regAddrStart : BitVec 8) (cw : Bool) : Frame → BitVec 8
  | .devAddr => 0xD0
  | .regAddr => if cw then 0x6B else regAddrStart
  | .regData => 0x00
  | .rdDevAddr => 0xD1

/-- Where ACK_CHECK continues after a frame. -/
def Frame.saved (cw : Bool) : Frame → BitVec 5
  | .devAddr => State.wrRegAddr
  | .regAddr => if cw then State.wrRegData else State.restart
  | .regData => State.stop
  | .rdDevAddr => State.readData

def Frame.after (cw : Bool) : Frame → Slot
  | .devAddr => .bit .regAddr 7
  | .regAddr => if cw then .bit .regData 7 else .restart
  | .regData => .stop
  | .rdDevAddr => .recv 0 7

def Slot.state : Slot → BitVec 5
  | .start => State.start
  | .bit f _ => f.state
  | .ack _ => State.ackCheck
  | .restart => State.restart
  | .recv _ _ => State.readData
  | .reply _ => State.ackSend
  | .stop => State.stop

theorem Slot.recv_of_state {s : Slot} (h : s.state = State.readData) : ∃ n k, s = .recv n k := by
  cases s with
  | bit f k => cases f <;> simp [Slot.state, Frame.state] at h
  | recv n k => exact ⟨n, k, rfl⟩
  | start | ack | restart | reply | stop => simp [Slot.state] at h

theorem Slot.stop_of_state {s : Slot} (h : s.state = State.stop) : s = .stop := by
  cases s with
  | bit f k => cases f <;> simp [Slot.state, Frame.state] at h
  | stop => rfl
  | start | ack | restart | reply | recv => simp [Slot.state] at h

theorem Slot.state_ne_idle (s : Slot) : s.state ≠ State.idle := by
  cases s with
  | bit f k => cases f <;> simp [Slot.state, Frame.state]
  | start | ack | stop | restart | reply | recv => simp [Slot.state]

theorem Slot.state_ne_waitConfig (s : Slot) : s.state ≠ State.waitConfig := by
  cases s with
  | bit f k => cases f <;> simp [Slot.state, Frame.state]
  | start | ack | stop | restart | reply | recv => simp [Slot.state]

/-- The slot after this one; a transaction ends with STOP. -/
def Slot.next (cw : Bool) : Slot → Option Slot
  | .start => some (.bit .devAddr 7)
  | .bit f k => some (if k = 0 then .ack f else .bit f (k - 1))
  | .ack f => some (f.after cw)
  | .restart => some (.bit .rdDevAddr 7)
  | .recv n k => some (if k = 0 then .reply n else .recv n (k - 1))
  | .reply n => some (if n = 13 then .stop else .recv (n + 1) 7)
  | .stop => none

/-- The slot one tick after phase `ph` of a slot. -/
def Slot.succ (cw : Bool) (ph : BitVec 2) (s : Slot) : Slot :=
  if ph = 3#2 then (s.next cw).getD s else s

/-- A configuration never reads, and a read never writes a data byte. -/
def Slot.allowed (cw : Bool) : Slot → Bool
  | .bit f _ | .ack f => if cw then f ≠ .rdDevAddr else f ≠ .regData
  | .restart | .recv _ _ | .reply _ => !cw
  | .start | .stop => true

/-- The line samples the bus sees of the controller alone. -/
def lines (c : Regs) : Lines := ⟨c.i2cScl, c.sda⟩

theorem Slot.next_allowed {cw : Bool} {s s' : Slot} (h : s.next cw = some s')
    (ha : s.allowed cw = true) : s'.allowed cw = true := by
  cases s with
  | bit f k => cases h; split <;> exact ha
  | ack f => cases h; cases f <;> cases cw <;> first | rfl | exact ha
  | recv n k => cases h; split <;> exact ha
  | reply n => cases h; split <;> first | rfl | exact ha
  | stop => cases h
  | start => cases h; cases cw <;> rfl
  | restart => cases h; cases cw <;> first | rfl | exact ha

/-! ## Whole transactions -/

def frameSlots (f : Frame) : List Slot := (List.ofFn fun i : Fin 8 => .bit f i.rev) ++ [.ack f]

def recvSlots (n : Fin 14) : List Slot := (List.ofFn fun i : Fin 8 => .recv n i.rev) ++ [.reply n]

/-- The slots of a configuration (29) or of a read (156). -/
def slots (cw : Bool) : List Slot :=
  if cw then
    .start :: (frameSlots .devAddr ++ frameSlots .regAddr ++ frameSlots .regData ++ [.stop])
  else
    .start :: (frameSlots .devAddr ++ frameSlots .regAddr ++ .restart :: frameSlots .rdDevAddr ++
      (List.finRange 14).flatMap recvSlots ++ [.stop])

/-- `Slot.next` runs through `slots`. -/
theorem slots_next {cw : Bool} {i : Nat} {s : Slot} (h : (slots cw)[i]? = some s) :
    s.next cw = (slots cw)[i + 1]? := by
  have all : ∀ cw, ∀ i < 156, ∀ s ∈ (slots cw)[i]?, s.next cw = (slots cw)[i + 1]? := by
    decide +kernel
  have hi := (List.getElem?_eq_some_iff.mp h).1
  have hl : (slots cw).length ≤ 156 := by cases cw <;> decide +kernel
  exact all cw i (by omega) s h

/-! ## The wires inside a slot -/

def Slot.scl (s : Slot) (ph : BitVec 2) : Bool :=
  if s = .start then ph != 3 else ph == 2 || ph == 3

/-- Slots in which SDA is the slave's. -/
def Slot.slaveOwned : Slot → Bool
  | .ack _ | .recv _ _ => true
  | _ => false

/-- `sda_out` inside a slot, where the slot or what leads to it fixes it. -/
def Slot.sdaOut (regAddrStart : BitVec 8) (cw : Bool) (ph : BitVec 2) : Slot → Option Bool
  | .start => some (ph == 0 || ph == 1)
  | .bit f k => if ph = 0 then none else some ((f.byte regAddrStart cw).getLsbD k)
  | .ack f => some ((f.byte regAddrStart cw).getLsbD 0)
  | .restart => if ph = 0 then none else some (ph != 3)
  | .recv _ _ => none
  | .reply n => some (n == 13)
  | .stop => if ph = 0 then none else some (ph == 3)

/-- The edge of the master's lines over the tick of phase `ph`. -/
def Slot.edge (regAddrStart : BitVec 8) (cw : Bool) (ph : BitVec 2) : Slot → Edge
  | .start => if ph = 1 then .start else if ph = 2 then .fall else .none
  | .bit f k =>
    if ph = 1 then .rise ((f.byte regAddrStart cw).getLsbD k) else if ph = 3 then .fall else .none
  | .ack _ | .recv _ _ => if ph = 1 then .rise true else if ph = 3 then .fall else .none
  | .restart =>
    if ph = 1 then .rise true else if ph = 2 then .start else if ph = 3 then .fall else .none
  | .reply n => if ph = 1 then .rise (n == 13) else if ph = 3 then .fall else .none
  | .stop => if ph = 1 then .rise false else if ph = 2 then .stop else .none

/-! ## The registers inside a slot -/

/-- The counters and the return state a slot relies on. -/
def Slot.Counters (cw : Bool) (c : Regs) : Slot → Prop
  | .bit _ k => c.bitCnt = BitVec.ofNat 4 k
  | .ack f => c.savedState = f.saved cw
  | .recv n k => c.bitCnt = BitVec.ofNat 4 k ∧ c.byteCnt = BitVec.ofNat 4 n
  | .reply n => c.byteCnt = BitVec.ofNat 4 n
  | .stop => cw = false → c.byteCnt = 13
  | .start | .restart => True

structure At (regAddrStart : BitVec 8) (cw : Bool) (s : Slot) (c : Regs) : Prop where
  allowed : s.allowed cw = true
  state : c.state = s.state
  configWrite : c.configWrite = cw
  configDone : c.configDone = !cw
  timer : c.refreshTimer = 0
  counters : s.Counters cw c
  scl : c.i2cScl = s.scl c.phase
  sdaEn : c.sdaEn = !s.slaveOwned
  sdaOut : ∀ b ∈ s.sdaOut regAddrStart cw c.phase, c.sdaOut = b

/-- Between transactions, or before the first one. -/
structure Waiting (c : Regs) : Prop where
  state : c.state = State.idle ∨ c.state = State.waitConfig ∧ c.configDone = true
  scl : c.i2cScl = true
  sdaEn : c.sdaEn = true
  sdaOut : c.sdaOut = true
  timer : c.refreshTimer ≤ refreshLimit
  fresh : c.configDone = false → c.refreshTimer = 0

theorem phase_cases (p : BitVec 2) : p = 0#2 ∨ p = 1#2 ∨ p = 2#2 ∨ p = 3#2 := by
  revert p; decide

theorem ofNat_eq_zero_iff (k : Fin 8) : BitVec.ofNat 4 k = 0 ↔ k = 0 := by
  revert k; decide

theorem ofNat_sub_one (k : Fin 8) (h : k ≠ 0) :
    BitVec.ofNat 4 k - 1 = BitVec.ofNat 4 (k - 1 : Fin 8) := by
  revert k; decide

theorem toNat_ofNat_fin (k : Fin 8) : (BitVec.ofNat 4 k).toNat = k := by
  revert k; decide

theorem ofNat_eq_13_iff (n : Fin 14) : BitVec.ofNat 4 n = 13 ↔ n = 13 := by
  revert n; decide

theorem ofNat_add_one (n : Fin 14) (h : n ≠ 13) :
    BitVec.ofNat 4 n + 1 = BitVec.ofNat 4 (n + 1 : Fin 14) := by
  revert n; decide

theorem pred_val : ∀ k : Fin 8, k ≠ 0 → (k - 1).val + 1 = k.val := by decide

theorem val_succ : ∀ n : Fin 14, n ≠ 13 → (n + 1).val = n.val + 1 := by decide

/-! ## What a tick does -/

section Arms
variable {P : BitVec 8} {c : Regs} {x : Bool}

theorem tick_idle (h : c.state = State.idle) : tick P c x = c.idle := by simp [tick, h]
theorem tick_start (h : c.state = State.start) : tick P c x = c.start := by simp [tick, h]
theorem tick_wrDevAddr (h : c.state = State.wrDevAddr) : tick P c x = c.wrDevAddr := by
  simp [tick, h]
theorem tick_wrRegAddr (h : c.state = State.wrRegAddr) : tick P c x = c.wrRegAddr P := by
  simp [tick, h]
theorem tick_wrRegData (h : c.state = State.wrRegData) : tick P c x = c.wrRegData := by
  simp [tick, h]
theorem tick_ackCheck (h : c.state = State.ackCheck) : tick P c x = c.ackCheck := by simp [tick, h]
theorem tick_stop (h : c.state = State.stop) : tick P c x = c.stop := by simp [tick, h]
theorem tick_waitConfig (h : c.state = State.waitConfig) : tick P c x = c.waitConfig := by
  simp [tick, h]
theorem tick_restart (h : c.state = State.restart) : tick P c x = c.restart := by simp [tick, h]
theorem tick_rdDevAddr (h : c.state = State.rdDevAddr) : tick P c x = c.rdDevAddr := by
  simp [tick, h]
theorem tick_readData (h : c.state = State.readData) : tick P c x = c.readData x := by
  simp [tick, h]
theorem tick_ackSend (h : c.state = State.ackSend) : tick P c x = c.ackSend := by simp [tick, h]

end Arms

/-- The four writing states are one arm with the frame's own bit and return state. -/
theorem tick_frame {P : BitVec 8} {cw x : Bool} {f : Frame} {k : Fin 8} {c : Regs}
    (hs : c.state = f.state) (hw : c.configWrite = cw) (hk : c.bitCnt = BitVec.ofNat 4 k) :
    tick P c x = c.writeBits ((f.byte P cw).getLsbD k) (f.saved cw) := by
  have dev : ∀ k : Fin 8, (if BitVec.ofNat 4 k = 0 then false
      else slaveAddr.getLsbD ((BitVec.ofNat 4 k).toNat - 1)) = (0xD0#8).getLsbD k := by decide
  have rd : ∀ k : Fin 8, (if BitVec.ofNat 4 k = 0 then true
      else slaveAddr.getLsbD ((BitVec.ofNat 4 k).toNat - 1)) = (0xD1#8).getLsbD k := by decide
  cases f with
  | devAddr => rw [tick_wrDevAddr hs, Regs.wrDevAddr, hk, dev]; rfl
  | regAddr => rw [tick_wrRegAddr hs, Regs.wrRegAddr, hk, hw, toNat_ofNat_fin]; rfl
  | regData => rw [tick_wrRegData hs, Regs.wrRegData, hk, toNat_ofNat_fin]; rfl
  | rdDevAddr => rw [tick_rdDevAddr hs, Regs.rdDevAddr, hk, rd]; rfl

/-- The arm that runs in a slot. -/
def Slot.arm (P : BitVec 8) (cw x : Bool) (c : Regs) : Slot → Regs
  | .start => c.start
  | .bit f k => c.writeBits ((f.byte P cw).getLsbD k) (f.saved cw)
  | .ack _ => c.ackCheck
  | .restart => c.restart
  | .recv _ _ => c.readData x
  | .reply _ => c.ackSend
  | .stop => c.stop

section At
variable {P : BitVec 8} {cw : Bool} {s : Slot} {c : Regs}

theorem At.tick_eq (h : At P cw s c) (x : Bool) : tick P c x = s.arm P cw x c := by
  cases s with
  | start => exact tick_start h.state
  | bit f k => exact tick_frame h.state h.configWrite h.counters
  | ack f => exact tick_ackCheck h.state
  | restart => exact tick_restart h.state
  | recv n k => exact tick_readData h.state
  | reply n => exact tick_ackSend h.state
  | stop => exact tick_stop h.state

/-- The first three ticks of a slot stay in it. -/
theorem At.tick_within (h : At P cw s c) (hp : c.phase ≠ 3#2) (x : Bool) :
    At P cw s (tick P c x) ∧ (tick P c x).phase = c.phase + 1 := by
  rw [h.tick_eq x]
  obtain ⟨ha, hs, hw, hd, ht, hc, hscl, hen, hout⟩ := h
  cases s <;> rcases phase_cases c.phase with p | p | p | p <;>
    first
    | exact absurd p hp
    | (simp only [Slot.arm, Regs.start, Regs.writeBits, Regs.ackCheck, Regs.restart, Regs.readData,
         Regs.ackSend, Regs.stop, Regs.next, p]
       refine ⟨⟨ha, hs, hw, hd, ht, hc, ?_, ?_, ?_⟩, ?_⟩ <;>
         simp_all [Slot.scl, Slot.sdaOut, Slot.slaveOwned])

/-- The fourth goes to the next slot. -/
theorem At.tick_last (h : At P cw s c) (hp : c.phase = 3#2) (x : Bool) {s' : Slot}
    (hn : s.next cw = some s') : At P cw s' (tick P c x) ∧ (tick P c x).phase = 0#2 := by
  have ha' := Slot.next_allowed hn h.allowed
  rw [h.tick_eq x]
  obtain ⟨ha, hs, hw, hd, ht, hc, hscl, hen, hout⟩ := h
  cases s with
  | start =>
    cases hn
    simp only [Slot.arm, Regs.start, Regs.next, hp]
    exact ⟨⟨ha', rfl, hw, hd, ht, rfl, by simp [hscl, hp, Slot.scl], hen,
      by simp [Slot.sdaOut]⟩, rfl⟩
  | bit f k =>
    have hk : c.bitCnt = BitVec.ofNat 4 k := hc
    cases hn
    simp only [Slot.arm, Regs.writeBits, Regs.next, hp, hk, ofNat_eq_zero_iff]
    by_cases h0 : k = 0
    · simp only [if_pos h0] at ha' ⊢
      refine ⟨⟨ha', rfl, hw, hd, ht, rfl, by simp [Slot.scl], rfl, ?_⟩, rfl⟩
      simpa [Slot.sdaOut, hp, h0] using hout
    · simp only [if_neg h0] at ha' ⊢
      exact ⟨⟨ha', hs, hw, hd, ht, ofNat_sub_one k h0, by simp [Slot.scl], hen,
        by simp [Slot.sdaOut]⟩, by simp⟩
  | ack f =>
    have hsv : c.savedState = f.saved cw := hc
    cases hn
    simp only [Slot.arm, Regs.ackCheck, Regs.next, hp, hsv]
    cases f <;> cases cw <;> first
      | exact absurd ha (by decide)
      | exact ⟨⟨ha', rfl, hw, hd, ht,
          by first | exact ⟨rfl, rfl⟩ | exact rfl | simp [Frame.after, Slot.Counters],
          rfl, rfl, by simp [Frame.after, Slot.sdaOut, Frame.saved]⟩, rfl⟩
  | restart =>
    cases hn
    simp only [Slot.arm, Regs.restart, Regs.next, hp]
    exact ⟨⟨ha', rfl, hw, hd, ht, rfl, by simp [Slot.scl], hen, by simp [Slot.sdaOut]⟩, rfl⟩
  | recv n k =>
    obtain ⟨hk, hb⟩ : c.bitCnt = BitVec.ofNat 4 k ∧ c.byteCnt = BitVec.ofNat 4 n := hc
    cases hn
    simp only [Slot.arm, Regs.readData, Regs.next, hp, hk, ofNat_eq_zero_iff]
    by_cases h0 : k = 0
    · simp only [if_pos h0] at ha' ⊢
      refine ⟨⟨ha', rfl, hw, hd, ht, hb, by simp [Slot.scl], rfl, ?_⟩, rfl⟩
      intro b hb'
      cases hb'
      rw [hb, Bool.eq_iff_iff, beq_iff_eq, beq_iff_eq, ofNat_eq_13_iff]
    · simp only [if_neg h0] at ha' ⊢
      exact ⟨⟨ha', hs, hw, hd, ht, ⟨ofNat_sub_one k h0, hb⟩, by simp [Slot.scl], hen,
        by simp [Slot.sdaOut]⟩, by simp⟩
  | reply n =>
    have hb : c.byteCnt = BitVec.ofNat 4 n := hc
    cases hn
    simp only [Slot.arm, Regs.ackSend, Regs.next, hp, hb, ofNat_eq_13_iff]
    by_cases h13 : n = 13
    · simp only [if_pos h13] at ha' ⊢
      exact ⟨⟨ha', rfl, hw, hd, ht, fun _ => (ofNat_eq_13_iff n).mpr h13, by simp [Slot.scl], hen,
        by simp [Slot.sdaOut]⟩, rfl⟩
    · simp only [if_neg h13] at ha' ⊢
      exact ⟨⟨ha', rfl, hw, hd, ht, ⟨rfl, ofNat_add_one n h13⟩, by simp [Slot.scl], rfl,
        by simp [Slot.sdaOut]⟩, rfl⟩
  | stop => cases hn

/-- The tick that leaves STOP. -/
theorem At.tick_end (h : At P cw .stop c) (hp : c.phase = 3#2) (x : Bool) :
    tick P c x = if cw then
      { c with phase := 0, configDone := true, state := State.waitConfig }
    else { c with phase := 0, out := mapOutputs c.rx, state := State.idle } := by
  rw [h.tick_eq x]
  simp only [Slot.arm, Regs.stop, Regs.next, hp, h.configWrite]

theorem At.stop_of_ends (h : At P cw s c) (he : c.Ends) : s = .stop :=
  Slot.stop_of_state (h.state.symm.trans he.1)

/-- All a tick can do inside a transaction: end it, go to the next slot, or stay. -/
theorem At.step (h : At P cw s c) (x : Bool) :
    c.Ends ∧ s = .stop ∨
    (c.phase = 3#2 ∧ ∃ s', s.next cw = some s' ∧ At P cw s' (tick P c x) ∧
      (tick P c x).phase = 0#2) ∨
    (c.phase ≠ 3#2 ∧ At P cw s (tick P c x) ∧ (tick P c x).phase = c.phase + 1) := by
  by_cases hp : c.phase = 3#2
  · cases hn : s.next cw with
    | none =>
      have hs : s = .stop := by cases s <;> first | rfl | cases hn
      subst hs
      exact .inl ⟨⟨h.state, hp⟩, rfl⟩
    | some s' => exact .inr (.inl ⟨hp, s', rfl, h.tick_last hp x hn⟩)
  · exact .inr (.inr ⟨hp, h.tick_within hp x⟩)

theorem Slot.next_ne_start {cw : Bool} {s s' : Slot} (h : s.next cw = some s') : s' ≠ .start := by
  rintro rfl
  cases s with
  | ack f => cases f <;> cases cw <;> cases h
  | bit f k | recv n k | reply n =>
    simp only [Slot.next, Option.some.injEq] at h
    split at h <;> cases h
  | start | restart | stop => cases h

/-- Inside a slot the master's lines move as the slot says, whatever SDA carries. -/
theorem At.edge (h : At P cw s c) (x : Bool) :
    edge (lines c) (lines (tick P c x)) = s.edge P cw c.phase := by
  rcases h.step x with ⟨⟨_, hp⟩, rfl⟩ | ⟨hp, s', hn, h', hp'⟩ | ⟨hp, _⟩
  · rw [h.tick_end hp x]
    cases cw <;> simp [lines, Regs.sda, I2c.edge, h.scl, hp, Slot.scl, Slot.edge] <;>
      split <;> simp_all
  · have hscl : (tick P c x).i2cScl = false := by
      rw [h'.scl, hp']
      simp [Slot.scl, Slot.next_ne_start hn]
    cases s <;>
      first
      | simp [lines, I2c.edge, h.scl, hscl, hp, Slot.scl, Slot.edge]; done
      | cases hn
  · rw [h.tick_eq x]
    obtain ⟨ha, hs, hw, hd, ht, hc, hscl, hen, hout⟩ := h
    cases s <;> rcases phase_cases c.phase with p | p | p | p <;>
      first
      | exact absurd p hp
      | simp_all [Slot.arm, Regs.start, Regs.writeBits, Regs.ackCheck, Regs.restart, Regs.readData,
          Regs.ackSend, Regs.stop, Regs.next, lines, Regs.sda, I2c.edge, Slot.scl, Slot.sdaOut,
          Slot.slaveOwned, Slot.edge]

end At

/-! ## Waiting -/

theorem Waiting.of_reset (c : Regs) : Waiting c.reset where
  state := .inl rfl
  scl := rfl
  sdaEn := rfl
  sdaOut := rfl
  timer := by simp [Regs.reset, refreshLimit]
  fresh := fun _ => rfl

theorem Waiting.lines_eq {c : Regs} (h : Waiting c) : lines c = ⟨true, true⟩ := by
  simp [lines, Regs.sda, h.scl, h.sdaEn, h.sdaOut]

theorem Waiting.idle_of_fresh {c : Regs} (h : Waiting c) (hd : c.configDone = false) :
    c.state = State.idle := by
  rcases h.state with hs | ⟨_, hd'⟩
  · exact hs
  · rw [hd] at hd'
    cases hd'

theorem Waiting.state_ne {c : Regs} (h : Waiting c) {st : BitVec 5} (hi : st ≠ State.idle)
    (hw : st ≠ State.waitConfig) : c.state ≠ st := by
  intro hs
  rcases h.state with he | ⟨he, _⟩
  · exact hi (hs.symm.trans he)
  · exact hw (hs.symm.trans he)

theorem Waiting.not_ends {c : Regs} (h : Waiting c) : ¬ c.Ends :=
  fun he => h.state_ne (by decide) (by decide) he.1

theorem At.start_lines {P : BitVec 8} {cw : Bool} {c : Regs} (h : At P cw .start c)
    (hp : c.phase = 0#2) : lines c = ⟨true, true⟩ := by
  have hout := h.sdaOut
  simp_all [lines, Regs.sda, h.scl, h.sdaEn, Slot.scl, Slot.slaveOwned, Slot.sdaOut]

/-- A tick between transactions waits on, or starts the next transaction: the
configuration until it is done, reads from then on. -/
theorem Waiting.tick {P : BitVec 8} {c : Regs} (h : Waiting c) (x : Bool) :
    Waiting (tick P c x) ∧ (tick P c x).configDone = c.configDone ∨
      c.state = State.idle ∧ At P (!c.configDone) .start (tick P c x) ∧
        (tick P c x).phase = 0#2 := by
  obtain ⟨hs, hscl, hen, hout, ht, hf⟩ := h
  rcases hs with hs | ⟨hs, hd⟩
  · rw [tick_idle hs]
    unfold Regs.idle
    cases hd : c.configDone
    · right
      simp only [if_true]
      exact ⟨hs, ⟨rfl, rfl, rfl, by simp, hf hd, trivial, rfl, rfl, by simp [Slot.sdaOut]⟩, rfl⟩
    · by_cases hlt : c.refreshTimer < refreshLimit
      · left
        simp only [Bool.true_eq_false, if_false, if_pos hlt]
        refine ⟨⟨.inl hs, rfl, rfl, rfl, ?_, by simp⟩, trivial⟩
        simp only [refreshLimit] at hlt ⊢
        bv_omega
      · right
        simp only [Bool.true_eq_false, if_false, if_neg hlt]
        exact ⟨hs, ⟨rfl, rfl, rfl, by simp, rfl, trivial, rfl, rfl, by simp [Slot.sdaOut]⟩, rfl⟩
  · left
    rw [tick_waitConfig hs]
    unfold Regs.waitConfig Regs.next
    by_cases hlt : c.refreshTimer < 10000#20
    · simp only [if_pos hlt]
      refine ⟨⟨.inr ⟨hs, hd⟩, hscl, hen, hout, ?_, by simp [hd]⟩, trivial⟩
      simp only [refreshLimit]
      bv_omega
    · simp only [if_neg hlt]
      exact ⟨⟨.inl rfl, hscl, hen, hout, by simp [refreshLimit], fun _ => rfl⟩, trivial⟩

/-- After STOP the controller waits, and the configuration is done. -/
theorem At.tick_stop {P : BitVec 8} {cw : Bool} {c : Regs} (h : At P cw .stop c)
    (hp : c.phase = 3#2) (x : Bool) :
    Waiting (tick P c x) ∧ (tick P c x).configDone = true := by
  have hout : c.sdaOut = true := by
    have := h.sdaOut
    simpa [Slot.sdaOut, hp] using this
  have hscl : c.i2cScl = true := by rw [h.scl, hp]; rfl
  have hd := h.configDone
  rw [h.tick_end hp x]
  cases cw
  · exact ⟨⟨.inl rfl, hscl, h.sdaEn, hout, by simp [h.timer, refreshLimit], fun _ => h.timer⟩, hd⟩
  · exact ⟨⟨.inr ⟨rfl, rfl⟩, hscl, h.sdaEn, hout, by simp [h.timer, refreshLimit],
      fun _ => h.timer⟩, rfl⟩

/-! ## Every reachable state -/

/-- Where the controller can be: between transactions or inside a slot. -/
def Sequenced (P : BitVec 8) (c : Regs) : Prop := Waiting c ∨ ∃ cw s, At P cw s c

theorem Sequenced.tick {P : BitVec 8} {c : Regs} (h : Sequenced P c) (x : Bool) :
    Sequenced P (tick P c x) := by
  rcases h with h | ⟨cw, s, h⟩
  · rcases h.tick (P := P) x with ⟨h', _⟩ | ⟨_, h', _⟩
    · exact .inl h'
    · exact .inr ⟨_, _, h'⟩
  · rcases h.step x with ⟨he, rfl⟩ | ⟨_, s', _, h', _⟩ | ⟨_, h', _⟩
    · exact .inl (h.tick_stop he.2 x).1
    · exact .inr ⟨_, _, h'⟩
    · exact .inr ⟨_, _, h'⟩

theorem Sequenced.run {P : BitVec 8} {c : Regs} (h : Sequenced P c) (xs : List Bool) :
    Sequenced P (xs.foldl (Controller.tick P) c) := by
  induction xs generalizing c with
  | nil => exact h
  | cons x xs ih => exact ih (h.tick x)

/-- `config_done` is cleared by a reset only. -/
theorem Sequenced.configDone {P : BitVec 8} {c : Regs} (h : Sequenced P c)
    (hd : c.configDone = true) (x : Bool) : (Controller.tick P c x).configDone = true := by
  rcases h with h | ⟨cw, s, h⟩
  · rcases h.tick (P := P) x with ⟨_, h'⟩ | ⟨_, h', _⟩
    · exact h'.trans hd
    · rw [h'.configDone, hd]; rfl
  · rcases h.step x with ⟨he, rfl⟩ | ⟨_, s', _, h', _⟩ | ⟨_, h', _⟩
    · exact (h.tick_stop he.2 x).2
    · rw [h'.configDone, ← h.configDone, hd]
    · rw [h'.configDone, ← h.configDone, hd]

theorem Sequenced.released {P : BitVec 8} {c : Regs} (h : Sequenced P c)
    (hs : c.state = State.ackCheck ∨ c.state = State.readData) : c.sda = true := by
  rcases h with h | ⟨cw, s, h⟩
  · simp [Regs.sda, h.sdaOut]
  · have hen := h.sdaEn
    have hst := h.state
    cases s with
    | ack f | recv n k => simp [Regs.sda, hen, Slot.slaveOwned]
    | bit f k => cases f <;> simp_all [Slot.state, Frame.state]
    | start | restart | reply n | stop => simp_all [Slot.state]

/-- Every state since a reset at any time, whatever SDA carries. -/
inductive Reached (P : BitVec 8) : Regs → Prop
  | reset (c : Regs) : Reached P c.reset
  | tick {c : Regs} (h : Reached P c) (x : Bool) : Reached P (Controller.tick P c x)

theorem Reached.sequenced {P : BitVec 8} {c : Regs} (h : Reached P c) : Sequenced P c := by
  induction h with
  | reset c => exact .inl (Waiting.of_reset c)
  | tick _ x ih => exact ih.tick x

theorem Reached.run {P : BitVec 8} {c : Regs} (h : Reached P c) (xs : List Bool) :
    Reached P (xs.foldl (Controller.tick P) c) := by
  induction xs generalizing c with
  | nil => exact h
  | cons x xs ih => exact ih (h.tick x)

end IotController.Sequencer
