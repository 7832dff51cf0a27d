import Mathlib.Data.List.Basic

/-! # The MPU-6050 controller, tick by tick

`mpu6050_controller` has two copies, `fpga-rtl/test.v` and `Module4_test/test.v`,
which differ in one localparam. `tick` is one clock edge of the main FSM with
`i2c_tick` high. All assignments are non-blocking, so every right-hand side
reads the registers before the edge, and the second of two assignments to one
register wins: each arm updates `c.next`, which already has `phase <= phase + 1`. -/
namespace IotController.Controller

/-! ## Parameters -/

def slaveAddr : BitVec 7 := 0x68
def regPwrMgmt1 : BitVec 8 := 0x6B
def regPwrData : BitVec 8 := 0x00
def refreshLimit : BitVec 20 := 50000

/-- `REG_ADDR_START` of `fpga-rtl/test.v`. -/
abbrev FpgaRtl.regAddrStart : BitVec 8 := 0x3B

/-- `REG_ADDR_START` of `Module4_test/test.v`. -/
abbrev Module4Test.regAddrStart : BitVec 8 := 0x75

namespace State
abbrev idle : BitVec 5 := 0
abbrev start : BitVec 5 := 1
abbrev wrDevAddr : BitVec 5 := 2
abbrev wrRegAddr : BitVec 5 := 3
abbrev wrRegData : BitVec 5 := 4
abbrev ackCheck : BitVec 5 := 5
abbrev restart : BitVec 5 := 6
abbrev rdDevAddr : BitVec 5 := 7
abbrev readData : BitVec 5 := 8
abbrev ackSend : BitVec 5 := 9
abbrev stop : BitVec 5 := 10
abbrev waitConfig : BitVec 5 := 11
end State

/-! ## Registers -/

/-- The seven output registers, in the order of the port list. -/
@[ext] structure Outputs where
  accelX : BitVec 16
  accelY : BitVec 16
  accelZ : BitVec 16
  temp : BitVec 16
  gyroX : BitVec 16
  gyroY : BitVec 16
  gyroZ : BitVec 16
deriving DecidableEq, Repr

def Outputs.zero : Outputs := ⟨0, 0, 0, 0, 0, 0, 0⟩

@[ext] structure Regs where
  phase : BitVec 2
  state : BitVec 5
  savedState : BitVec 5
  bitCnt : BitVec 4
  byteCnt : BitVec 4
  dataBuffer : BitVec 8
  sdaOut : Bool
  sdaEn : Bool
  configDone : Bool
  rxData : Vector (BitVec 8) 14
  refreshTimer : BitVec 20
  configWrite : Bool
  i2cScl : Bool
  out : Outputs
deriving DecidableEq, Repr

/-- The reset branch. `rx_data` is the one register it leaves alone. -/
def Regs.reset (c : Regs) : Regs where
  state := State.idle
  savedState := State.idle
  phase := 0
  i2cScl := true
  sdaOut := true
  sdaEn := true
  refreshTimer := 0
  configDone := false
  configWrite := true
  out := Outputs.zero
  bitCnt := 0
  byteCnt := 0
  dataBuffer := 0
  rxData := c.rxData

/-- What the controller puts on the open-drain line: low when it drives 0,
released (high) otherwise. -/
def Regs.sda (c : Regs) : Bool := !(c.sdaEn && !c.sdaOut)

/-- `phase <= phase + 1`, the assignment in front of the `case`. -/
def Regs.next (c : Regs) : Regs := { c with phase := c.phase + 1 }

/-- `v[i] <= b`. A write outside the vector is ignored. -/
def writeBit (v : BitVec 8) (i : Nat) (b : Bool) : BitVec 8 :=
  (v &&& ~~~(1#8 <<< i)) ||| ((BitVec.ofBool b).zeroExtend 8 <<< i)

/-- `rx_data[i]`. -/
def Regs.rx (c : Regs) (i : Nat) : BitVec 8 := c.rxData.getD i 0

/-- `{rx_data[i], rx_data[i+1]}`. -/
def word (rx : Nat → BitVec 8) (i : Nat) : BitVec 16 := rx i ++ rx (i + 1)

/-- The output mapping of STOP, of any 14 bytes. -/
def mapOutputs (rx : Nat → BitVec 8) : Outputs where
  accelX := word rx 0
  accelY := word rx 2
  accelZ := word rx 4
  temp := word rx 6
  gyroX := word rx 8
  gyroY := word rx 10
  gyroZ := word rx 12

theorem mapOutputs_congr {f g : Nat → BitVec 8} (h : ∀ m < 14, f m = g m) :
    mapOutputs f = mapOutputs g := by
  simp [mapOutputs, word, h]

/-! ## The arms of the FSM -/

def Regs.idle (c : Regs) : Regs :=
  let c' := { c with i2cScl := true, sdaOut := true, sdaEn := true, phase := 0 }
  if c.configDone = false then { c' with state := State.start, configWrite := true }
  else if c.refreshTimer < refreshLimit then { c' with refreshTimer := c.refreshTimer + 1 }
  else { c' with refreshTimer := 0, state := State.start, configWrite := false }

def Regs.start (c : Regs) : Regs :=
  match c.phase with
  | 0#2 => { c.next with sdaOut := true, i2cScl := true }
  | 1#2 => { c.next with sdaOut := false }
  | 2#2 => { c.next with i2cScl := false }
  | 3#2 => { c.next with bitCnt := 7, state := State.wrDevAddr, phase := 0 }

/-- The four arms that write a byte: put the bit on SDA, raise SCL, lower it,
and after the last bit hand SDA to the slave and come back at `saved`. -/
def Regs.writeBits (c : Regs) (bit : Bool) (saved : BitVec 5) : Regs :=
  match c.phase with
  | 0#2 => { c.next with sdaOut := bit }
  | 1#2 => { c.next with i2cScl := true }
  | 2#2 => c.next
  | 3#2 =>
    if c.bitCnt = 0 then
      { c.next with i2cScl := false, sdaEn := false, state := State.ackCheck,
                    savedState := saved, phase := 0 }
    else { c.next with i2cScl := false, bitCnt := c.bitCnt - 1 }

/-- First frame is always a write: the R/W bit is 0. -/
def Regs.wrDevAddr (c : Regs) : Regs :=
  c.writeBits (if c.bitCnt = 0 then false else slaveAddr.getLsbD (c.bitCnt.toNat - 1))
    State.wrRegAddr

def Regs.wrRegAddr (regAddrStart : BitVec 8) (c : Regs) : Regs :=
  c.writeBits ((if c.configWrite then regPwrMgmt1 else regAddrStart).getLsbD c.bitCnt.toNat)
    (if c.configWrite then State.wrRegData else State.restart)

def Regs.wrRegData (c : Regs) : Regs :=
  c.writeBits (regPwrData.getLsbD c.bitCnt.toNat) State.stop

def Regs.rdDevAddr (c : Regs) : Regs :=
  c.writeBits (if c.bitCnt = 0 then true else slaveAddr.getLsbD (c.bitCnt.toNat - 1))
    State.readData

/-- Phase 2, where SCL is high, has no item: SDA is never looked at here. -/
def Regs.ackCheck (c : Regs) : Regs :=
  match c.phase with
  | 0#2 => { c.next with i2cScl := false }
  | 1#2 => { c.next with i2cScl := true }
  | 2#2 => c.next
  | 3#2 =>
    let c' := { c.next with i2cScl := false, sdaEn := true, phase := 0, state := c.savedState }
    if c.savedState = State.readData then { c' with bitCnt := 7, byteCnt := 0, sdaEn := false }
    else { c' with bitCnt := 7 }

def Regs.stop (c : Regs) : Regs :=
  match c.phase with
  | 0#2 => { c.next with sdaOut := false, i2cScl := false }
  | 1#2 => { c.next with i2cScl := true }
  | 2#2 => { c.next with sdaOut := true }
  | 3#2 =>
    if c.configWrite then
      { c.next with configDone := true, state := State.waitConfig, phase := 0 }
    else
      { c.next with out := mapOutputs c.rx, state := State.idle, phase := 0 }

def Regs.waitConfig (c : Regs) : Regs :=
  if c.refreshTimer < 10000#20 then { c.next with refreshTimer := c.refreshTimer + 1 }
  else { c.next with refreshTimer := 0, state := State.idle }

def Regs.restart (c : Regs) : Regs :=
  match c.phase with
  | 0#2 => { c.next with sdaOut := true, i2cScl := false }
  | 1#2 => { c.next with i2cScl := true }
  | 2#2 => { c.next with sdaOut := false }
  | 3#2 => { c.next with i2cScl := false, bitCnt := 7, state := State.rdDevAddr, phase := 0 }

def Regs.readData (c : Regs) (sda : Bool) : Regs :=
  match c.phase with
  | 0#2 => { c.next with i2cScl := false, sdaEn := false }
  | 1#2 => { c.next with i2cScl := true }
  | 2#2 => { c.next with dataBuffer := writeBit c.dataBuffer c.bitCnt.toNat sda }
  | 3#2 =>
    if c.bitCnt = 0 then
      { c.next with i2cScl := false, rxData := c.rxData.setIfInBounds c.byteCnt.toNat c.dataBuffer,
                    sdaEn := true, sdaOut := c.byteCnt == 13, state := State.ackSend, phase := 0 }
    else { c.next with i2cScl := false, bitCnt := c.bitCnt - 1 }

def Regs.ackSend (c : Regs) : Regs :=
  match c.phase with
  | 0#2 => { c.next with i2cScl := false }
  | 1#2 => { c.next with i2cScl := true }
  | 2#2 => c.next
  | 3#2 =>
    if c.byteCnt = 13 then { c.next with i2cScl := false, state := State.stop, phase := 0 }
    else
      { c.next with i2cScl := false, byteCnt := c.byteCnt + 1, bitCnt := 7, sdaEn := false,
                    state := State.readData, phase := 0 }

/-- One tick, with `sda` on the line at the edge. -/
def tick (regAddrStart : BitVec 8) (c : Regs) (sda : Bool) : Regs :=
  if c.state = State.idle then c.idle
  else if c.state = State.start then c.start
  else if c.state = State.wrDevAddr then c.wrDevAddr
  else if c.state = State.wrRegAddr then c.wrRegAddr regAddrStart
  else if c.state = State.wrRegData then c.wrRegData
  else if c.state = State.ackCheck then c.ackCheck
  else if c.state = State.stop then c.stop
  else if c.state = State.waitConfig then c.waitConfig
  else if c.state = State.restart then c.restart
  else if c.state = State.rdDevAddr then c.rdDevAddr
  else if c.state = State.readData then c.readData sda
  else if c.state = State.ackSend then c.ackSend
  else { c.next with state := State.idle }

/-- `mpu6050_controller` of `fpga-rtl/test.v`. -/
def FpgaRtl.tick : Regs → Bool → Regs := Controller.tick FpgaRtl.regAddrStart

/-- `mpu6050_controller` of `Module4_test/test.v`. -/
def Module4Test.tick : Regs → Bool → Regs := Controller.tick Module4Test.regAddrStart

/-- The tick that ends a transaction: phase 3 of STOP. -/
def Regs.Ends (c : Regs) : Prop := c.state = State.stop ∧ c.phase = 3#2

/-- The tick that ends a read. -/
def Regs.Commits (c : Regs) : Prop := c.Ends ∧ c.configWrite = false

instance (c : Regs) : Decidable c.Ends := inferInstanceAs (Decidable (_ ∧ _))
instance (c : Regs) : Decidable c.Commits := inferInstanceAs (Decidable (_ ∧ _))

/-! ## What the arms leave alone -/

/-- The registers that carry data. -/
def Regs.data (c : Regs) : Vector (BitVec 8) 14 × BitVec 8 × Outputs :=
  (c.rxData, c.dataBuffer, c.out)

section Frame
variable (c : Regs) (x : Bool)

@[simp] theorem Regs.idle_data : c.idle.data = c.data := by
  unfold Regs.idle; split; rfl; split <;> rfl

@[simp] theorem Regs.start_data : c.start.data = c.data := by
  unfold Regs.start; split <;> rfl

@[simp] theorem Regs.writeBits_data (bit : Bool) (saved : BitVec 5) :
    (c.writeBits bit saved).data = c.data := by
  unfold Regs.writeBits; split <;> first | rfl | (split <;> rfl)

@[simp] theorem Regs.ackCheck_data : c.ackCheck.data = c.data := by
  unfold Regs.ackCheck; split <;> first | rfl | (split <;> rfl)

@[simp] theorem Regs.waitConfig_data : c.waitConfig.data = c.data := by
  unfold Regs.waitConfig; split <;> rfl

@[simp] theorem Regs.restart_data : c.restart.data = c.data := by
  unfold Regs.restart; split <;> rfl

@[simp] theorem Regs.ackSend_data : c.ackSend.data = c.data := by
  unfold Regs.ackSend; split <;> first | rfl | (split <;> rfl)

@[simp] theorem Regs.readData_out : (c.readData x).out = c.out := by
  unfold Regs.readData; split <;> first | rfl | (split <;> rfl)

theorem ite_data {p : Prop} [Decidable p] {a b : Regs} (ha : a.data = c.data)
    (hb : b.data = c.data) : (if p then a else b).data = c.data := by
  split
  · exact ha
  · exact hb

/-- Only READ_DATA and STOP touch the data registers. -/
theorem tick_data (P : BitVec 8) (hr : c.state ≠ State.readData) (hs : c.state ≠ State.stop) :
    (tick P c x).data = c.data := by
  rw [tick, if_neg hr, if_neg hs]
  exact ite_data c c.idle_data <| ite_data c c.start_data <|
    ite_data c (c.writeBits_data _ _) <| ite_data c (c.writeBits_data _ _) <|
    ite_data c (c.writeBits_data _ _) <| ite_data c c.ackCheck_data <|
    ite_data c c.waitConfig_data <| ite_data c c.restart_data <|
    ite_data c (c.writeBits_data _ _) <| ite_data c c.ackSend_data rfl

/-- The outputs change in one place, all seven at once. -/
theorem tick_out (P : BitVec 8) : (tick P c x).out =
    if c.Commits then mapOutputs c.rx else c.out := by
  by_cases hs : c.state = State.stop
  · have ht : tick P c x = c.stop := by simp [tick, hs]
    rw [ht, Regs.stop]
    simp only [Regs.Commits, Regs.Ends, hs, true_and]
    split <;> simp_all [Regs.next]
    split <;> simp_all
  · rw [if_neg (fun h => hs h.1.1)]
    by_cases hr : c.state = State.readData
    · simp [tick, hr]
    · exact congrArg (·.2.2) (tick_data c x P hr hs)

end Frame

end IotController.Controller
