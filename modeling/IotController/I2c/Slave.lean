import IotController.I2c.Bus

/-! # A slave with a register file

The other end of the bus: a seven-bit address, 256 byte registers and a pointer
that moves on after every byte. The slave samples SDA when SCL rises and changes
its own drive only when SCL falls; START and STOP it knows only as changes of
SDA with SCL high, so while it holds SDA low it can see neither. -/
namespace IotController.I2c

/-! ## Memory -/

/-- What a byte written after the device address is for. -/
inductive Target where
  | pointer
  | data
deriving DecidableEq, Repr

structure Mem where
  regs : BitVec 8 → BitVec 8
  ptr : BitVec 8
  /-- the registers written so far, the last one first -/
  writes : List (BitVec 8)

/-- A byte received as `t`; `none` is the device address. -/
def Mem.received (m : Mem) : Option Target → BitVec 8 → Mem
  | none, _ => m
  | some .pointer, b => { m with ptr := b }
  | some .data, b =>
    { regs := Function.update m.regs m.ptr b, ptr := m.ptr + 1, writes := m.ptr :: m.writes }

/-- A byte of the burst has been fetched. -/
def Mem.fetched (m : Mem) : Mem := { m with ptr := m.ptr + 1 }

/-! ## Modes -/

inductive Mode where
  | idle
  /-- taking in a byte for `t`, with the bits so far -/
  | listen (t : Option Target) (bits : List Bool)
  /-- acknowledging; the next byte is for `t` -/
  | ackWrite (t : Target)
  /-- acknowledging the address of a read -/
  | ackRead
  /-- sending bit `k` of `b` -/
  | send (b : BitVec 8) (k : Fin 8)
  /-- SDA left to the master, which answers the byte sent -/
  | answer (nack : Option Bool)
deriving DecidableEq, Repr

/-- The slave's own drive: low for an acknowledge or a 0 bit, released otherwise. -/
def Mode.sda : Mode → Bool
  | .ackWrite _ | .ackRead => false
  | .send b k => b.getLsbD k
  | .idle | .listen _ _ | .answer _ => true

/-- Where a whole byte leads. -/
def Mode.received (addr : BitVec 7) : Option Target → BitVec 8 → Mode
  | none, b =>
    if b.extractLsb' 1 7 = addr then (if b.getLsbD 0 then .ackRead else .ackWrite .pointer)
    else .idle
  | some _, _ => .ackWrite .data

structure Slave where
  mem : Mem
  mode : Mode

/-- Fetch the next byte and put its first bit on SDA. -/
def Slave.load (s : Slave) : Slave := ⟨s.mem.fetched, .send (s.mem.regs s.mem.ptr) 7⟩

def Slave.fall (addr : BitVec 7) (s : Slave) : Slave :=
  match s.mode with
  | .listen t bits =>
    if bits.length = 8 then ⟨s.mem.received t (ofBits bits), .received addr t (ofBits bits)⟩ else s
  | .ackWrite t => { s with mode := .listen (some t) [] }
  | .ackRead => s.load
  | .send b k => { s with mode := if k = 0 then .answer none else .send b (k - 1) }
  | .answer (some false) => s.load
  | .answer (some true) => { s with mode := .idle }
  | .answer none | .idle => s

def Slave.rise (s : Slave) (sda : Bool) : Slave :=
  match s.mode with
  | .listen t bits => { s with mode := .listen t (bits ++ [sda]) }
  | .answer _ => { s with mode := .answer (some sda) }
  | .idle | .ackWrite _ | .ackRead | .send _ _ => s

/-- One edge of the wires. -/
def Slave.step (addr : BitVec 7) (s : Slave) : Edge → Slave
  | .none => s
  | .rise sda => s.rise sda
  | .fall => s.fall addr
  | .start => { s with mode := .listen none [] }
  | .stop => { s with mode := .idle }

/-- The edge the slave sees when the master's lines make `e`. -/
def Slave.hear (addr : BitVec 7) (s : Slave) (e : Edge) : Slave := s.step addr (e.mask s.mode.sda)

/-! ## What an edge can do -/

section Hear
variable (addr : BitVec 7) (s : Slave)

theorem Slave.hear_rise (b : Bool) : s.hear addr (.rise b) = s.rise (b && s.mode.sda) := rfl

theorem Slave.hear_fall : s.hear addr .fall = s.fall addr := rfl

theorem Slave.hear_none : s.hear addr .none = s := rfl

theorem Slave.hear_start :
    s.hear addr .start = if s.mode.sda then { s with mode := .listen none [] } else s := by
  cases h : s.mode.sda <;> simp [Slave.hear, Edge.mask, Slave.step, h]

theorem Slave.hear_stop :
    s.hear addr .stop = if s.mode.sda then { s with mode := .idle } else s := by
  cases h : s.mode.sda <;> simp [Slave.hear, Edge.mask, Slave.step, h]

theorem Slave.fall_short (m : Mem) (t : Option Target) {bits : List Bool} (h : bits.length ≠ 8) :
    Slave.fall addr ⟨m, .listen t bits⟩ = ⟨m, .listen t bits⟩ := if_neg h

theorem Slave.fall_full (m : Mem) (t : Option Target) (v : BitVec 8) :
    Slave.fall addr ⟨m, .listen t (msbFirst v)⟩ = ⟨m.received t v, .received addr t v⟩ := by
  simp [Slave.fall, msbFirst_length, ofBits_msbFirst]

theorem Slave.rise_mem (b : Bool) : (s.rise b).mem = s.mem := by
  unfold Slave.rise; split <;> rfl

theorem Slave.rise_sda (b : Bool) : (s.rise b).mode.sda = s.mode.sda := by
  unfold Slave.rise; split <;> simp_all [Mode.sda]

/-- Only a fall of SCL changes the memory. -/
theorem Slave.hear_mem {e : Edge} (h : e ≠ .fall) : (s.hear addr e).mem = s.mem := by
  cases e with
  | fall => exact absurd rfl h
  | rise b => exact s.rise_mem _
  | start => rw [hear_start]; split <;> rfl
  | stop => rw [hear_stop]; split <;> rfl
  | none => rfl

/-- The slave changes its drive only after SCL has fallen. -/
theorem Slave.hear_sda {e : Edge} (h : e ≠ .fall) : (s.hear addr e).mode.sda = s.mode.sda := by
  cases e with
  | fall => exact absurd rfl h
  | rise b => exact s.rise_sda _
  | start => rw [hear_start]; split <;> simp_all [Mode.sda]
  | stop => rw [hear_stop]; split <;> simp_all [Mode.sda]
  | none => rfl

end Hear

/-! ## A slave that does not listen -/

/-- The slave is busy with a read, or waits for a START. -/
def Mode.mute : Mode → Bool
  | .idle | .ackRead | .send _ _ | .answer _ => true
  | .listen _ _ | .ackWrite _ => false

theorem Slave.rise_mute (s : Slave) (b : Bool) : (s.rise b).mode.mute = s.mode.mute := by
  unfold Slave.rise; split <;> simp_all [Mode.mute]

theorem Slave.fall_mute {addr : BitVec 7} {s : Slave} (h : s.mode.mute = true) :
    (s.fall addr).mode.mute = true ∧ (s.fall addr).mem.regs = s.mem.regs ∧
      (s.fall addr).mem.writes = s.mem.writes := by
  obtain ⟨m, mode⟩ := s
  cases mode with
  | listen t bits => cases h
  | ackWrite t => cases h
  | idle | ackRead => exact ⟨rfl, rfl, rfl⟩
  | send b k => by_cases hk : k = 0 <;> simp [Slave.fall, hk, Mode.mute]
  | answer nack => rcases nack with _ | _ | _ <;> exact ⟨rfl, rfl, rfl⟩

/-- Until it sees a START such a slave takes in nothing. -/
theorem Slave.hear_mute {addr : BitVec 7} {s : Slave} (h : s.mode.mute = true) {e : Edge}
    (he : e = .start → s.mode.sda = false) :
    (s.hear addr e).mode.mute = true ∧ (s.hear addr e).mem.regs = s.mem.regs ∧
      (s.hear addr e).mem.writes = s.mem.writes := by
  cases e with
  | none => exact ⟨h, rfl, rfl⟩
  | start => simp [hear_start, he rfl, h]
  | stop =>
    rw [hear_stop]
    split
    · exact ⟨rfl, rfl, rfl⟩
    · exact ⟨h, rfl, rfl⟩
  | rise b => rw [hear_rise, rise_mem, rise_mute]; exact ⟨h, rfl, rfl⟩
  | fall => exact fall_mute h

end IotController.I2c
