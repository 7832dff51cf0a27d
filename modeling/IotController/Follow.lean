import IotController.Sequencer
import IotController.I2c.Slave

/-! # What the slave does in each slot

`Follows` is the slave's side of a transaction: its mode and its memory at every
phase of every slot, for a slave that has seen START and for one that has not,
because it was holding SDA low. The latter takes the device address for a
pointer or a data byte, and everything after it for data. -/
namespace IotController.Follow
open IotController.Controller IotController.I2c IotController.Sequencer

/-- The transaction as the slave meets it: its kind, the memory it began with,
and what the slave takes the device address for when it missed START. -/
structure Session where
  regAddrStart : BitVec 8
  cw : Bool
  missed : Option Target
  mem : Mem

namespace Session
variable (w : Session)

def byte (f : Frame) : BitVec 8 := f.byte w.regAddrStart w.cw

/-- What the slave takes a frame for. -/
def target : Frame → Option Target
  | .devAddr => w.missed
  | .regAddr => some (if w.missed = none then .pointer else .data)
  | .regData => some .data
  | .rdDevAddr => none

/-- The memory when a frame begins. -/
def before : Frame → Mem
  | .devAddr => w.mem
  | .regAddr => w.mem.received w.missed (w.byte .devAddr)
  | .regData | .rdDevAddr =>
    (w.mem.received w.missed (w.byte .devAddr)).received (w.target .regAddr) (w.byte .regAddr)

def after (f : Frame) : Mem := (w.before f).received (w.target f) (w.byte f)

/-- The mode in the acknowledge slot of a frame. -/
def acking : Frame → Mode
  | .devAddr => .ackWrite (if w.missed = none then .pointer else .data)
  | .regAddr | .regData => .ackWrite .data
  | .rdDevAddr => .ackRead

/-- The memory once `n` bytes of the burst have been fetched. -/
def fetched (n : Nat) : Mem :=
  { w.mem with ptr := w.regAddrStart + BitVec.ofNat 8 n }

/-- Byte `n` of the burst. -/
def sent (n : Nat) : BitVec 8 := w.mem.regs (w.regAddrStart + BitVec.ofNat 8 n)

/-- The memory when STOP begins. -/
def final : Mem := if w.cw then w.after .regData else w.fetched 14

/-- A transaction whose START was missed can only be a configuration. -/
def Ok : Prop := w.cw = false → w.missed = none

/-- Mode and memory at phase `ph` of a slot. -/
def Follows (ph : BitVec 2) (s : Slave) : Slot → Prop
  | .start => s.mem = w.mem ∧ match w.missed with
    | none => if ph = 0 ∨ ph = 1 then s.mode.sda = true else s.mode = .listen none []
    | some t => s.mode = if ph = 3 then .listen (some t) [] else .ackWrite t
  | .bit f k => s = ⟨w.before f, .listen (w.target f)
      ((msbFirst (w.byte f)).take (if ph = 0 ∨ ph = 1 then 7 - k else 8 - k))⟩
  | .ack f => s = ⟨w.after f, w.acking f⟩
  | .restart => s = ⟨w.after .regAddr,
      if ph = 0 ∨ ph = 1 then .listen (some .data) []
      else if ph = 2 then .listen (some .data) [true] else .listen none []⟩
  | .recv n k => s = ⟨w.fetched (n + 1), .send (w.sent n) k⟩
  | .reply n => s = ⟨w.fetched (n + 1), .answer (if ph = 0 ∨ ph = 1 then none else some (n == 13))⟩
  | .stop => s = ⟨w.final,
      if w.cw ∧ (ph = 0 ∨ ph = 1) then .listen (some .data) []
      else if w.cw ∧ ph = 2 then .listen (some .data) [false] else .idle⟩

variable {w}

theorem after_regAddr_of_read (hw : w.Ok) (hr : w.cw = false) : w.after .regAddr = w.fetched 0 := by
  simp [after, before, target, hw hr, byte, Frame.byte, hr, Mem.received, fetched]

theorem fetched_fetched (n : Nat) : (w.fetched n).fetched = w.fetched (n + 1) := by
  simp only [fetched, Mem.fetched, Mem.mk.injEq, true_and, and_true]
  rw [BitVec.ofNat_add, BitVec.add_assoc]
  rfl

theorem received_byte (f : Frame) :
    Mode.received slaveAddr (w.target f) (w.byte f) = w.acking f := by
  cases f with
  | devAddr =>
    cases hm : w.missed <;> simp [target, acking, hm, Mode.received, byte, Frame.byte]
    decide
  | regAddr | regData => rfl
  | rdDevAddr =>
    simp [target, acking, Mode.received, byte, Frame.byte]
    decide

/-- The first three ticks of a slot. -/
theorem Follows.within {ph : BitVec 2} {s : Slave} {sl : Slot} (h : w.Follows ph s sl)
    (hp : ph ≠ 3#2) :
    w.Follows (ph + 1) (s.hear slaveAddr (sl.edge w.regAddrStart w.cw ph)) sl := by
  cases sl with
  | start =>
    obtain ⟨hm, h⟩ := h
    cases hmiss : w.missed with
    | none =>
      rw [hmiss] at h
      rcases phase_cases ph with rfl | rfl | rfl | rfl <;>
        simp_all [Slot.edge, Follows, Slave.hear_none, Slave.hear_start, Slave.hear_fall,
          Slave.fall]
    | some t =>
      rw [hmiss] at h
      rcases phase_cases ph with rfl | rfl | rfl | rfl <;>
        simp_all [Slot.edge, Follows, Slave.hear_none, Slave.hear_start, Slave.hear_fall,
          Slave.fall, Mode.sda]
  | bit f k =>
    rcases phase_cases ph with rfl | rfl | rfl | rfl
    · exact h
    · rw [show s = _ from h]
      simp [Slot.edge, Slave.hear_rise, Slave.rise, Mode.sda, Follows]
      exact take_msbFirst _ k
    · exact h
    · exact absurd rfl hp
  | ack f =>
    rcases phase_cases ph with rfl | rfl | rfl | rfl
    · exact h
    · rw [show s = _ from h]
      cases f <;> rfl
    · exact h
    · exact absurd rfl hp
  | restart =>
    rw [show s = _ from h]
    rcases phase_cases ph with rfl | rfl | rfl | rfl <;> first | rfl | exact absurd rfl hp
  | recv n k =>
    rw [show s = _ from h]
    rcases phase_cases ph with rfl | rfl | rfl | rfl <;> first | rfl | exact absurd rfl hp
  | reply n =>
    rw [show s = _ from h]
    rcases phase_cases ph with rfl | rfl | rfl | rfl
    · rfl
    · simp [Slot.edge, Slave.hear_rise, Slave.rise, Mode.sda, Follows]
    · rfl
    · exact absurd rfl hp
  | stop =>
    rw [show s = _ from h]
    cases hc : w.cw <;> rcases phase_cases ph with rfl | rfl | rfl | rfl <;>
      first
      | exact absurd rfl hp
      | simp [Follows, Slot.edge, Slave.hear_rise, Slave.hear_stop, Slave.hear_none, Slave.rise,
          Mode.sda, hc]

theorem load_fetched (n : Nat) (mode : Mode) :
    Slave.load ⟨w.fetched n, mode⟩ = ⟨w.fetched (n + 1), .send (w.sent n) 7⟩ := by
  rw [Slave.load, fetched_fetched]
  rfl

/-- The fourth, into the next slot. -/
theorem Follows.last {s : Slave} {sl sl' : Slot} (h : w.Follows 3#2 s sl) (hw : w.Ok)
    (ha : sl.allowed w.cw = true) (hn : sl.next w.cw = some sl') :
    w.Follows 0#2 (s.hear slaveAddr (sl.edge w.regAddrStart w.cw 3#2)) sl' := by
  cases sl with
  | start =>
    cases hn
    obtain ⟨m, mode⟩ := s
    obtain ⟨rfl, h⟩ := h
    have hmode : mode = .listen w.missed [] := by cases hm : w.missed <;> simpa [hm] using h
    rw [hmode]
    rfl
  | bit f k =>
    cases hn
    have he : (Slot.bit f k).edge w.regAddrStart w.cw 3#2 = .fall := rfl
    have hs : s = ⟨w.before f, .listen (w.target f) ((msbFirst (w.byte f)).take (8 - k))⟩ := h
    rw [hs, he, Slave.hear_fall]
    by_cases h0 : k = 0
    · have hall : (msbFirst (w.byte f)).take (8 - k) = msbFirst (w.byte f) := by
        rw [h0]
        exact List.take_of_length_le (Nat.le_of_eq (msbFirst_length _))
      rw [hall, Slave.fall_full, received_byte, if_pos h0]
      rfl
    · have hpred := pred_val k h0
      have hlen : ((msbFirst (w.byte f)).take (8 - k)).length ≠ 8 := by
        rw [List.length_take, msbFirst_length]; omega
      have htake : 7 - (k - 1 : Fin 8).val = 8 - k.val := by omega
      rw [Slave.fall_short slaveAddr _ _ hlen, if_neg h0, ← htake]
      rfl
  | ack f =>
    cases hn
    rw [show s = _ from h]
    cases f with
    | devAddr => rfl
    | regAddr => cases hc : w.cw <;> simp [Frame.after] <;> rfl
    | regData =>
      have hc : w.cw = true := by cases hc : w.cw <;> simp_all [Slot.allowed]
      simp [Frame.after, Follows, Slot.edge, Slave.hear_fall, Slave.fall, acking, final, hc]
    | rdDevAddr =>
      have hc : w.cw = false := by cases hc : w.cw <;> simp_all [Slot.allowed]
      have hm : w.after .rdDevAddr = w.fetched 0 := after_regAddr_of_read hw hc
      rw [hm]
      exact load_fetched 0 _
  | restart =>
    cases hn
    rw [show s = _ from h]
    rfl
  | recv n k =>
    cases hn
    rw [show s = _ from h]
    by_cases h0 : k = 0 <;> simp [Slot.edge, Slave.hear_fall, Slave.fall, Follows, h0]
  | reply n =>
    cases hn
    have hc : w.cw = false := by simpa [Slot.allowed] using ha
    rw [show s = _ from h]
    by_cases h13 : n = 13
    · subst h13
      have he : (Slot.reply 13).edge w.regAddrStart w.cw 3#2 = .fall := rfl
      have hfinal : w.final = w.fetched ((13 : Fin 14).val + 1) := by rw [final, hc]; rfl
      rw [he, Slave.hear_fall]
      simp [Slave.fall, Follows, hfinal, hc]
    · have hb : (n == 13) = false := by simpa using h13
      have he : (Slot.reply n).edge w.regAddrStart w.cw 3#2 = .fall := rfl
      simp only [he, Slave.hear_fall, Slave.fall, if_neg h13, Follows, val_succ n h13]
      simpa [hb] using load_fetched (n + 1) _
  | stop => cases hn

/-! ## The memory through a session -/

/-- The data byte of a configuration has been taken in. -/
def written (w : Session) : Slot → Bool
  | .ack .regData => true
  | .stop => w.cw
  | _ => false

theorem after_regData_seen (hc : w.cw = true) (hm : w.missed = none) :
    (w.after .regData).regs = Function.update w.mem.regs regPwrMgmt1 regPwrData ∧
      (w.after .regData).writes = regPwrMgmt1 :: w.mem.writes := by
  simp [after, before, target, hm, byte, Frame.byte, hc, Mem.received, regPwrMgmt1, regPwrData]

/-- A slave that took the device address for a byte of its own ends by writing
two neighbouring registers. -/
theorem after_regData_missed {t : Target} (hc : w.cw = true) (hm : w.missed = some t) :
    ∃ a ws, (w.after .regData).writes = (a + 1) :: a :: ws ++ w.mem.writes := by
  cases t with
  | pointer =>
    exact ⟨0xD0, [], by simp [after, before, target, hm, byte, Frame.byte, hc, Mem.received]⟩
  | data =>
    exact ⟨w.mem.ptr + 1, [w.mem.ptr],
      by simp [after, before, target, hm, byte, Frame.byte, hc, Mem.received]⟩

/-- With START seen, the one write of a session goes to PWR_MGMT_1. -/
theorem Follows.mem {ph : BitVec 2} {s : Slave} {sl : Slot} (h : w.Follows ph s sl)
    (hm : w.missed = none) (ha : sl.allowed w.cw = true) :
    s.mem.regs = (if w.written sl then Function.update w.mem.regs regPwrMgmt1 regPwrData
      else w.mem.regs) ∧
    s.mem.writes = (if w.written sl then regPwrMgmt1 :: w.mem.writes else w.mem.writes) := by
  have hbefore (f : Frame) : (w.before f).regs = w.mem.regs ∧
      (w.before f).writes = w.mem.writes := by
    cases f <;> simp [before, hm, target, Mem.received]
  have hafter (f : Frame) (hf : f ≠ .regData) : (w.after f).regs = w.mem.regs ∧
      (w.after f).writes = w.mem.writes := by
    cases f with
    | regData => exact absurd rfl hf
    | devAddr | regAddr | rdDevAddr => simp [after, hbefore, target, hm, Mem.received]
  cases sl with
  | start => exact ⟨by rw [h.1]; rfl, by rw [h.1]; rfl⟩
  | bit f k => rw [show s = _ from h]; exact hbefore f
  | ack f =>
    rw [show s = _ from h]
    cases f with
    | regData => exact after_regData_seen (by cases hc : w.cw <;> simp_all [Slot.allowed]) hm
    | devAddr | regAddr | rdDevAddr => exact hafter _ (by decide)
  | restart => rw [show s = _ from h]; exact hafter _ (by decide)
  | recv n k | reply n => rw [show s = _ from h]; exact ⟨rfl, rfl⟩
  | stop =>
    rw [show s = _ from h]
    cases hc : w.cw
    · simp [final, hc, written, fetched]
    · simpa [final, hc, written] using after_regData_seen hc hm

end Session
end IotController.Follow
