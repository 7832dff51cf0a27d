import IotController.Follow
import IotController.Samples
import IotController.Timing

/-! # Controller and sensor on one bus

`Loop` puts the controller and a slave at its address on one pair of wires. The
controller reads the wired AND of both drives; the slave hears the edges of the
wires. Its registers may change by themselves between transactions. Over any run
from a reset the two stay in step, slot by slot. -/
namespace IotController.ClosedLoop
open IotController.Controller IotController.I2c IotController.Sequencer IotController.Samples
open IotController.Follow
open IotController.Timing (Elapsed succ_of_ne)

/-! ## The composition -/

abbrev RegFile := BitVec 8 → BitVec 8

@[ext] structure Loop where
  ctl : Regs
  slave : Slave
  /-- transactions ended since the reset -/
  ended : Nat
  /-- the registers of the slave when the last read ended -/
  shown : Option RegFile

/-- The wires: SCL is the controller's, SDA is pulled low by either side. -/
def wires (c : Regs) (s : Slave) : Lines := ⟨c.i2cScl, c.sda && s.mode.sda⟩

/-- The slave after the controller's registers have become `c'`. -/
def Loop.heard (l : Loop) (c' : Regs) : Slave :=
  l.slave.step slaveAddr (edge (wires l.ctl l.slave) (wires c' l.slave))

def Loop.tick (P : BitVec 8) (l : Loop) : Loop :=
  let c' := Controller.tick P l.ctl (wires l.ctl l.slave).sda
  { ctl := c'
    slave := l.heard c'
    ended := if l.ctl.Ends then l.ended + 1 else l.ended
    shown := if l.ctl.Commits then some l.slave.mem.regs else l.shown }

/-- `reset_n` reaches the controller only. -/
def Loop.reset (l : Loop) : Loop where
  ctl := l.ctl.reset
  slave := l.heard l.ctl.reset
  ended := 0
  shown := none

/-- The controller is between transactions. -/
def Loop.Between (l : Loop) : Prop :=
  l.ctl.state = State.idle ∨ l.ctl.state = State.waitConfig

instance (l : Loop) : Decidable l.Between := inferInstanceAs (Decidable (_ ∨ _))

/-- New contents for the registers in `W`, if no transaction is under way. -/
def Loop.sense (W : BitVec 8 → Bool) (l : Loop) (f : RegFile) : Loop :=
  if l.Between then
    { l with slave.mem.regs := fun a => if W a then f a else l.slave.mem.regs a }
  else l

inductive Move where
  | tick
  | sense (f : RegFile)

def step (W : BitVec 8 → Bool) (P : BitVec 8) (l : Loop) : Move → Loop
  | .tick => l.tick P
  | .sense f => l.sense W f

def run (W : BitVec 8 → Bool) (P : BitVec 8) (l : Loop) (evs : List Move) : Loop :=
  evs.foldl (step W P) l

def ticks (n : Nat) : List Move := List.replicate n .tick

/-- The ticks of a run, without the changes of the registers. -/
def ticksIn : List Move → Nat
  | [] => 0
  | .tick :: evs => ticksIn evs + 1
  | .sense _ :: evs => ticksIn evs

/-- The sensor registers, 0x3B to 0x48. -/
def sensorRegs (a : BitVec 8) : Bool := 0x3B ≤ a && a ≤ 0x48

/-- The controller out of reset, whatever `rx_data` holds, and an idle slave. -/
def initial (c : Regs) (regs : RegFile) (ptr : BitVec 8) : Loop :=
  ⟨c.reset, ⟨⟨regs, ptr, []⟩, .idle⟩, 0, none⟩

/-- The seven words in the registers from `P` on: two registers each, the high byte
first. -/
def wordsAt (P : BitVec 8) (regs : RegFile) : Outputs where
  accelX := regs P ++ regs (P + 1)
  accelY := regs (P + 2) ++ regs (P + 3)
  accelZ := regs (P + 4) ++ regs (P + 5)
  temp := regs (P + 6) ++ regs (P + 7)
  gyroX := regs (P + 8) ++ regs (P + 9)
  gyroY := regs (P + 10) ++ regs (P + 11)
  gyroZ := regs (P + 12) ++ regs (P + 13)

/-- STOP makes them of a burst that begins at `P`. -/
theorem mapOutputs_burst (P : BitVec 8) (regs : RegFile) :
    mapOutputs (fun m => regs (P + BitVec.ofNat 8 m)) = wordsAt P regs := by
  have hfirst : P + BitVec.ofNat 8 0 = P := BitVec.add_zero P
  simp only [mapOutputs, word, hfirst, wordsAt]
  rfl

/-- The controller does not see the registers change. -/
theorem Loop.sense_ctl (W : BitVec 8 → Bool) (l : Loop) (f : RegFile) :
    (l.sense W f).ctl = l.ctl := by
  unfold Loop.sense
  split <;> rfl

theorem Loop.heard_eq (l : Loop) (c' : Regs) :
    l.heard c' = l.slave.hear slaveAddr (edge (lines l.ctl) (lines c')) := by
  rw [Loop.heard, wires, wires, edge_wiredAnd]
  rfl

theorem Loop.tick_slave (P : BitVec 8) (l : Loop) : (l.tick P).slave =
    l.slave.hear slaveAddr (edge (lines l.ctl) (lines (l.tick P).ctl)) := l.heard_eq _

/-! ## One tick -/

theorem waiting_slave {P : BitVec 8} {l : Loop} (h : Waiting l.ctl) :
    (l.tick P).slave = l.slave := by
  have hl : lines (l.tick P).ctl = ⟨true, true⟩ := by
    rcases h.tick (P := P) (wires l.ctl l.slave).sda with ⟨h', _⟩ | ⟨_, h', hp⟩
    · exact h'.lines_eq
    · exact h'.start_lines hp
  rw [l.tick_slave, h.lines_eq, hl]
  rfl

/-- The loop is in slot `s` of the session `w`. -/
structure Within (w : Session) (s : Slot) (l : Loop) : Prop where
  ok : w.Ok
  place : At w.regAddrStart w.cw s l.ctl
  follows : w.Follows l.ctl.phase l.slave s
  holds : w.cw = false → Holds w.sent l.ctl s

section Within
variable {w : Session} {s : Slot} {l : Loop}

/-- In a bit of the burst SDA carries what the slave sends. -/
theorem Within.sda_recv {n : Fin 14} {k : Fin 8} (h : Within w (.recv n k) l) :
    (wires l.ctl l.slave).sda = (w.sent n).getLsbD k := by
  have hen : l.ctl.sdaEn = false := h.place.sdaEn
  have hs : l.slave = ⟨w.fetched (n + 1), .send (w.sent n) k⟩ := h.follows
  simp [wires, Regs.sda, hen, hs, Mode.sda]

theorem Within.not_between (h : Within w s l) : ¬ l.Between := by
  have hs := h.place.state
  rintro (hb | hb) <;> rw [hb] at hs
  · exact s.state_ne_idle hs.symm
  · exact s.state_ne_waitConfig hs.symm

theorem Within.hear (h : Within w s l) : (l.tick w.regAddrStart).slave =
    l.slave.hear slaveAddr (s.edge w.regAddrStart w.cw l.ctl.phase) := by
  rw [l.tick_slave, Loop.tick, h.place.edge]

/-- Until the tick that ends the transaction both sides move on together. -/
theorem Within.tick (h : Within w s l) (he : ¬ l.ctl.Ends) :
    Within w (s.succ w.cw l.ctl.phase) (l.tick w.regAddrStart) := by
  have hear := h.hear
  obtain ⟨ok, place, follows, holds⟩ := h
  rcases place.step (wires l.ctl l.slave).sda with ⟨he', _⟩ | ⟨hp, s', hn, h', hp'⟩ | ⟨hp, h', hp'⟩
  · exact absurd he' he
  · rw [Slot.succ, if_pos hp, hn, Option.getD_some]
    refine ⟨ok, h', ?_, ?_⟩
    · rw [hear, hp]
      rw [hp] at follows
      exact hp' ▸ follows.last ok place.allowed hn
    · intro hc
      rw [hc] at place hn
      exact (holds hc).last place hp _ hn
  · rw [Slot.succ, if_neg hp]
    refine ⟨ok, h', ?_, ?_⟩
    · rw [hear]
      exact hp' ▸ follows.within hp
    · intro hc
      refine (holds hc).within place hp _ ?_
      rintro n k rfl -
      exact Within.sda_recv ⟨ok, place, follows, holds⟩

/-- That tick leaves the slave idle with the memory of the session. -/
theorem Within.tick_end (h : Within w s l) (he : l.ctl.Ends) :
    l.slave = ⟨w.final, .idle⟩ ∧ (l.tick w.regAddrStart).slave = ⟨w.final, .idle⟩ ∧
      Waiting (l.tick w.regAddrStart).ctl ∧ (l.tick w.regAddrStart).ctl.configDone = true := by
  obtain rfl := h.place.stop_of_ends he
  have hp := he.2
  have follows := h.follows
  have hsl : l.slave = ⟨w.final, .idle⟩ := by simpa [Session.Follows, hp] using follows
  refine ⟨hsl, ?_, h.place.tick_stop hp _⟩
  rw [h.hear, hp, hsl]
  rfl

/-- What a read commits is the slave's own registers. -/
theorem Within.words (h : Within w s l) (hc : l.ctl.Commits) :
    mapOutputs l.ctl.rx = wordsAt w.regAddrStart l.slave.mem.regs := by
  obtain rfl := h.place.stop_of_ends hc.1
  have hw : w.cw = false := h.place.configWrite.symm.trans hc.2
  rw [(h.tick_end hc.1).1, Session.final, hw]
  exact (mapOutputs_congr (h.holds hw)).trans (mapOutputs_burst _ _)

end Within

/-! ## Starting a transaction -/

/-- How the slave will meet the next START: it sees it, or it is acknowledging a
written byte and takes what follows as `t`. -/
def Meets (s : Slave) : Option Target → Prop
  | none => s.mode.sda = true
  | some t => s.mode = .ackWrite t

theorem waiting_tick {P : BitVec 8} {l : Loop} {missed : Option Target} (h : Waiting l.ctl)
    (hm : Meets l.slave missed) (hd : missed ≠ none → l.ctl.configDone = false) :
    Waiting (l.tick P).ctl ∧ (l.tick P).ctl.configDone = l.ctl.configDone ∨
      Within ⟨P, !l.ctl.configDone, missed, l.slave.mem⟩ .start (l.tick P) := by
  rcases h.tick (P := P) (wires l.ctl l.slave).sda with hw | ⟨_, hat, hp⟩
  · exact .inl hw
  · refine .inr ⟨?_, hat, ?_, fun _ => trivial⟩
    · intro hc
      by_contra hne
      rw [hd hne] at hc
      cases hc
    · have hp' : (l.tick P).ctl.phase = 0#2 := hp
      rw [waiting_slave h, hp']
      cases missed with
      | none => exact ⟨rfl, hm⟩
      | some t => exact ⟨rfl, hm⟩

/-! ## From a reset with the slave free -/

/-- Only PWR_MGMT_1 has been written, and it is 0 once the configuration is
done, unless it is one of the registers `W` that change by themselves. -/
structure Tame (W : BitVec 8 → Bool) (m : Mem) (done : Bool) : Prop where
  writes : ∀ a ∈ m.writes, a = regPwrMgmt1
  awake : done = true → W regPwrMgmt1 = false → m.regs regPwrMgmt1 = regPwrData

/-- The counter and the outputs agree with the history. -/
structure Counted (P : BitVec 8) (l : Loop) : Prop where
  ended : 0 < l.ended ↔ l.ctl.configDone = true
  out : l.ctl.out = (l.shown.map (wordsAt P)).getD .zero

/-- The invariant: waiting with SDA free, or both in the same slot. -/
def Joined (W : BitVec 8 → Bool) (P : BitVec 8) (l : Loop) : Prop :=
  Waiting l.ctl ∧ Meets l.slave none ∧ Tame W l.slave.mem l.ctl.configDone ∨
    ∃ w s, w.regAddrStart = P ∧ w.missed = none ∧ Tame W w.mem (!w.cw) ∧ Within w s l

section Joined
variable {W : BitVec 8 → Bool} {P : BitVec 8} {l : Loop}

theorem Tame.within {w : Session} {s : Slot} (h : Tame W w.mem (!w.cw)) (hm : w.missed = none)
    (hl : Within w s l) : Tame W l.slave.mem (w.written s || !w.cw) := by
  obtain ⟨hregs, hwrites⟩ := hl.follows.mem hm hl.place.allowed
  refine ⟨?_, ?_⟩
  · rw [hwrites]
    split
    · exact List.forall_mem_cons.mpr ⟨rfl, h.writes⟩
    · exact h.writes
  · intro hc hW
    rw [hregs]
    split
    · exact Function.update_self ..
    · next hs => exact h.awake (by simpa [hs] using hc) hW

theorem Tame.weaken {m : Mem} {a b : Bool} (h : Tame W m (a || b)) : Tame W m b :=
  ⟨h.writes, fun hb => h.awake (by rw [hb, Bool.or_true])⟩

theorem Joined.tame (h : Joined W P l) : Tame W l.slave.mem l.ctl.configDone := by
  rcases h with ⟨_, _, ht⟩ | ⟨w, s, _, hm, ht, hl⟩
  · exact ht
  · rw [hl.place.configDone]
    exact (ht.within hm hl).weaken

theorem Joined.tick (h : Joined W P l) : Joined W P (l.tick P) := by
  rcases h with ⟨hw, hm, ht⟩ | ⟨w, s, rfl, hm, ht, hl⟩
  · rcases waiting_tick (P := P) hw hm (by simp) with ⟨hw', hd⟩ | hl
    · rw [Joined, waiting_slave hw, hd]
      exact .inl ⟨hw', hm, ht⟩
    · exact .inr ⟨_, _, rfl, rfl, by rwa [Bool.not_not], hl⟩
  · by_cases he : l.ctl.Ends
    · obtain ⟨hsl, hsl', hw', hd'⟩ := hl.tick_end he
      obtain rfl := hl.place.stop_of_ends he
      have ht' := ht.within hm hl
      rw [hsl, Session.written, Bool.or_not_self] at ht'
      exact .inl ⟨hw', by rw [hsl']; rfl, by rwa [hsl', hd']⟩
    · exact .inr ⟨w, _, rfl, hm, ht, hl.tick he⟩

theorem Joined.sense (h : Joined W P l) (f : RegFile) : Joined W P (l.sense W f) := by
  unfold Loop.sense
  split
  case isFalse => exact h
  case isTrue hb =>
    rcases h with ⟨hw, hm, ht⟩ | ⟨w, s, _, _, _, hl⟩
    · refine .inl ⟨hw, hm, ht.writes, ?_⟩
      intro hd hW
      simpa [hW] using ht.awake hd hW
    · exact absurd hb hl.not_between

theorem Counted.tick (hc : Counted P l) (h : Joined W P l) : Counted P (l.tick P) := by
  constructor
  · rcases h with ⟨hw, hm, _⟩ | ⟨w, s, rfl, _, _, hl⟩
    · have hd : (l.tick P).ctl.configDone = l.ctl.configDone := by
        rcases waiting_tick (P := P) hw hm (by simp) with ⟨_, hd⟩ | hl
        · exact hd
        · simpa using hl.place.configDone
      rw [hd, Loop.tick, if_neg hw.not_ends]
      exact hc.ended
    · by_cases he : l.ctl.Ends
      · rw [(hl.tick_end he).2.2.2, Loop.tick, if_pos he]
        simp
      · rw [(hl.tick he).place.configDone, ← hl.place.configDone, Loop.tick, if_neg he]
        exact hc.ended
  · simp only [Loop.tick, tick_out]
    split
    · next hcm =>
      rcases h with ⟨hw, _⟩ | ⟨w, s, rfl, _, _, hl⟩
      · exact absurd hcm.1 hw.not_ends
      · exact hl.words hcm
    · exact hc.out

theorem Counted.sense (hc : Counted P l) (f : RegFile) : Counted P (l.sense W f) := by
  unfold Loop.sense
  split
  · exact ⟨hc.ended, hc.out⟩
  · exact hc

theorem Joined.run (h : Joined W P l) (hc : Counted P l) (evs : List Move) :
    Joined W P (run W P l evs) ∧ Counted P (run W P l evs) := by
  induction evs generalizing l with
  | nil => exact ⟨h, hc⟩
  | cons e evs ih =>
    cases e with
    | tick => exact ih h.tick (hc.tick h)
    | sense f => exact ih (h.sense f) (hc.sense f)

theorem Joined.initial (c : Regs) (regs : RegFile) (ptr : BitVec 8) :
    Joined W P (initial c regs ptr) ∧ Counted P (initial c regs ptr) := by
  refine ⟨.inl ⟨Waiting.of_reset c, rfl, by simp [ClosedLoop.initial], ?_⟩, ?_, rfl⟩
  · intro hd
    cases hd
  · simp [ClosedLoop.initial, Regs.reset]

end Joined

/-! ## Results -/

/-- After the first transaction the sensor is awake, nothing but PWR_MGMT_1 is
ever written, and every later transaction ends with the outputs equal to the
sensor's registers. -/
theorem outputs_follow_registers (c : Regs) (regs : RegFile) (ptr : BitVec 8)
    (evs : List Move) :
    let l := run sensorRegs FpgaRtl.regAddrStart (initial c regs ptr) evs
    let r := l.slave.mem.regs
    (0 < l.ended → r 0x6B = 0x00) ∧ (∀ a ∈ l.slave.mem.writes, a = 0x6B) ∧
      (0 < l.ended → l.ctl.Ends → (l.tick FpgaRtl.regAddrStart).ctl.out =
        { accelX := r 0x3B ++ r 0x3C, accelY := r 0x3D ++ r 0x3E, accelZ := r 0x3F ++ r 0x40,
          temp := r 0x41 ++ r 0x42,
          gyroX := r 0x43 ++ r 0x44, gyroY := r 0x45 ++ r 0x46, gyroZ := r 0x47 ++ r 0x48 }) := by
  intro l r
  obtain ⟨h0, hc0⟩ := Joined.initial (W := sensorRegs) (P := FpgaRtl.regAddrStart) c regs ptr
  obtain ⟨h, hc⟩ : Joined sensorRegs FpgaRtl.regAddrStart l ∧ Counted FpgaRtl.regAddrStart l :=
    h0.run hc0 evs
  refine ⟨fun hl => h.tame.awake (hc.ended.mp hl) (by decide), h.tame.writes, ?_⟩
  intro hl he
  have hcm : l.ctl.Commits := by
    refine ⟨he, ?_⟩
    rcases h with ⟨hw, _⟩ | ⟨w, s, _, _, _, hw⟩
    · exact absurd he hw.not_ends
    · have hd := hw.place.configDone
      rw [hc.ended.mp hl] at hd
      rw [hw.place.configWrite]
      simpa using hd.symm
  rcases h with ⟨hw, _⟩ | ⟨w, s, hP, _, _, hw⟩
  · exact absurd he hw.not_ends
  · have hout := tick_out l.ctl (wires l.ctl l.slave).sda FpgaRtl.regAddrStart
    rw [if_pos hcm, hw.words hcm, hP] at hout
    exact hout

section Rounds
variable {W : BitVec 8 → Bool} {P : BitVec 8} {l : Loop} {t : Nat}

/-- A run goes through the round with its ticks. -/
theorem elapsed_loop (h : Elapsed P l.ctl t) (evs : List Move) :
    ∃ t', Elapsed P (run W P l evs).ctl t' := by
  induction evs generalizing l t with
  | nil => exact ⟨t, h⟩
  | cons e evs ih =>
    cases e with
    | tick => exact ih (h.tick _)
    | sense f => exact ih (l := l.sense W f) (by rwa [l.sense_ctl])

/-- The ticks that are left of the round lead to the commit of its read. -/
theorem commits_within (h : Elapsed P l.ctl t) {evs : List Move}
    (long : 60742 ≤ t + ticksIn evs) : ∃ pre, pre <+: evs ∧ (run W P l pre).ctl.Commits := by
  induction evs generalizing l t with
  | nil => exact ⟨[], List.nil_prefix, h.commits_iff.mpr (Nat.le_antisymm h.le long)⟩
  | cons e evs ih =>
    cases e with
    | tick =>
      by_cases hlast : t = 60742
      · exact ⟨[], List.nil_prefix, h.commits_iff.mpr hlast⟩
      · have hnext : Elapsed P (l.tick P).ctl (t + 1) := succ_of_ne hlast ▸ h.tick _
        obtain ⟨pre, hpre, hcm⟩ := ih hnext (by simp only [ticksIn] at long; omega)
        exact ⟨.tick :: pre, List.prefix_cons_inj _ |>.mpr hpre, hcm⟩
    | sense f =>
      have hsame : Elapsed P (l.sense W f).ctl t := by rwa [l.sense_ctl]
      obtain ⟨pre, hpre, hcm⟩ := ih hsame long
      exact ⟨.sense f :: pre, List.prefix_cons_inj _ |>.mpr hpre, hcm⟩

end Rounds

/-- Those transactions come: after any run, 60742 more ticks hold one that commits a
read, the configuration behind it, however the registers change meanwhile. -/
theorem reads_go_on (c : Regs) (regs : RegFile) (ptr : BitVec 8) (evs more : List Move)
    (long : 60742 ≤ ticksIn more) : ∃ pre, pre <+: more ∧
      let l := run sensorRegs FpgaRtl.regAddrStart (initial c regs ptr) (evs ++ pre)
      l.ctl.Commits ∧ 0 < l.ended := by
  obtain ⟨t, ht⟩ := elapsed_loop (W := sensorRegs) (l := initial c regs ptr)
    (Elapsed.of_reset (P := FpgaRtl.regAddrStart) c) evs
  obtain ⟨pre, hpre, hcm⟩ :=
    commits_within (W := sensorRegs) ht (Nat.le_trans long (Nat.le_add_left _ t))
  refine ⟨pre, hpre, ?_⟩
  intro l
  have hrun : l = run sensorRegs FpgaRtl.regAddrStart
      (run sensorRegs FpgaRtl.regAddrStart (initial c regs ptr) evs) pre := List.foldl_append
  rw [← hrun] at hcm
  obtain ⟨h0, hc0⟩ := Joined.initial (W := sensorRegs) (P := FpgaRtl.regAddrStart) c regs ptr
  obtain ⟨h, hc⟩ : Joined sensorRegs FpgaRtl.regAddrStart l ∧ Counted FpgaRtl.regAddrStart l :=
    h0.run hc0 (evs ++ pre)
  refine ⟨hcm, hc.ended.mpr ?_⟩
  rcases h with ⟨hw, -⟩ | ⟨w, s, -, -, -, hl⟩
  · exact absurd hcm.1 hw.not_ends
  · rw [hl.place.configDone, ← hl.place.configWrite, hcm.2]
    rfl

end IotController.ClosedLoop
