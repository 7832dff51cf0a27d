import IotController.ClosedLoop
import IotController.Timing

/-! # The two copies of the controller, side by side

The control part of the registers runs the same whatever SDA carries and
whichever register a read starts at, so the copies clock the bus alike. They
differ where `REG_ADDR_START` is put on SDA, and from there in which registers
they read. -/
namespace IotController.Copies
open IotController.Controller IotController.I2c IotController.Sequencer IotController.ClosedLoop
open IotController.Follow IotController.Samples IotController.Timing

/-! ## The control part -/

/-- The registers without the data registers. -/
def pins (c : Regs) : Regs :=
  { c with dataBuffer := 0, rxData := Vector.replicate 14 0, out := .zero }

/-- The registers that decide what happens next: `pins` without `sda_out`. -/
def control (c : Regs) : Regs := { pins c with sdaOut := false }

theorem proj_ite (g : Regs → Regs) {p q : Prop} [Decidable p] [Decidable q] {a b a' b' : Regs}
    (h : p ↔ q) (ha : p → g a = g a') (hb : g b = g b') :
    g (if p then a else b) = g (if q then a' else b') := by
  by_cases hp : p
  · rw [if_pos hp, if_pos (h.mp hp), ha hp]
  · rw [if_neg hp, if_neg (mt h.mpr hp), hb]

section Arms
variable (c : Regs)

theorem idle_pins : pins c.idle = pins (pins c).idle :=
  proj_ite pins Iff.rfl (fun _ => rfl) (proj_ite pins Iff.rfl (fun _ => rfl) rfl)

theorem start_pins : pins c.start = pins (pins c).start := by
  rcases phase_cases c.phase with p | p | p | p <;>
    simp only [Regs.start, p, show (pins c).phase = _ from p] <;> rfl

/-- The bit matters in phase 0 only. -/
theorem writeBits_pins {bit bit' : Bool} (h : c.phase = 0#2 → bit = bit') (saved : BitVec 5) :
    pins (c.writeBits bit saved) = pins ((pins c).writeBits bit' saved) := by
  rcases phase_cases c.phase with p | p | p | p
  · rw [h p]
    simp only [Regs.writeBits, p, show (pins c).phase = _ from p]
    rfl
  all_goals
    simp only [Regs.writeBits, p, show (pins c).phase = _ from p]
    first | rfl | exact proj_ite pins Iff.rfl (fun _ => rfl) rfl

theorem writeBits_control (bit bit' : Bool) (saved : BitVec 5) :
    control (c.writeBits bit saved) = control ((control c).writeBits bit' saved) := by
  rcases phase_cases c.phase with p | p | p | p <;>
    simp only [Regs.writeBits, p, show (control c).phase = _ from p] <;>
    first | rfl | exact proj_ite control Iff.rfl (fun _ => rfl) rfl

theorem ackCheck_pins : pins c.ackCheck = pins (pins c).ackCheck := by
  rcases phase_cases c.phase with p | p | p | p <;>
    simp only [Regs.ackCheck, p, show (pins c).phase = _ from p] <;>
    first | rfl | exact proj_ite pins Iff.rfl (fun _ => rfl) rfl

theorem stop_pins : pins c.stop = pins (pins c).stop := by
  rcases phase_cases c.phase with p | p | p | p <;>
    simp only [Regs.stop, p, show (pins c).phase = _ from p] <;>
    first | rfl | exact proj_ite pins Iff.rfl (fun _ => rfl) rfl

theorem waitConfig_pins : pins c.waitConfig = pins (pins c).waitConfig :=
  proj_ite pins Iff.rfl (fun _ => rfl) rfl

theorem restart_pins : pins c.restart = pins (pins c).restart := by
  rcases phase_cases c.phase with p | p | p | p <;>
    simp only [Regs.restart, p, show (pins c).phase = _ from p] <;> rfl

theorem readData_pins (x y : Bool) : pins (c.readData x) = pins ((pins c).readData y) := by
  rcases phase_cases c.phase with p | p | p | p <;>
    simp only [Regs.readData, p, show (pins c).phase = _ from p] <;>
    first | rfl | exact proj_ite pins Iff.rfl (fun _ => rfl) rfl

theorem ackSend_pins : pins c.ackSend = pins (pins c).ackSend := by
  rcases phase_cases c.phase with p | p | p | p <;>
    simp only [Regs.ackSend, p, show (pins c).phase = _ from p] <;>
    first | rfl | exact proj_ite pins Iff.rfl (fun _ => rfl) rfl

/-- The one place where the copies put different bits on SDA: the register
address of a read. -/
def Addressing : Prop := c.state = State.wrRegAddr ∧ c.configWrite = false

/-- Where they put the same bit there, SDA, the parameter and the data registers
do not matter. -/
theorem tick_pins (P Q : BitVec 8) (h : Addressing c → c.phase = 0#2 →
    P.getLsbD c.bitCnt.toNat = Q.getLsbD c.bitCnt.toNat) (x y : Bool) :
    pins (tick P c x) = pins (tick Q (pins c) y) := by
  have regAddr (hs : c.state = State.wrRegAddr) :
      pins (c.wrRegAddr P) = pins ((pins c).wrRegAddr Q) := by
    refine writeBits_pins c ?_ _
    intro hp
    rw [show (pins c).configWrite = c.configWrite from rfl]
    cases hc : c.configWrite
    · exact h ⟨hs, hc⟩ hp
    · rfl
  refine proj_ite pins Iff.rfl (fun _ => idle_pins c) ?_
  refine proj_ite pins Iff.rfl (fun _ => start_pins c) ?_
  refine proj_ite pins Iff.rfl (fun _ => writeBits_pins c (fun _ => rfl) _) ?_
  refine proj_ite pins Iff.rfl regAddr ?_
  refine proj_ite pins Iff.rfl (fun _ => writeBits_pins c (fun _ => rfl) _) ?_
  refine proj_ite pins Iff.rfl (fun _ => ackCheck_pins c) ?_
  refine proj_ite pins Iff.rfl (fun _ => stop_pins c) ?_
  refine proj_ite pins Iff.rfl (fun _ => waitConfig_pins c) ?_
  refine proj_ite pins Iff.rfl (fun _ => restart_pins c) ?_
  refine proj_ite pins Iff.rfl (fun _ => writeBits_pins c (fun _ => rfl) _) ?_
  refine proj_ite pins Iff.rfl (fun _ => readData_pins c x y) ?_
  exact proj_ite pins Iff.rfl (fun _ => ackSend_pins c) rfl

end Arms

/-! ## In step -/

/-- Equal but for the data registers, and `sda_out` inside that register address. -/
def Alike (a b : Regs) : Prop := control a = control b ∧ (pins a = pins b ∨ Addressing a)

section Alike
variable {P Q : BitVec 8} {a b : Regs}

theorem regAddr_of_state {s : Slot} (h : s.state = State.wrRegAddr) : ∃ k, s = .bit .regAddr k := by
  cases s with
  | bit f k =>
    cases f with
    | regAddr => exact ⟨k, rfl⟩
    | devAddr | regData | rdDevAddr => exact absurd h (by simp [Slot.state, Frame.state])
  | start | ack | restart | recv | reply | stop => exact absurd h (by simp [Slot.state])

theorem addressing_at (h : Sequenced P a) (ha : Addressing a) :
    ∃ k, At P false (.bit .regAddr k) a := by
  rcases h with h | ⟨cw, s, h⟩
  · exact absurd ha.1 (h.state_ne (by decide) (by decide))
  · obtain rfl : cw = false := h.configWrite.symm.trans ha.2
    obtain ⟨k, rfl⟩ := regAddr_of_state (h.state.symm.trans ha.1)
    exact ⟨k, h⟩

theorem pins_of_control (h : control a = control b) (hs : a.sdaOut = b.sdaOut) :
    pins a = pins b := by
  have ha (c : Regs) : pins c = { control c with sdaOut := c.sdaOut } := rfl
  rw [ha a, ha b, h, hs]

/-- The register address goes on, or its last bit is still on `sda_out`. -/
theorem addressing_tick {k : Fin 8} (h : At P false (.bit .regAddr k) a) (x : Bool) :
    Addressing (tick P a x) ∨ (tick P a x).sdaOut = P.getLsbD 0 := by
  by_cases hp : a.phase = 3#2
  · by_cases hk : k = 0
    · have hn : (Slot.bit .regAddr k).next false = some (.ack .regAddr) := by simp [Slot.next, hk]
      have h' := (h.tick_last hp x hn).1
      exact .inr (h'.sdaOut _ rfl)
    · have hn : (Slot.bit .regAddr k).next false = some (.bit .regAddr (k - 1)) := by
        simp [Slot.next, hk]
      have h' := (h.tick_last hp x hn).1
      exact .inl ⟨h'.state, h'.configWrite⟩
  · have h' := (h.tick_within hp x).1
    exact .inl ⟨h'.state, h'.configWrite⟩

/-- The two bytes end in the same bit, so SDA is the same again once they are sent. -/
theorem Alike.next (h : Alike a b) (hPQ : P.getLsbD 0 = Q.getLsbD 0) (ha : Sequenced P a)
    (hb : Sequenced Q b) (x y : Bool) : Alike (tick P a x) (tick Q b y) := by
  by_cases hadd : Addressing a
  · have hbadd : Addressing b :=
      ⟨(congrArg (·.state) h.1).symm.trans hadd.1, (congrArg (·.configWrite) h.1).symm.trans hadd.2⟩
    have hcontrol : control (tick P a x) = control (tick Q b y) := by
      rw [tick_wrRegAddr hadd.1, tick_wrRegAddr hbadd.1, Regs.wrRegAddr, Regs.wrRegAddr, hadd.2,
        hbadd.2, writeBits_control _ _ false, writeBits_control b _ false, h.1]
    obtain ⟨k, hk⟩ := addressing_at ha hadd
    obtain ⟨k', hk'⟩ := addressing_at hb hbadd
    refine ⟨hcontrol, ?_⟩
    rcases addressing_tick hk x with ha' | hsa
    · exact .inr ha'
    · rcases addressing_tick hk' y with hb' | hsb
      · exact .inr ⟨(congrArg (·.state) hcontrol).trans hb'.1,
          (congrArg (·.configWrite) hcontrol).trans hb'.2⟩
      · exact .inl (pins_of_control hcontrol (by rw [hsa, hsb, hPQ]))
  · have hpins := h.2.resolve_right hadd
    have hbadd : ¬ Addressing b := fun hb =>
      hadd ⟨(congrArg (·.state) hpins).trans hb.1, (congrArg (·.configWrite) hpins).trans hb.2⟩
    have htick : pins (tick P a x) = pins (tick Q b y) := by
      rw [tick_pins a P 0 (fun h => absurd h hadd) x false,
        tick_pins b Q 0 (fun h => absurd h hbadd) y false, hpins]
    exact ⟨congrArg (fun c => { c with sdaOut := false }) htick, .inl htick⟩

end Alike

/-! ## The registers of the two slaves -/

/-- The tick over which the slave takes in the data byte. -/
def TakesData (c : Regs) : Prop := c.state = State.wrRegData ∧ c.bitCnt = 0 ∧ c.phase = 3#2

instance (c : Regs) : Decidable (TakesData c) := inferInstanceAs (Decidable (_ ∧ _))

section TakesData
variable {W : BitVec 8 → Bool} {P : BitVec 8} {w : Session} {s : Slot} {l : Loop}

theorem takesData_iff {c : Regs} {cw : Bool} (h : At P cw s c) :
    TakesData c ↔ s = .bit .regData 0 ∧ c.phase = 3#2 := by
  constructor
  · rintro ⟨hs, hk, hp⟩
    refine ⟨?_, hp⟩
    rw [h.state] at hs
    cases s with
    | bit f k =>
      have hk' : c.bitCnt = BitVec.ofNat 4 k := h.counters
      rw [hk, eq_comm, ofNat_eq_zero_iff] at hk'
      cases f with
      | regData => rw [hk']
      | devAddr | regAddr | rdDevAddr => exact absurd hs (by simp [Slot.state, Frame.state])
    | start | ack | restart | recv | reply | stop => exact absurd hs (by simp [Slot.state])
  · rintro ⟨rfl, hp⟩
    exact ⟨h.state, h.counters, hp⟩

theorem written_succ {ph : BitVec 2} (ha : s.allowed w.cw = true)
    (hs : ¬ (s = .bit .regData 0 ∧ ph = 3#2)) : w.written (s.succ w.cw ph) = w.written s := by
  unfold Slot.succ
  split
  case isFalse => rfl
  case isTrue hp =>
    cases s with
    | bit f k =>
      by_cases hk : k = 0
      · cases f with
        | regData => exact absurd ⟨by rw [hk], hp⟩ hs
        | devAddr | regAddr | rdDevAddr => simp [Slot.next, hk, Session.written]
      · simp [Slot.next, hk, Session.written]
    | ack f =>
      cases f <;> cases hc : w.cw <;>
        simp_all [Slot.next, Session.written, Frame.after, Slot.allowed]
    | recv n k => by_cases hk : k = 0 <;> simp [Slot.next, hk, Session.written]
    | reply n =>
      by_cases hn : n = 13 <;> simp_all [Slot.next, Session.written, Slot.allowed]
    | start | restart | stop => rfl

theorem tick_regs (h : Joined W P l) : (l.tick P).slave.mem.regs =
    if TakesData l.ctl then Function.update l.slave.mem.regs regPwrMgmt1 regPwrData
    else l.slave.mem.regs := by
  rcases h with ⟨hw, _⟩ | ⟨w, s, rfl, hm, _, hl⟩
  · rw [waiting_slave hw, if_neg]
    intro ht
    exact hw.state_ne (by decide) (by decide) ht.1
  · simp only [takesData_iff hl.place]
    by_cases he : l.ctl.Ends
    · obtain ⟨hsl, hsl', _⟩ := hl.tick_end he
      obtain rfl := hl.place.stop_of_ends he
      simp [hsl, hsl']
    · have hl' := hl.tick he
      rw [(hl.follows.mem hm hl.place.allowed).1, (hl'.follows.mem hm hl'.place.allowed).1]
      by_cases ht : s = .bit .regData 0 ∧ l.ctl.phase = 3#2
      · obtain ⟨rfl, hp⟩ := ht
        rw [hp]
        rfl
      · rw [if_neg ht, written_succ hl.place.allowed ht]

end TakesData

/-! ## Both loops -/

/-- The two loops clock alike, and hold and have shown the same registers. -/
structure Paired (a b : Loop) : Prop where
  alike : Alike a.ctl b.ctl
  regs : a.slave.mem.regs = b.slave.mem.regs
  shown : a.shown = b.shown

section Paired
variable {W : BitVec 8 → Bool} {P Q : BitVec 8} {a b : Loop}

theorem joined_sequenced (h : Joined W P a) : Sequenced P a.ctl := by
  rcases h with ⟨hw, _⟩ | ⟨w, s, rfl, _, _, hl⟩
  · exact .inl hw
  · exact .inr ⟨_, _, hl.place⟩

theorem Paired.tick (h : Paired a b) (hPQ : P.getLsbD 0 = Q.getLsbD 0) (ha : Joined W P a)
    (hb : Joined W Q b) : Paired (a.tick P) (b.tick Q) := by
  have hstate : a.ctl.state = b.ctl.state := congrArg (·.state) h.alike.1
  have hphase : a.ctl.phase = b.ctl.phase := congrArg (·.phase) h.alike.1
  have hbit : a.ctl.bitCnt = b.ctl.bitCnt := congrArg (·.bitCnt) h.alike.1
  have hwrite : a.ctl.configWrite = b.ctl.configWrite := congrArg (·.configWrite) h.alike.1
  have htakes : TakesData a.ctl ↔ TakesData b.ctl := by
    rw [TakesData, TakesData, hstate, hphase, hbit]
  have hcommits : a.ctl.Commits ↔ b.ctl.Commits := by
    rw [Regs.Commits, Regs.Commits, Regs.Ends, Regs.Ends, hstate, hphase, hwrite]
  refine ⟨h.alike.next hPQ (joined_sequenced ha) (joined_sequenced hb) _ _, ?_, ?_⟩
  · rw [tick_regs ha, tick_regs hb, h.regs]
    exact if_congr htakes rfl rfl
  · rw [Loop.tick, Loop.tick, h.regs, h.shown]
    exact if_congr hcommits rfl rfl

theorem Paired.sense (h : Paired a b) (f : RegFile) : Paired (a.sense W f) (b.sense W f) := by
  have hstate : a.ctl.state = b.ctl.state := congrArg (·.state) h.alike.1
  have hbetween : a.Between ↔ b.Between := by rw [Loop.Between, Loop.Between, hstate]
  unfold Loop.sense
  by_cases hb : a.Between
  · rw [if_pos hb, if_pos (hbetween.mp hb)]
    exact ⟨h.alike, by simp only [h.regs], h.shown⟩
  · rw [if_neg hb, if_neg (mt hbetween.mpr hb)]
    exact h

theorem Paired.run (h : Paired a b) (hPQ : P.getLsbD 0 = Q.getLsbD 0) (ha : Joined W P a)
    (hb : Joined W Q b) (evs : List Move) : Paired (run W P a evs) (run W Q b evs) := by
  induction evs generalizing a b with
  | nil => exact h
  | cons e evs ih =>
    cases e with
    | tick => exact ih (h.tick hPQ ha hb) ha.tick hb.tick
    | sense f => exact ih (h.sense f) (ha.sense f) (hb.sense f)

theorem Alike.scl (h : Alike a.ctl b.ctl) : a.ctl.i2cScl = b.ctl.i2cScl :=
  congrArg (·.i2cScl) h.1

theorem Alike.sda (h : Alike a.ctl b.ctl) : a.ctl.sda = b.ctl.sda ∨ Addressing a.ctl :=
  h.2.imp_left fun hp => (congrArg Regs.sda hp : (pins a.ctl).sda = (pins b.ctl).sda)

end Paired

/-! ## Until the first read puts its register address on SDA -/

theorem exists_prefix {evs : List Move} {n : Nat} (h : n ≤ ticksIn evs) :
    ∃ pre post, evs = pre ++ post ∧ ticksIn pre = n := by
  induction evs generalizing n with
  | nil => exact ⟨[], [], rfl, (Nat.le_zero.mp h).symm⟩
  | cons e evs ih =>
    cases n with
    | zero => exact ⟨[], e :: evs, rfl, rfl⟩
    | succ n =>
      cases e with
      | tick =>
        obtain ⟨pre, post, rfl, hn⟩ := ih (Nat.le_of_succ_le_succ h)
        exact ⟨.tick :: pre, post, rfl, congrArg (· + 1) hn⟩
      | sense f =>
        obtain ⟨pre, post, rfl, hn⟩ := ih h
        exact ⟨.sense f :: pre, post, rfl, hn⟩

theorem ticksIn_append_le (pre post : List Move) : ticksIn pre ≤ ticksIn (pre ++ post) := by
  induction pre with
  | nil => exact Nat.zero_le _
  | cons e pre ih =>
    cases e with
    | tick => exact Nat.succ_le_succ ih
    | sense f => exact ih

/-- Two loops `t` ticks from reset, in the first period. -/
structure Early (P Q : BitVec 8) (a b : Loop) (t : Nat) : Prop where
  left : Elapsed P a.ctl t
  right : Elapsed Q b.ctl t
  pins : t ≤ 60163 → pins a.ctl = pins b.ctl
  out : a.ctl.out = .zero ∧ b.ctl.out = .zero

section Early
variable {W : BitVec 8 → Bool} {P Q : BitVec 8} {a b : Loop} {c : Regs} {t : Nat}

/-- When each bit of the register address of the first read is on. -/
theorem regAddr_time (h : Elapsed P c t) (ha : Addressing c) :
    ∃ k : Fin 8, c.bitCnt = BitVec.ofNat 4 k ∧ t = 60119 + 4 * (17 - k) + c.phase.toNat := by
  cases h with
  | reset hw _ _ | waitConfig hw _ _ _ | idle hw _ _ _ =>
    exact absurd ha.1 (hw.state_ne (by decide) (by decide))
  | config s h _ => exact absurd (h.configWrite.symm.trans ha.2) (by decide)
  | read s h ht =>
    obtain ⟨k, rfl⟩ := regAddr_of_state (h.state.symm.trans ha.1)
    exact ⟨k, h.counters, ht⟩

theorem Early.tick (h : Early P Q a b t) (ht : t < 60742) (hPQ : P.getLsbD 7 = Q.getLsbD 7) :
    Early P Q (a.tick P) (b.tick Q) (t + 1) := by
  have hsucc : succ t = t + 1 := succ_of_ne (by omega)
  have out {P : BitVec 8} {l : Loop} (hl : Elapsed P l.ctl t) (h0 : l.ctl.out = .zero) :
      (l.tick P).ctl.out = .zero := by
    rw [Loop.tick, tick_out, if_neg (mt hl.commits_iff.mp (by omega)), h0]
  refine ⟨hsucc ▸ h.left.tick _, hsucc ▸ h.right.tick _, ?_, out h.left h.out.1,
    out h.right h.out.2⟩
  intro hle
  -- the one bit put on SDA by then is bit 7
  have hbit : Addressing a.ctl → a.ctl.phase = 0#2 →
      P.getLsbD a.ctl.bitCnt.toNat = Q.getLsbD a.ctl.bitCnt.toNat := by
    intro hadd hp
    obtain ⟨k, hk, htime⟩ := regAddr_time h.left hadd
    have h0 : a.ctl.phase.toNat = 0 := congrArg BitVec.toNat hp
    have h7 : k.val = 7 := by omega
    rwa [hk, toNat_ofNat_fin, h7]
  rw [Loop.tick, Loop.tick, tick_pins a.ctl P Q hbit _ false,
    tick_pins b.ctl Q Q (fun _ _ => rfl) _ false, h.pins (by omega)]

theorem Early.sense (h : Early P Q a b t) (f : RegFile) :
    Early P Q (a.sense W f) (b.sense W f) t := by
  have ha := a.sense_ctl W f
  have hb := b.sense_ctl W f
  exact ⟨ha ▸ h.left, hb ▸ h.right, by rw [ha, hb]; exact h.pins, by rw [ha, hb]; exact h.out⟩

theorem Early.run (h : Early P Q a b t) (hPQ : P.getLsbD 7 = Q.getLsbD 7) {evs : List Move}
    (ht : t + ticksIn evs ≤ 60742) :
    Early P Q (run W P a evs) (run W Q b evs) (t + ticksIn evs) := by
  induction evs generalizing a b t with
  | nil => exact h
  | cons e evs ih =>
    cases e with
    | tick =>
      rw [ticksIn, ← Nat.add_assoc, Nat.add_right_comm] at ht ⊢
      exact ih (h.tick (by omega) hPQ) ht
    | sense f => exact ih (h.sense f) ht

theorem regAddr_of_index {s : Slot} (h : index false s = 11) : s = .bit .regAddr 6 := by
  cases s with
  | bit f k =>
    cases f with
    | regAddr =>
      have hk : k = 6 := Fin.ext (by simp only [index] at h; omega)
      rw [hk]
    | devAddr | regData | rdDevAddr => simp only [index] at h; omega
  | ack f => cases f <;> exact absurd h (by decide)
  | recv n k | reply n => simp only [index] at h; omega
  | start | restart | stop => exact absurd h (by decide)

/-- Bit 6 of the register address of the first read, on SDA. -/
theorem sda_of_elapsed (h : Elapsed P c 60164) : c.sda = P.getLsbD 6 := by
  obtain ⟨s, hs, ht⟩ := h.reading (by omega)
  have hph := c.phase.isLt
  obtain rfl := regAddr_of_index (s := s) (by omega)
  have hp : c.phase ≠ 0#2 := by
    intro hp
    rw [hp] at ht
    exact absurd ht (by decide)
  have hbit : (Slot.bit .regAddr 6).sdaOut P false c.phase = some (P.getLsbD 6) := if_neg hp
  have hout := hs.sdaOut _ hbit
  rw [Regs.sda, hs.sdaEn, hout]
  simp [Slot.slaveOwned]

end Early

/-! ## Results -/

/-- At one point of a run the copies agree in all they drive. -/
def Agree (a b : Loop) : Prop :=
  a.ctl.i2cScl = b.ctl.i2cScl ∧ a.ctl.sda = b.ctl.sda ∧ a.ctl.out = b.ctl.out

theorem early_initial (P Q : BitVec 8) (c c' : Regs) (regs : RegFile) (ptr : BitVec 8) :
    Early P Q (initial c regs ptr) (initial c' regs ptr) 0 :=
  ⟨Elapsed.of_reset c, Elapsed.of_reset c', fun _ => rfl, rfl, rfl⟩

/-- On the same sensor the copies agree exactly in the runs that end before bit 6
of the register address of the first read, 60164 ticks from reset. In every run
they drive SCL alike, and SDA except inside the register address of a read; each
shows the words of the registers the last read found, one from 0x3B and the other
from 0x75. -/
theorem copies_agree_iff (W : BitVec 8 → Bool) (c c' : Regs) (regs : RegFile) (ptr : BitVec 8)
    (evs : List Move) :
    ((∀ pre post, evs = pre ++ post →
        Agree (run W FpgaRtl.regAddrStart (initial c regs ptr) pre)
          (run W Module4Test.regAddrStart (initial c' regs ptr) pre)) ↔
      ticksIn evs < 60164) ∧
    let a := run W FpgaRtl.regAddrStart (initial c regs ptr) evs
    let b := run W Module4Test.regAddrStart (initial c' regs ptr) evs
    a.ctl.i2cScl = b.ctl.i2cScl ∧ (a.ctl.sda = b.ctl.sda ∨ Addressing a.ctl) ∧
      a.shown = b.shown ∧ (a.shown = none → a.ctl.out = .zero ∧ b.ctl.out = .zero) ∧
      ∀ r, a.shown = some r → a.ctl.out = wordsAt 0x3B r ∧ b.ctl.out = wordsAt 0x75 r := by
  constructor
  · have early (pre : List Move) (ht : ticksIn pre ≤ 60742) :
        Early FpgaRtl.regAddrStart Module4Test.regAddrStart
          (run W FpgaRtl.regAddrStart (initial c regs ptr) pre)
          (run W Module4Test.regAddrStart (initial c' regs ptr) pre) (ticksIn pre) := by
      have h0 := early_initial FpgaRtl.regAddrStart Module4Test.regAddrStart c c' regs ptr
      have h := h0.run (W := W) (by decide) (by rwa [Nat.zero_add])
      rwa [Nat.zero_add] at h
    constructor
    · intro h
      by_contra hlt
      obtain ⟨pre, post, rfl, hn⟩ := exists_prefix (Nat.le_of_not_lt hlt)
      have he := early pre (by omega)
      rw [hn] at he
      have hsda := (h pre post rfl).2.1
      rw [sda_of_elapsed he.left, sda_of_elapsed he.right] at hsda
      exact absurd hsda (by decide)
    · rintro ht pre post rfl
      have hle := ticksIn_append_le pre post
      have he := early pre (by omega)
      have hpins := he.pins (by omega)
      exact ⟨congrArg (·.i2cScl) hpins, (congrArg Regs.sda hpins : (pins _).sda = (pins _).sda),
        he.out.1.trans he.out.2.symm⟩
  · intro a b
    obtain ⟨ha, hca⟩ := Joined.initial (W := W) (P := FpgaRtl.regAddrStart) c regs ptr
    obtain ⟨hb, hcb⟩ := Joined.initial (W := W) (P := Module4Test.regAddrStart) c' regs ptr
    have h₀ : Paired (initial c regs ptr) (initial c' regs ptr) := ⟨⟨rfl, .inl rfl⟩, rfl, rfl⟩
    have h : Paired a b := h₀.run (by decide) ha hb evs
    have houta : a.ctl.out = (a.shown.map (wordsAt 0x3B)).getD .zero := (ha.run hca evs).2.out
    have houtb : b.ctl.out = (a.shown.map (wordsAt 0x75)).getD .zero :=
      h.shown ▸ (hb.run hcb evs).2.out
    refine ⟨h.alike.scl, h.alike.sda, h.shown, ?_, ?_⟩
    · intro hs
      rw [houta, houtb, hs]
      exact ⟨rfl, rfl⟩
    · intro r hs
      rw [houta, houtb, hs]
      exact ⟨rfl, rfl⟩

/-! ## A sensor that tells the copies apart -/

/-- A sensor with 1 in register 0x3B and 0 in all others. -/
def oneAt3B (a : BitVec 8) : BitVec 8 := if a = 0x3B then 1 else 0

section Run
variable {W : BitVec 8 → Bool} {P : BitVec 8} {l : Loop}

theorem run_ticks_succ (n : Nat) : run W P l (ticks (n + 1)) = (run W P l (ticks n)).tick P := by
  rw [ClosedLoop.run, ticks, List.replicate_succ', List.foldl_append]
  rfl

theorem ticksIn_ticks (n : Nat) : ticksIn (ticks n) = n := by
  induction n with
  | zero => rfl
  | succ n ih => exact congrArg (· + 1) ih

/-- The wake-up write changes nothing in a sensor that is awake. -/
theorem run_ticks_regs (h : Joined W P l) (hc : Counted P l)
    (awake : l.slave.mem.regs regPwrMgmt1 = regPwrData) (n : Nat) :
    (run W P l (ticks n)).slave.mem.regs = l.slave.mem.regs := by
  induction n with
  | zero => rfl
  | succ n ih =>
    rw [run_ticks_succ, tick_regs (h.run hc (ticks n)).1, ih, ← awake, Function.update_eq_self,
      ite_self]

/-- What the first read shows of it. -/
theorem first_read (P : BitVec 8) :
    (run sensorRegs P (initial blank oneAt3B 0) (ticks (60742 + 1))).ctl.out =
      wordsAt P oneAt3B := by
  obtain ⟨h, hc⟩ := Joined.initial (W := sensorRegs) (P := P) blank oneAt3B 0
  have he : Elapsed P (run sensorRegs P (initial blank oneAt3B 0) (ticks 60742)).ctl 60742 := by
    have h0 := early_initial P P blank blank oneAt3B 0
    have hrun := h0.run (W := sensorRegs) rfl (Nat.le_of_eq (by rw [Nat.zero_add, ticksIn_ticks]))
    rw [ticksIn_ticks, Nat.zero_add] at hrun
    exact hrun.left
  have hregs := run_ticks_regs h hc (by decide) 60742
  have hout := (h.run hc (ticks (60742 + 1))).2.out
  rw [run_ticks_succ] at hout ⊢
  rw [hout, Loop.tick, if_pos (he.commits_iff.mpr rfl), hregs]
  rfl

end Run

/-- After the first read they show different words. -/
theorem copies_differ :
    ¬ ∀ (W : BitVec 8 → Bool) (c c' : Regs) (regs : RegFile) (ptr : BitVec 8) (evs : List Move),
      Agree (run W FpgaRtl.regAddrStart (initial c regs ptr) evs)
        (run W Module4Test.regAddrStart (initial c' regs ptr) evs) := by
  intro h
  have hout := (h sensorRegs blank blank oneAt3B 0 (ticks (60742 + 1))).2.2
  rw [first_read, first_read] at hout
  exact absurd hout (by decide)

end IotController.Copies
