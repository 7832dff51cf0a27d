import IotController.Divider
import IotController.Machine
import IotController.Recovery

/-! # Controller, divider and sensor, clock by clock

`ClosedLoop` makes a step a tick. Here every clock is a step: the divider says which
of them move the FSM, and the slave watches the wires in all of them. The whole is a
run of the tick-level loop, a clock without `i2c_tick` being no step of it, so the
times of the commits can be counted in clocks. -/
namespace IotController.ClockedLoop
open IotController.Controller IotController.I2c IotController.Sequencer IotController.Timing
open IotController.Progress IotController.Divider IotController.ClosedLoop IotController.Recovery

/-! ## The composition -/

structure State where
  ctl : Clocked
  slave : Slave
  /-- transactions ended since the reset -/
  ended : ℕ
  /-- the registers of the slave when the last read ended -/
  shown : Option RegFile

/-- The tick-level loop of a state. -/
def State.loop (s : State) : Loop := ⟨s.ctl.fsm, s.slave, s.ended, s.shown⟩

def State.clock (P : BitVec 8) (clkDiv : ℕ) (s : State) : State :=
  let ctl' := s.ctl.clock P clkDiv (wires s.ctl.fsm s.slave).sda
  { ctl := ctl'
    slave := s.loop.heard ctl'.fsm
    ended := if s.ctl.i2cTick ∧ s.ctl.fsm.Ends then s.ended + 1 else s.ended
    shown := if s.ctl.i2cTick ∧ s.ctl.fsm.Commits then some s.slave.mem.regs else s.shown }

/-- KEY[0]: the divider and the FSM, not the slave. -/
def State.reset (s : State) : State :=
  ⟨s.ctl.reset, s.loop.heard s.ctl.fsm.reset, 0, none⟩

def State.sense (W : BitVec 8 → Bool) (s : State) (f : RegFile) : State :=
  { s with slave := (s.loop.sense W f).slave }

inductive Event where
  | clock
  | sense (f : RegFile)

def Event.isClock : Event → Bool
  | .clock => true
  | .sense _ => false

def step (P : BitVec 8) (clkDiv : ℕ) (s : State) : Event → State
  | .clock => s.clock P clkDiv
  | .sense f => s.sense sensorRegs f

def run (P : BitVec 8) (clkDiv : ℕ) (s : State) (evs : List Event) : State :=
  Machine.run (step P clkDiv) s evs

def clocksIn (evs : List Event) : ℕ := evs.countP Event.isClock

/-! ## The tick-level loop -/

/-- Nothing moves on the wires: the slave hears nothing. -/
theorem heard_same (l : Loop) : l.heard l.ctl = l.slave := by
  have hedge : edge (lines l.ctl) (lines l.ctl) = .none := by
    unfold edge
    cases (lines l.ctl).scl <;> cases (lines l.ctl).sda <;> rfl
  rw [l.heard_eq, hedge]
  rfl

section Simulation
variable (P : BitVec 8) (clkDiv : ℕ)

theorem clock_loop (s : State) :
    (s.clock P clkDiv).loop = if s.ctl.i2cTick then s.loop.tick P else s.loop := by
  cases htick : s.ctl.i2cTick with
  | true =>
    rw [if_pos rfl]
    simp only [State.clock, State.loop, Clocked.clock, htick, if_true, true_and]
    rfl
  | false =>
    have hsame := heard_same s.loop
    simp only [State.loop] at hsame
    simp [State.clock, State.loop, Clocked.clock, htick, hsame]

theorem sense_loop (s : State) (f : RegFile) :
    (s.sense sensorRegs f).loop = s.loop.sense sensorRegs f := by
  by_cases h : s.loop.Between
  · rw [State.sense, Loop.sense, if_pos h]
    rfl
  · rw [State.sense, Loop.sense, if_neg h]
    rfl

/-- What a clock is at the tick level. -/
def label (s : State) : Event → List Move
  | .clock => if s.ctl.i2cTick then [.tick] else []
  | .sense f => [.sense f]

theorem simulation : Machine.Simulation (step P clkDiv) (ClosedLoop.step sensorRegs P) State.loop
    label (fun _ => True) (fun _ => True) where
  keeps _ _ _ := trivial
  back _ _ _ := trivial
  simulates s e _ _ := by
    cases e with
    | clock =>
      rw [label, step, clock_loop]
      split <;> rfl
    | sense f => exact (sense_loop s f).symm

/-- Runs on clocks are runs on ticks. -/
theorem run_loop (s : State) (evs : List Event) :
    ClosedLoop.run sensorRegs P s.loop (Machine.labels (step P clkDiv) label s evs) =
      (run P clkDiv s evs).loop := (simulation P clkDiv).run trivial trivial

end Simulation

/-! ## The time of a clock -/

/-- The clock of `Timing`, `m` ticks after a reset. -/
def timeOf (m : ℕ) : ℕ := if m ≤ 60742 then m else clockAfter (m - 60742)

theorem succ_timeOf (m : ℕ) : succ (timeOf m) = timeOf (m + 1) := by
  rcases Nat.lt_trichotomy m 60742 with hlt | rfl | hgt
  · rw [timeOf, if_pos (by omega), timeOf, if_pos (by omega), succ_of_ne (by omega)]
  · rfl
  · have hsub : m + 1 - 60742 = m - 60742 + 1 := by omega
    rw [timeOf, if_neg (by omega), timeOf, if_neg (by omega), clockAfter_succ, hsub]

/-- The commits, in ticks. -/
theorem timeOf_eq_iff (m : ℕ) : timeOf m = 60742 ↔ ∃ j, m = 60742 + 50625 * j := by
  unfold timeOf
  split
  · constructor
    · intro h
      refine ⟨0, ?_⟩
      omega
    · intro ⟨j, h⟩
      omega
  · rw [clockAfter_eq_iff]
    constructor <;> intro ⟨j, h⟩ <;> refine ⟨j, ?_⟩ <;> omega

/-- The clocks with commit number `j` in them, from 0 on. -/
def commitClock (d j : ℕ) : ℕ := (60743 + 50625 * j) * d

theorem ticks_succ (n d : ℕ) :
    n / d = if 0 < n ∧ d ∣ n then (n - 1) / d + 1 else (n - 1) / d := by
  cases n with
  | zero => rw [if_neg (fun h => Nat.lt_irrefl 0 h.1), Nat.zero_sub]
  | succ m =>
    rw [Nat.add_sub_cancel]
    split
    · next h => exact Nat.succ_div_of_dvd h.2
    · next h => exact Nat.succ_div_of_not_dvd fun hdvd => h ⟨Nat.succ_pos m, hdvd⟩

/-- What is true `n` clocks after a reset. -/
structure Timed (P : BitVec 8) (d n : ℕ) (s : State) : Prop where
  count : s.ctl.clkCount.toNat = n % d
  tick : s.ctl.i2cTick = true ↔ 0 < n ∧ d ∣ n
  elapsed : Elapsed P s.ctl.fsm (timeOf ((n - 1) / d))
  /-- a transaction for the configuration, and one for each commit so far -/
  ended : 117 ≤ (n - 1) / d → ((n - 1) / d - 10118) / 50625 + 1 ≤ s.ended

section Timed
variable {P : BitVec 8} {clkDiv d n : ℕ} {s : State}

theorem Timed.reset (P : BitVec 8) (d : ℕ) (s : State) : Timed P d 0 s.reset where
  count := (Nat.zero_mod d).symm
  tick := by simp [State.reset, Clocked.reset]
  elapsed := by
    rw [Nat.zero_sub, Nat.zero_div]
    exact Elapsed.of_reset s.ctl.fsm
  ended h := by
    rw [Nat.zero_sub, Nat.zero_div] at h
    omega

/-- The configuration ends 116 ticks after the reset. -/
theorem ends_config {c : Regs} (h : Elapsed P c 116) : c.Ends := by
  cases h with
  | config s h ht => exact (clock_ends h).mpr (by rw [if_pos rfl]; omega)
  | reset _ _ ht | waitConfig _ _ _ ht | idle _ _ _ ht | read _ _ ht => omega

/-- One tick more: the time, and the transactions ended. -/
theorem fsm_tick {m : ℕ} {c : Regs} {ended : ℕ} (h : Elapsed P c (timeOf m))
    (he : 117 ≤ m → (m - 10118) / 50625 + 1 ≤ ended) (x : Bool) :
    Elapsed P (Controller.tick P c x) (timeOf (m + 1)) ∧
      (117 ≤ m + 1 → (m + 1 - 10118) / 50625 + 1 ≤ if c.Ends then ended + 1 else ended) := by
  refine ⟨succ_timeOf m ▸ h.tick x, fun hm => ?_⟩
  by_cases hfirst : m = 116
  · subst hfirst
    rw [if_pos (ends_config h)]
    exact Nat.le_add_left 1 ended
  · have hbefore := he (by omega)
    by_cases hcommit : ∃ j, m = 60742 + 50625 * j
    · have hends : c.Ends := (h.commits_iff.mpr ((timeOf_eq_iff m).mpr hcommit)).1
      have hdiv : (m + 1 - 10118) / 50625 ≤ (m - 10118) / 50625 + 1 := by omega
      rw [if_pos hends]
      exact Nat.add_le_add_right (Nat.le_trans hdiv hbefore) 1
    · have hsame : (m + 1 - 10118) / 50625 = (m - 10118) / 50625 := by
        by_contra hne
        refine hcommit ⟨(m - 60742) / 50625, ?_⟩
        omega
      rw [hsame]
      split <;> omega

theorem Timed.clock (h : Timed P d n s) (hd : clkDiv / 4 = d) (hpos : 0 < d) (hle : d ≤ 512) :
    Timed P d (n + 1) (s.clock P clkDiv) := by
  have hwraps : s.ctl.Wraps clkDiv ↔ d ∣ n + 1 := by
    rw [Clocked.Wraps, h.count, hd, ← wraps_iff_dvd hpos]
    omega
  have hnext : Elapsed P (s.clock P clkDiv).ctl.fsm (timeOf (n / d)) ∧
      (117 ≤ n / d → (n / d - 10118) / 50625 + 1 ≤ (s.clock P clkDiv).ended) := by
    rw [ticks_succ]
    by_cases htick : 0 < n ∧ d ∣ n
    · have hnow := fsm_tick h.elapsed h.ended (wires s.ctl.fsm s.slave).sda
      simpa [State.clock, Clocked.clock, h.tick.mpr htick, htick] using hnow
    · have hno : s.ctl.i2cTick = false := by simpa using mt h.tick.mp htick
      simpa [State.clock, Clocked.clock, hno, htick] using And.intro h.elapsed h.ended
  refine ⟨?_, ?_, hnext.1, hnext.2⟩
  · rw [succ_mod hpos]
    simp only [State.clock, Clocked.clock, hwraps]
    split
    · rfl
    · next hdvd =>
      have hlt := Nat.mod_lt n hpos
      have hne := mt (wraps_iff_dvd hpos).mp hdvd
      have hcount := h.count
      bv_omega
  · simp [State.clock, Clocked.clock, hwraps]

theorem Timed.sense (h : Timed P d n s) (W : BitVec 8 → Bool) (f : RegFile) :
    Timed P d n (s.sense W f) := ⟨h.count, h.tick, h.elapsed, h.ended⟩

theorem clocksIn_append (pre post : List Event) :
    clocksIn (pre ++ post) = clocksIn pre + clocksIn post := List.countP_append

theorem clocksIn_cons (e : Event) (evs : List Event) :
    clocksIn (e :: evs) = clocksIn [e] + clocksIn evs := clocksIn_append [e] evs

theorem Timed.step (h : Timed P d n s) (hd : clkDiv / 4 = d) (hpos : 0 < d) (hle : d ≤ 512)
    (e : Event) : Timed P d (n + clocksIn [e]) (step P clkDiv s e) := by
  cases e with
  | clock => exact h.clock hd hpos hle
  | sense f => exact h.sense sensorRegs f

theorem Timed.run (h : Timed P d n s) (hd : clkDiv / 4 = d) (hpos : 0 < d) (hle : d ≤ 512)
    (evs : List Event) : Timed P d (n + clocksIn evs) (run P clkDiv s evs) := by
  induction evs generalizing n s with
  | nil => exact h
  | cons e evs ih =>
    have hrun := ih (h.step hd hpos hle e)
    rwa [Nat.add_assoc, ← clocksIn_cons] at hrun

/-! ## Commits on the clock -/

theorem ticks_commitClock {d : ℕ} (hpos : 0 < d) (j : ℕ) :
    (commitClock d j - 1) / d = 60742 + 50625 * j := by
  have hticks := ticks_succ (commitClock d j) d
  have hat : 0 < commitClock d j ∧ d ∣ commitClock d j :=
    ⟨Nat.mul_pos (by omega) hpos, Nat.dvd_mul_left d _⟩
  rw [if_pos hat, commitClock, Nat.mul_div_cancel _ hpos, ← commitClock] at hticks
  omega

theorem commitClock_succ (d j : ℕ) : commitClock d (j + 1) = commitClock d j + 50625 * d := by
  rw [commitClock, commitClock, ← Nat.add_mul, Nat.mul_succ, Nat.add_assoc]

theorem commitClock_mono (d : ℕ) {i j : ℕ} (h : i ≤ j) : commitClock d i ≤ commitClock d j :=
  Nat.mul_le_mul_right d (by omega)

theorem Timed.commits_iff (h : Timed P d n s) (hpos : 0 < d) :
    s.ctl.i2cTick = true ∧ s.ctl.fsm.Commits ↔ ∃ j, n = commitClock d j := by
  rw [h.tick, h.elapsed.commits_iff, timeOf_eq_iff]
  constructor
  · intro ⟨hat, j, hj⟩
    have hticks := ticks_succ n d
    refine ⟨j, ?_⟩
    rw [if_pos hat, hj] at hticks
    have hsum : 60742 + 50625 * j + 1 = 60743 + 50625 * j := by omega
    rw [commitClock, ← Nat.div_mul_cancel hat.2, hticks, hsum]
  · intro ⟨j, hj⟩
    subst hj
    exact ⟨⟨Nat.mul_pos (by omega) hpos, Nat.dvd_mul_left d _⟩, j, ticks_commitClock hpos j⟩

theorem clock_out (P : BitVec 8) (clkDiv : ℕ) (s : State) :
    (s.clock P clkDiv).ctl.fsm.out =
      if s.ctl.i2cTick = true ∧ s.ctl.fsm.Commits then mapOutputs s.ctl.fsm.rx
      else s.ctl.fsm.out := by
  cases htick : s.ctl.i2cTick with
  | true => simpa [State.clock, Clocked.clock, htick] using tick_out s.ctl.fsm _ P
  | false => simp [State.clock, Clocked.clock, htick]

/-- Between commits the outputs stay. -/
theorem Timed.out_run (h : Timed P d n s) (hd : clkDiv / 4 = d) (hpos : 0 < d) (hle : d ≤ 512)
    {evs : List Event} (hno : ∀ j, n ≤ commitClock d j → n + clocksIn evs ≤ commitClock d j) :
    (ClockedLoop.run P clkDiv s evs).ctl.fsm.out = s.ctl.fsm.out := by
  induction evs generalizing n s with
  | nil => rfl
  | cons e evs ih =>
    rw [clocksIn_cons, ← Nat.add_assoc] at hno
    have hrun := ih (h.step hd hpos hle e) fun j hj => hno j (by omega)
    refine hrun.trans ?_
    cases e with
    | sense f => rfl
    | clock =>
      have hquiet : ¬ (s.ctl.i2cTick = true ∧ s.ctl.fsm.Commits) := by
        rw [h.commits_iff hpos]
        intro ⟨j, hj⟩
        have hlate := hno j (Nat.le_of_eq hj)
        have hone : clocksIn [Event.clock] = 1 := rfl
        omega
      exact (clock_out P clkDiv s).trans (if_neg hquiet)

end Timed

/-- The commit before clock `n`. -/
theorem commitClock_before {d n late : ℕ} (hpos : 0 < d) (h : commitClock d late < n) :
    ∃ j, late ≤ j ∧ commitClock d j < n ∧ n ≤ commitClock d (j + 1) := by
  have before (i : ℕ) : commitClock d i < n ↔ 60743 + 50625 * i ≤ (n - 1) / d := by
    rw [Nat.le_div_iff_mul_le hpos, ← commitClock]
    omega
  have hlate := (before late).mp h
  refine ⟨((n - 1) / d - 60743) / 50625, by omega, (before _).mpr (by omega), ?_⟩
  rw [← Nat.not_lt, before]
  omega

/-! ## A divider that never gets there -/

/-- No tick since the reset. -/
def Stopped (s : State) : Prop := s.ctl.i2cTick = false ∧ s.ctl.fsm.out = Outputs.zero

theorem Stopped.step {P : BitVec 8} {clkDiv : ℕ} (hd : clkDiv / 4 = 0 ∨ 512 < clkDiv / 4)
    (s : State) (e : Event) (h : Stopped s) : Stopped (step P clkDiv s e) := by
  cases e with
  | sense f => exact h
  | clock =>
    have hlt := s.ctl.clkCount.isLt
    have hnot : ¬ s.ctl.Wraps clkDiv := by
      rw [Clocked.Wraps]
      omega
    refine ⟨decide_eq_false hnot, ?_⟩
    rw [ClockedLoop.step, clock_out, h.1, if_neg fun hc => Bool.noConfusion hc.1]
    exact h.2

/-- A commit, once the sensor is in step. -/
theorem out_of_commit {clkDiv d j : ℕ} {s : State} {pre : List Event}
    (h : Timed FpgaRtl.regAddrStart d (commitClock d j)
      (run FpgaRtl.regAddrStart clkDiv s.reset pre))
    (hpos : 0 < d) (hj : (if Lost s.slave then 1 else 0) ≤ j) :
    let s' := run FpgaRtl.regAddrStart clkDiv s.reset pre
    (s'.clock FpgaRtl.regAddrStart clkDiv).ctl.fsm.out =
      wordsAt FpgaRtl.regAddrStart s'.slave.mem.regs := by
  intro s'
  have hcommit := (h.commits_iff hpos).mpr ⟨j, rfl⟩
  have hended : j + 1 ≤ s'.ended := by
    have hcount := h.ended (by rw [ticks_commitClock hpos]; omega)
    rw [ticks_commitClock hpos] at hcount
    exact Nat.le_trans (by omega) hcount
  have htracked := (Tracked.of_reset (P := FpgaRtl.regAddrStart) s.loop).run
    (W := sensorRegs) rfl (Machine.labels (step FpgaRtl.regAddrStart clkDiv) label s.reset pre)
  have hloop : ClosedLoop.run sensorRegs FpgaRtl.regAddrStart s.loop.reset _ = s'.loop :=
    run_loop FpgaRtl.regAddrStart clkDiv s.reset pre
  rw [hloop] at htracked
  have hread : (if Lost s.loop.slave then 2 else 1) ≤ s'.loop.ended := by
    refine Nat.le_trans ?_ hended
    split at hj <;> simp_all [State.loop]
  rw [clock_out, if_pos hcommit]
  exact (htracked.commit hread hcommit.2.1).2

/-- Before the first commit, and with another `CLK_DIV` for ever. -/
theorem out_zero (clkDiv : ℕ) (s : State) (evs : List Event)
    (h : clocksIn evs ≤ commitClock (clkDiv / 4) 0 ∨ clkDiv < 4 ∨ 2052 ≤ clkDiv) :
    (run FpgaRtl.regAddrStart clkDiv s.reset evs).ctl.fsm.out = Outputs.zero := by
  by_cases hd : clkDiv / 4 = 0 ∨ 512 < clkDiv / 4
  · exact (Machine.run_keeps (Stopped.step hd) (s := s.reset) ⟨rfl, rfl⟩ evs).2
  · have hearly : clocksIn evs ≤ commitClock (clkDiv / 4) 0 := h.resolve_right (by omega)
    have timed := Timed.reset FpgaRtl.regAddrStart (clkDiv / 4) s
    refine timed.out_run rfl (by omega) (by omega) fun j _ => ?_
    have hle := commitClock_mono (clkDiv / 4) (Nat.zero_le j)
    omega

/-- After the last of the commits. -/
theorem out_late {clkDiv d late : ℕ} (hd : clkDiv / 4 = d) (s : State) (evs : List Event)
    (hlost : late = if Lost s.slave then 1 else 0) (hleast : 4 ≤ clkDiv) (hmost : clkDiv < 2052)
    (hlate : commitClock d late < clocksIn evs) :
    ∃ j pre post, late ≤ j ∧ evs = pre ++ .clock :: post ∧ clocksIn pre = commitClock d j ∧
      clocksIn post < 50625 * d ∧ (run FpgaRtl.regAddrStart clkDiv s.reset evs).ctl.fsm.out =
        wordsAt FpgaRtl.regAddrStart
          (run FpgaRtl.regAddrStart clkDiv s.reset pre).slave.mem.regs := by
  have timed := Timed.reset FpgaRtl.regAddrStart d s
  have hpos : 0 < d := by omega
  have hle : d ≤ 512 := by omega
  obtain ⟨j, hj, hafter, hbefore⟩ := commitClock_before hpos hlate
  obtain ⟨pre, e, post, rfl, he, hpre⟩ := Machine.exists_split_countP hafter
  obtain rfl : e = .clock := by
    cases e with
    | clock => rfl
    | sense f => cases he
  have hpre' : clocksIn pre = commitClock d j := hpre
  have htotal : clocksIn (pre ++ .clock :: post) = commitClock d j + 1 + clocksIn post := by
    rw [clocksIn_append, clocksIn_cons, hpre', ← Nat.add_assoc]
    rfl
  rw [htotal] at hbefore
  have hsucc := commitClock_succ d j
  refine ⟨j, pre, post, hj, rfl, hpre', by omega, ?_⟩
  have hreached := timed.run hd hpos hle pre
  rw [Nat.zero_add, hpre'] at hreached
  have hs : run FpgaRtl.regAddrStart clkDiv s.reset (pre ++ .clock :: post) =
      run FpgaRtl.regAddrStart clkDiv (State.clock FpgaRtl.regAddrStart clkDiv
        (run FpgaRtl.regAddrStart clkDiv s.reset pre)) post := Machine.run_append _ _ _ _
  rw [hs, (hreached.clock hd hpos hle).out_run hd hpos hle]
  · exact out_of_commit hreached hpos (hlost ▸ hj)
  · intro i hi
    have hlater : j < i := by
      by_contra hge
      have hmono := commitClock_mono d (Nat.le_of_not_lt hge)
      omega
    have hmono : commitClock d (j + 1) ≤ commitClock d i := commitClock_mono d hlater
    omega

/-! ## Results -/

/-- The age of the outputs, from a reset in any joint state. With `CLK_DIV` from 4 to
2051 and `d = CLK_DIV/4` they are zero up to clock 60743 * d; after that they are the
registers of the sensor as they were less than 50625 * d clocks and one before, at the
last clock 60743 * d + 50625 * d * j. The first of these reads may be lost if the
sensor was being read at the reset. With any other `CLK_DIV` they stay zero. -/
theorem outputs_age (clkDiv : ℕ) (s : State) (evs : List Event) :
    let d := clkDiv / 4
    let s' := run FpgaRtl.regAddrStart clkDiv s.reset evs
    let late := if Lost s.slave then 1 else 0
    (clocksIn evs ≤ commitClock d 0 ∨ clkDiv < 4 ∨ 2052 ≤ clkDiv →
      s'.ctl.fsm.out = Outputs.zero) ∧
    (4 ≤ clkDiv → clkDiv < 2052 → commitClock d late < clocksIn evs →
      ∃ j pre post, late ≤ j ∧ evs = pre ++ .clock :: post ∧ clocksIn pre = commitClock d j ∧
        clocksIn post < 50625 * d ∧ s'.ctl.fsm.out = wordsAt FpgaRtl.regAddrStart
          (run FpgaRtl.regAddrStart clkDiv s.reset pre).slave.mem.regs) := by
  intro d s' late
  exact ⟨out_zero clkDiv s evs, out_late rfl s evs rfl⟩

end IotController.ClockedLoop
