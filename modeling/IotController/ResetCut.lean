import IotController.ClosedLoop

/-! # A reset in the middle of a transaction

`reset_n` does not reach the sensor. If the sensor is holding SDA low when the
controller is reset, the START of the new configuration does not show on the
wires: a sensor that was acknowledging a written byte takes the configuration
for data, one that was being read takes in nothing. -/
namespace IotController.ResetCut
open IotController.Controller IotController.I2c IotController.Sequencer IotController.ClosedLoop
open IotController.Follow IotController.Samples

/-- Since `l₀` nothing but PWR_MGMT_1 was written, and it is 0 now. -/
def SafeSince (l₀ l : Loop) : Prop :=
  l.slave.mem.regs regPwrMgmt1 = regPwrData ∧
    ∃ ws, l.slave.mem.writes = ws ++ l₀.slave.mem.writes ∧ ∀ a ∈ ws, a = regPwrMgmt1

/-- The slave is being read. -/
def Reading (m : Mode) : Bool :=
  match m with
  | .ackRead | .send _ _ => true
  | .idle | .listen _ _ | .ackWrite _ | .answer _ => false

/-! ## The reset itself -/

section Reset
variable (l : Loop)

/-- Both lines are released at once: no fall, and no START. -/
theorem reset_edge : edge (lines l.ctl) (lines l.ctl.reset) ≠ .fall ∧
    edge (lines l.ctl) (lines l.ctl.reset) ≠ .start := by
  rw [(Waiting.of_reset l.ctl).lines_eq]
  obtain ⟨scl, sda⟩ := lines l.ctl
  revert scl sda
  decide

theorem reset_mem : l.reset.slave.mem = l.slave.mem :=
  (congrArg Slave.mem (l.heard_eq _)).trans (l.slave.hear_mem _ (reset_edge l).1)

theorem reset_sda : l.reset.slave.mode.sda = l.slave.mode.sda :=
  (congrArg (·.mode.sda) (l.heard_eq _)).trans (l.slave.hear_sda _ (reset_edge l).1)

/-- A slave that holds SDA low does not notice. -/
theorem reset_slave (h : l.slave.mode.sda = false) : l.reset.slave = l.slave := by
  refine (l.heard_eq _).trans ?_
  have hrise (b : Bool) : l.slave.rise b = l.slave := by
    unfold Slave.rise; split <;> simp_all [Mode.sda]
  obtain ⟨hf, hs⟩ := reset_edge l
  cases he : edge (lines l.ctl) (lines l.ctl.reset) with
  | none => rfl
  | rise b => rw [Slave.hear_rise, hrise]
  | stop => rw [Slave.hear_stop, h]; rfl
  | fall => exact absurd he hf
  | start => exact absurd he hs

end Reset

/-! ## The first configuration after it -/

section Runs
variable {W : BitVec 8 → Bool} {P : BitVec 8} {l : Loop}

theorem run_configDone (h : Sequenced P l.ctl) (hd : l.ctl.configDone = true)
    (evs : List Move) : (run W P l evs).ctl.configDone = true := by
  induction evs generalizing l with
  | nil => exact hd
  | cons e evs ih =>
    cases e with
    | tick => exact ih (l := l.tick P) (h.tick _) (h.configDone hd _)
    | sense f =>
      have hs := l.sense_ctl W f
      exact ih (l := l.sense W f) (hs ▸ h) (hs ▸ hd)

/-- What holds at a reset and is kept while `config_done` is 0 holds until it rises. -/
theorem run_until {I : Loop → Prop}
    (tick : ∀ l, I l → (l.tick P).ctl.configDone = false → I (l.tick P))
    (sense : ∀ l f, I l → I (l.sense W f)) (h : Sequenced P l.ctl) (hI : I l)
    {evs : List Move} (before : (run W P l evs).ctl.configDone = false) :
    I (run W P l evs) := by
  induction evs generalizing l with
  | nil => exact hI
  | cons e evs ih =>
    cases e with
    | tick =>
      have h' : Sequenced P (l.tick P).ctl := h.tick _
      refine ih (l := l.tick P) h' (tick l hI ?_) before
      refine Bool.eq_false_iff.mpr fun hd => Bool.eq_false_iff.mp before ?_
      exact run_configDone h' hd evs
    | sense f =>
      have hs := l.sense_ctl W f
      exact ih (l := l.sense W f) (hs ▸ h) (sense l f hI) before

/-- The configuration is to come or under way, and the slave meets it as `missed`. -/
def Pending (P : BitVec 8) (missed : Option Target) (ws : List (BitVec 8)) (l : Loop) : Prop :=
  Waiting l.ctl ∧ l.ctl.configDone = false ∧ Meets l.slave missed ∧ l.slave.mem.writes = ws ∨
    ∃ w s, w.regAddrStart = P ∧ w.cw = true ∧ w.missed = missed ∧ w.mem.writes = ws ∧ Within w s l

variable {missed : Option Target} {ws : List (BitVec 8)}

theorem Pending.tick (h : Pending P missed ws l) (hd : (l.tick P).ctl.configDone = false) :
    Pending P missed ws (l.tick P) := by
  rcases h with ⟨hw, hd', hm, hws⟩ | ⟨w, s, rfl, hcw, hm, hws, hl⟩
  · rcases waiting_tick (P := P) hw hm (fun _ => hd') with ⟨hw', hd''⟩ | hl
    · refine .inl ⟨hw', hd, ?_, ?_⟩ <;> rw [waiting_slave hw]
      · exact hm
      · exact hws
    · exact .inr ⟨_, _, rfl, by rw [hd']; rfl, rfl, hws, hl⟩
  · by_cases he : l.ctl.Ends
    · rw [(hl.tick_end he).2.2.2] at hd
      cases hd
    · exact .inr ⟨w, _, rfl, hcw, hm, hws, hl.tick he⟩

theorem Pending.sense (h : Pending P missed ws l) (f : RegFile) :
    Pending P missed ws (l.sense W f) := by
  unfold Loop.sense
  split
  case isFalse => exact h
  case isTrue hb =>
    rcases h with ⟨hw, hd, hm, hws⟩ | ⟨w, s, _, _, _, _, hl⟩
    · exact .inl ⟨hw, hd, by cases missed <;> exact hm, hws⟩
    · exact absurd hb hl.not_between

/-- When `config_done` rises the slave has taken in the three bytes. -/
theorem Pending.final (h : Pending P missed ws l) (hd : (l.tick P).ctl.configDone = true) :
    ∃ w : Session, w.cw = true ∧ w.missed = missed ∧ w.mem.writes = ws ∧
      (l.tick P).slave.mem = w.after .regData := by
  rcases h with ⟨hw, hd', hm, _⟩ | ⟨w, s, rfl, hcw, hm, hws, hl⟩
  · rcases waiting_tick (P := P) hw hm (fun _ => hd') with ⟨_, h'⟩ | hl
    · rw [hd, hd'] at h'
      cases h'
    · have h' := hl.place.configDone
      rw [hd, hd'] at h'
      cases h'
  · by_cases he : l.ctl.Ends
    · refine ⟨w, hcw, hm, hws, ?_⟩
      rw [(hl.tick_end he).2.1, Session.final, if_pos hcw]
    · rw [(hl.tick he).place.configDone, hcw] at hd
      cases hd

/-! ## A slave that is being read through it -/

/-- The slave takes in nothing, and has not since it held `m₀`. -/
structure Deaf (m₀ : Mem) (s : Slave) : Prop where
  mute : s.mode.mute = true
  writes : s.mem.writes = m₀.writes
  mode : s.mem.regs regPwrMgmt1 = m₀.regs regPwrMgmt1

variable {m₀ : Mem}

theorem Deaf.hear {s : Slave} (h : Deaf m₀ s) {e : Edge} (he : e = .start → s.mode.sda = false) :
    Deaf m₀ (s.hear slaveAddr e) := by
  obtain ⟨hmute, hregs, hwrites⟩ := @Slave.hear_mute slaveAddr s h.mute e he
  exact ⟨hmute, hwrites.trans h.writes, by rw [hregs, h.mode]⟩

/-- The configuration is to come or under way; until its START is over such a
slave keeps SDA low. -/
def Muted (P : BitVec 8) (m₀ : Mem) (l : Loop) : Prop :=
  Deaf m₀ l.slave ∧
    (Waiting l.ctl ∧ l.ctl.configDone = false ∧ l.slave.mode.sda = false ∨
      ∃ s, At P true s l.ctl ∧
        (s = .start → l.ctl.phase = 0#2 ∨ l.ctl.phase = 1#2 → l.slave.mode.sda = false))

/-- A configuration has one START. -/
theorem edge_start {s : Slot} {ph : BitVec 2} (ha : s.allowed true = true)
    (he : s.edge P true ph = .start) : s = .start ∧ ph = 1#2 := by
  cases s with
  | start =>
    rcases phase_cases ph with rfl | rfl | rfl | rfl <;> first | exact ⟨rfl, rfl⟩ | cases he
  | bit f k | ack f | stop => rcases phase_cases ph with rfl | rfl | rfl | rfl <;> cases he
  | restart | recv n k | reply n => cases ha

theorem Muted.deaf_tick (h : Muted P m₀ l) : Deaf m₀ (l.tick P).slave := by
  obtain ⟨hdeaf, ⟨hw, _⟩ | ⟨s, hs, hstart⟩⟩ := h
  · rwa [waiting_slave hw]
  · rw [l.tick_slave, Loop.tick, hs.edge]
    refine hdeaf.hear ?_
    intro he
    obtain ⟨rfl, hp⟩ := edge_start hs.allowed he
    exact hstart rfl (.inr hp)

theorem Muted.tick (h : Muted P m₀ l) (hd : (l.tick P).ctl.configDone = false) :
    Muted P m₀ (l.tick P) := by
  refine ⟨h.deaf_tick, ?_⟩
  obtain ⟨_, ⟨hw, hd', hsda⟩ | ⟨s, hs, hstart⟩⟩ := h
  · rw [waiting_slave hw]
    rcases hw.tick (P := P) (wires l.ctl l.slave).sda with ⟨hw', _⟩ | ⟨_, hs, _⟩
    · exact .inl ⟨hw', hd, hsda⟩
    · rw [hd'] at hs
      exact .inr ⟨_, hs, fun _ _ => hsda⟩
  · rcases hs.step (wires l.ctl l.slave).sda with
      ⟨he, rfl⟩ | ⟨_, s', hn, hs', _⟩ | ⟨hp, hs', hp'⟩
    · exact absurd ((hs.tick_stop he.2 _).2.symm.trans hd) (by decide)
    · exact .inr ⟨s', hs', fun h => absurd h (Slot.next_ne_start hn)⟩
    · refine .inr ⟨s, hs', ?_⟩
      rintro rfl hph
      -- only phase 0 leads to phase 1, and no line moves in it
      have h0 : l.ctl.phase = 0#2 := by
        have hph' : l.ctl.phase + 1 = 0#2 ∨ l.ctl.phase + 1 = 1#2 := hp' ▸ hph
        revert hp hph'
        generalize l.ctl.phase = ph
        revert ph
        decide
      rw [l.tick_slave, Loop.tick, hs.edge, h0]
      exact hstart rfl (.inl h0)

theorem Muted.sense (hW : W regPwrMgmt1 = false) (h : Muted P m₀ l) (f : RegFile) :
    Muted P m₀ (l.sense W f) := by
  unfold Loop.sense
  split
  · exact ⟨⟨h.1.mute, h.1.writes, by simp [hW, h.1.mode]⟩, h.2⟩
  · exact h

end Runs

/-! ## Results -/

theorem not_safe_of_neighbours {l₀ l : Loop} {a : BitVec 8} {ws : List (BitVec 8)}
    (h : l.slave.mem.writes = (a + 1) :: a :: ws ++ l₀.slave.mem.writes) : ¬ SafeSince l₀ l := by
  rintro ⟨-, ws', hws, hall⟩
  obtain rfl := List.append_cancel_right (hws.symm.trans h)
  have h1 := hall (a + 1) (by simp)
  have h0 := hall a (by simp)
  rw [h0] at h1
  exact absurd h1 (by decide)

/-- When `config_done` first rises after a reset in any joint state, the sensor
is awake and nothing else was written exactly if the sensor was not holding SDA
low at the reset, or was being read and already awake. -/
theorem safeSince_iff (l : Loop) (evs : List Move)
    (before : (run sensorRegs FpgaRtl.regAddrStart l.reset evs).ctl.configDone = false)
    (rises : ((run sensorRegs FpgaRtl.regAddrStart l.reset evs).tick
      FpgaRtl.regAddrStart).ctl.configDone = true) :
    SafeSince l ((run sensorRegs FpgaRtl.regAddrStart l.reset evs).tick FpgaRtl.regAddrStart) ↔
      l.slave.mode.sda = true ∨
        Reading l.slave.mode = true ∧ l.slave.mem.regs regPwrMgmt1 = regPwrData := by
  have hseq : Sequenced FpgaRtl.regAddrStart l.reset.ctl := .inl (Waiting.of_reset l.ctl)
  have pending (missed : Option Target) (hm : Meets l.reset.slave missed) :
      Pending FpgaRtl.regAddrStart missed l.slave.mem.writes
        (run sensorRegs FpgaRtl.regAddrStart l.reset evs) :=
    run_until (fun _ h => h.tick) (fun _ f h => h.sense f) hseq
      (.inl ⟨Waiting.of_reset l.ctl, rfl, hm, by rw [reset_mem]⟩) before
  cases hsda : l.slave.mode.sda
  · have hslave := reset_slave l hsda
    by_cases hack : ∃ t, l.slave.mode = .ackWrite t
    · obtain ⟨t, ht⟩ := hack
      obtain ⟨w, hc, hm, hws, hmem⟩ :=
        (pending (some t) (by rw [Meets, hslave, ht])).final rises
      obtain ⟨a, ws, hwrites⟩ := Session.after_regData_missed hc hm
      rw [← hmem, hws] at hwrites
      exact iff_of_false (not_safe_of_neighbours hwrites) (by simp [ht, Reading])
    · have hread : Reading l.slave.mode = true := by
        cases hmode : l.slave.mode <;> simp_all [Mode.sda, Reading]
      have hmute : l.slave.mode.mute = true := by
        cases hmode : l.slave.mode <;> simp_all [Mode.mute, Reading]
      have deaf := (run_until (W := sensorRegs) (fun _ h => Muted.tick h)
        (fun _ f h => Muted.sense (by decide) h f) hseq
        (show Muted FpgaRtl.regAddrStart l.slave.mem l.reset from
          ⟨⟨by rw [hslave, hmute], by rw [hslave], by rw [hslave]⟩,
            .inl ⟨Waiting.of_reset l.ctl, rfl, by rw [hslave, hsda]⟩⟩) before).deaf_tick
      constructor
      · rintro ⟨hregs, -⟩
        exact .inr ⟨hread, by rw [← deaf.mode, hregs]⟩
      · rintro (h | ⟨-, hregs⟩)
        · cases h
        · exact ⟨by rw [deaf.mode, hregs], [], deaf.writes, by simp⟩
  · obtain ⟨w, hc, hm, hws, hmem⟩ :=
      (pending none (by rw [Meets, reset_sda, hsda])).final rises
    obtain ⟨hregs, hwrites⟩ := Session.after_regData_seen hc hm
    rw [← hmem, hws] at hwrites
    refine iff_of_true ⟨?_, [regPwrMgmt1], hwrites, by simp⟩ (.inl rfl)
    rw [hmem, hregs]
    exact Function.update_self ..

/-- A sensor whose registers all read 0x40, so it is asleep. -/
def asleep : Loop := initial blank (fun _ => 0x40) 0

/-- In the second bit of the first device address, SDA free on the side of the sensor. -/
def addressing : Loop := run sensorRegs FpgaRtl.regAddrStart asleep (ticks 11)

/-- In the acknowledge slot of the first device address, the sensor holding SDA low. -/
def acknowledging : Loop := run sensorRegs FpgaRtl.regAddrStart asleep (ticks 39)

set_option maxRecDepth 4000 in
/-- The one cut does no harm, the other does. -/
theorem safeSince_iff_midway :
    SafeSince addressing ((run sensorRegs FpgaRtl.regAddrStart addressing.reset
      (ticks 116)).tick FpgaRtl.regAddrStart) ∧
    ¬ SafeSince acknowledging ((run sensorRegs FpgaRtl.regAddrStart acknowledging.reset
      (ticks 116)).tick FpgaRtl.regAddrStart) := by
  have hfree := safeSince_iff addressing (ticks 116) (by decide +kernel) (by decide +kernel)
  have hheld := safeSince_iff acknowledging (ticks 116) (by decide +kernel) (by decide +kernel)
  exact ⟨hfree.mpr (.inl (by decide +kernel)), mt hheld.mp (by decide +kernel)⟩

/-- The joint states a run with resets can get to. -/
inductive Reachable : Loop → Prop where
  | initial (c : Regs) (regs : RegFile) (ptr : BitVec 8) : Reachable (initial c regs ptr)
  | step {l : Loop} (m : Move) : Reachable l →
      Reachable (step sensorRegs FpgaRtl.regAddrStart l m)
  | reset {l : Loop} : Reachable l → Reachable l.reset

theorem Reachable.run {l : Loop} (h : Reachable l) (evs : List Move) :
    Reachable (run sensorRegs FpgaRtl.regAddrStart l evs) := by
  induction evs generalizing l with
  | nil => exact h
  | cons e evs ih => exact ih (h.step e)

set_option maxRecDepth 4000 in
/-- Cut there, the configuration lands in registers 0xD0 and 0xD1 and the sensor
stays asleep. -/
theorem reset_in_acknowledge :
    ¬ ∀ l, Reachable l → ∀ evs : List Move,
      (run sensorRegs FpgaRtl.regAddrStart l.reset evs).ctl.configDone = false →
      ((run sensorRegs FpgaRtl.regAddrStart l.reset evs).tick
        FpgaRtl.regAddrStart).ctl.configDone = true →
      SafeSince l
        ((run sensorRegs FpgaRtl.regAddrStart l.reset evs).tick FpgaRtl.regAddrStart) := by
  intro h
  have hsafe := h acknowledging ((Reachable.initial _ _ _).run _) (ticks 116)
    (by decide +kernel) (by decide +kernel)
  exact absurd hsafe.1 (by decide +kernel)

end IotController.ResetCut
