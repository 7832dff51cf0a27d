import IotController.ResetCut

/-! # The link after a reset

KEY[0] resets the controller alone, at any moment. A sensor that was sending goes
on sending: through the configuration, and into the first read if it holds SDA low
whenever a START is made. In the burst of that read the master leaves SDA alone
for eight bits out of nine, so an old byte either meets the answers of the master,
the last of which is a NACK, or is answered by nobody, which is a NACK as well.
After the first read the two are in step again. -/
namespace IotController.Recovery
open IotController.Controller IotController.I2c IotController.Sequencer IotController.ClosedLoop
open IotController.Follow IotController.Samples IotController.ResetCut

/-! ## A slave astray in a read -/

/-- The half of a slot in front of the rise of SCL, START apart. -/
def early (ph : BitVec 2) : Bool := ph == 0 || ph == 1

/-- Idle, or busy with an old read; a byte sent is answered in the second half of
a slot. -/
def Busy (ph : BitVec 2) : Mode → Prop
  | .idle | .ackRead | .send _ _ => True
  | .answer a => early ph = true → a = none
  | .listen _ _ | .ackWrite _ => False

/-- The same in the burst of the new read. In the first byte the old one is at most
one bit behind, and only a byte that ends with the first goes on. -/
def Fading (ph : BitVec 2) (n : Fin 14) (k : Fin 8) : Mode → Prop
  | .idle => True
  | .ackRead => n = 0 ∧ k = 7
  | .send _ j => if n = 0 then j.val ≤ k + 1 else j = k
  | .answer a => a = if early ph then none else some true
  | .listen _ _ | .ackWrite _ => False

/-- Its mode in the slot in which the master answers byte `n`. -/
def Answered (ph : BitVec 2) (n : Fin 14) : Mode → Prop
  | .idle => True
  | .send _ j => n = 0 ∧ j = 0
  | .answer a => a = if early ph then none else some (n == 13)
  | .ackRead | .listen _ _ | .ackWrite _ => False

/-- The mode of a slave that has missed the START of a read. It may see the
repeated START; then it takes in the second device address. -/
def Astray (ph : BitVec 2) (m : Mode) : Slot → Prop
  | .start => Busy 0 m ∧ (early ph = true → m.sda = false)
  | .bit f k => Busy ph m ∨ f = .rdDevAddr ∧
      m = .listen none ((msbFirst 0xD1).take (if early ph then 7 - k else 8 - k))
  | .ack _ => Busy ph m
  | .restart => Busy ph m ∨ ph = 3 ∧ m = .listen none []
  | .recv n k => Fading ph n k m
  | .reply n => Answered ph n m
  | .stop => m = .idle

theorem Busy.rise {s : Slave} {ph : BitVec 2} (h : Busy ph s.mode) (b : Bool) :
    Busy 2 (s.rise b).mode := by
  obtain ⟨m, mode⟩ := s
  cases mode with
  | idle | ackRead | send b k => trivial
  | answer a =>
    intro he
    cases he
  | listen t bits => exact h.elim
  | ackWrite t => exact h.elim

theorem Busy.fall {s : Slave} {ph : BitVec 2} (h : Busy ph s.mode) :
    Busy 0 (s.fall slaveAddr).mode := by
  obtain ⟨m, mode⟩ := s
  cases mode with
  | idle | ackRead => trivial
  | send b k => by_cases hk : k = 0 <;> simp [Slave.fall, Busy, hk]
  | answer a => rcases a with _ | _ | _ <;> simp [Slave.fall, Slave.load, Busy]
  | listen t bits => exact h.elim
  | ackWrite t => exact h.elim

theorem Busy.fading {m : Mode} (h : Busy 0 m) : Fading 0 0 7 m := by
  cases m with
  | idle => trivial
  | ackRead => exact ⟨rfl, rfl⟩
  | send b j => exact Nat.le_of_lt j.isLt
  | answer a => exact h rfl
  | listen t bits => exact h.elim
  | ackWrite t => exact h.elim

/-- A byte that the master does not answer meets a released line. -/
theorem Fading.rise {s : Slave} {n : Fin 14} {k : Fin 8} (h : Fading 1 n k s.mode) :
    Fading 2 n k (s.rise s.mode.sda).mode := by
  obtain ⟨m, mode⟩ := s
  cases mode with
  | idle | ackRead | send b j => exact h
  | answer a => rfl
  | listen t bits => exact h.elim
  | ackWrite t => exact h.elim

theorem Answered.rise {s : Slave} {n : Fin 14} (h : Answered 1 n s.mode) :
    Answered 2 n (s.rise (n == 13 && s.mode.sda)).mode := by
  obtain ⟨m, mode⟩ := s
  cases mode with
  | idle | send b j => exact h
  | answer a => simp [Slave.rise, Mode.sda, Answered, early]
  | ackRead => exact h.elim
  | listen t bits => exact h.elim
  | ackWrite t => exact h.elim

section Slots
variable {P : BitVec 8} {s : Slave}

/-- The first three ticks of a slot. -/
theorem Astray.within {ph : BitVec 2} {sl : Slot} (h : Astray ph s.mode sl) (hp : ph ≠ 3#2) :
    Astray (ph + 1) (s.hear slaveAddr (sl.edge P false ph)).mode sl := by
  cases sl with
  | start =>
    obtain ⟨hb, hsda⟩ := h
    rcases phase_cases ph with rfl | rfl | rfl | rfl
    · exact ⟨hb, fun _ => hsda rfl⟩
    · -- with SDA held low the START does not show
      have hstart : s.hear slaveAddr (Slot.start.edge P false 1#2) = s := by
        rw [show Slot.start.edge P false 1#2 = .start from rfl, Slave.hear_start, hsda rfl]
        rfl
      exact ⟨by rwa [hstart], fun he => by cases he⟩
    · exact ⟨Busy.fall hb, fun he => by cases he⟩
    · exact absurd rfl hp
  | bit f k =>
    rcases phase_cases ph with rfl | rfl | rfl | rfl
    · exact h
    · rcases h with hb | ⟨rfl, hl⟩
      · exact .inl (hb.rise _)
      · refine .inr ⟨rfl, ?_⟩
        have hedge : (Slot.bit .rdDevAddr k).edge P false 1#2 = .rise ((0xD1#8).getLsbD k) := rfl
        rw [hedge, Slave.hear_rise, Slave.rise, hl]
        simpa [Mode.sda, early] using take_msbFirst 0xD1 k
    · exact h
    · exact absurd rfl hp
  | ack f =>
    rcases phase_cases ph with rfl | rfl | rfl | rfl
    · exact h
    · exact Busy.rise h _
    · exact h
    · exact absurd rfl hp
  | restart =>
    rcases phase_cases ph with rfl | rfl | rfl | rfl
    · exact h.imp id fun h => absurd h.1 (by decide)
    · rcases h with hb | ⟨h, -⟩
      · exact .inl (hb.rise _)
      · cases h
    · rcases h with hb | ⟨h, -⟩
      · rw [show Slot.restart.edge P false 2#2 = .start from rfl, Slave.hear_start]
        split
        · exact .inr ⟨rfl, rfl⟩
        · exact .inl hb
      · cases h
    · exact absurd rfl hp
  | recv n k =>
    rcases phase_cases ph with rfl | rfl | rfl | rfl
    · exact h
    · exact Fading.rise h
    · exact h
    · exact absurd rfl hp
  | reply n =>
    rcases phase_cases ph with rfl | rfl | rfl | rfl
    · exact h
    · exact Answered.rise h
    · exact h
    · exact absurd rfl hp
  | stop =>
    obtain ⟨m, mode⟩ := s
    obtain rfl : mode = .idle := h
    rcases phase_cases ph with rfl | rfl | rfl | rfl <;> rfl

theorem Fading.fall {n : Fin 14} {k : Fin 8} (h : Fading 3 n k s.mode) :
    if k = 0 then Answered 0 n (s.fall slaveAddr).mode
    else Fading 0 n (k - 1) (s.fall slaveAddr).mode := by
  obtain ⟨m, mode⟩ := s
  cases mode with
  | idle => split <;> trivial
  | ackRead =>
    obtain ⟨rfl, rfl⟩ : n = 0 ∧ k = 7 := h
    exact Nat.le_refl 7
  | send b j =>
    have hj : if n = 0 then j.val ≤ k + 1 else j = k := h
    by_cases hj0 : j = 0
    · -- the byte ends here, and nobody is to answer it unless the new one ends too
      simp only [Slave.fall, hj0, if_true]
      split <;> rfl
    · have hpred := pred_val j hj0
      simp only [Slave.fall, if_neg hj0]
      by_cases hn : n = 0
      · rw [if_pos hn] at hj
        split
        · next hk =>
          subst hk
          refine ⟨hn, Fin.ext ?_⟩
          simp only [Fin.val_zero] at hj ⊢
          omega
        · next hk =>
          have hpred' := pred_val k hk
          simp only [Fading, if_pos hn]
          omega
      · rw [if_neg hn] at hj
        subst hj
        simp [if_neg hj0, Fading, hn]
  | answer a =>
    obtain rfl : a = some true := h
    split <;> trivial
  | listen t bits => exact h.elim
  | ackWrite t => exact h.elim

theorem Answered.fall {n : Fin 14} (h : Answered 3 n s.mode) :
    if n = 13 then (s.fall slaveAddr).mode = .idle
    else Fading 0 (n + 1) 7 (s.fall slaveAddr).mode := by
  obtain ⟨m, mode⟩ := s
  cases mode with
  | idle => split <;> trivial
  | send b j =>
    obtain ⟨rfl, rfl⟩ : n = 0 ∧ j = 0 := h
    rfl
  | answer a =>
    obtain rfl : a = some (n == 13) := h
    by_cases hn : n = 13
    · subst hn
      rfl
    · have hb : (n == 13) = false := by simpa using hn
      have hsucc : n + 1 ≠ 0 := fun h0 => by
        have := val_succ n hn
        rw [h0] at this
        simp at this
      simp [hn, hb, Slave.fall, Slave.load, Fading, hsucc]
  | ackRead => exact h.elim
  | listen t bits => exact h.elim
  | ackWrite t => exact h.elim

/-- The fourth, into the next slot. -/
theorem Astray.last {sl sl' : Slot} (h : Astray 3#2 s.mode sl) (ha : sl.allowed false = true)
    (hn : sl.next false = some sl') :
    Astray 0#2 (s.hear slaveAddr (sl.edge P false 3#2)).mode sl' := by
  cases sl with
  | start =>
    cases hn
    exact .inl h.1
  | bit f k =>
    cases hn
    have he : (Slot.bit f k).edge P false 3#2 = .fall := rfl
    rw [he, Slave.hear_fall]
    rcases h with hb | ⟨rfl, hl⟩
    · split
      · exact hb.fall
      · exact .inl hb.fall
    · obtain ⟨m, mode⟩ := s
      obtain rfl : mode = _ := hl
      by_cases h0 : k = 0
      · have hall : (msbFirst 0xD1).take (8 - k) = msbFirst 0xD1 := by
          rw [h0]
          exact List.take_of_length_le (Nat.le_of_eq (msbFirst_length _))
        have hearly : early 3#2 = false := rfl
        rw [hearly, if_neg (by decide), hall, Slave.fall_full, if_pos h0]
        trivial
      · have hpred := pred_val k h0
        have hlen : ((msbFirst 0xD1).take (8 - k)).length ≠ 8 := by
          rw [List.length_take, msbFirst_length]; omega
        have htake : 7 - (k - 1 : Fin 8).val = 8 - k.val := by omega
        have hearly : early 3#2 = false := rfl
        rw [hearly, if_neg (by decide), Slave.fall_short slaveAddr _ _ hlen, if_neg h0, ← htake]
        exact .inr ⟨rfl, rfl⟩
  | ack f =>
    cases hn
    have hb : Busy 0 (s.fall slaveAddr).mode := Busy.fall h
    cases f with
    | devAddr => exact .inl hb
    | regAddr => exact .inl hb
    | regData => cases ha
    | rdDevAddr => exact hb.fading
  | restart =>
    cases hn
    rcases h with hb | ⟨-, hl⟩
    · exact .inl hb.fall
    · obtain ⟨m, mode⟩ := s
      obtain rfl : mode = _ := hl
      exact .inr ⟨rfl, rfl⟩
  | recv n k =>
    cases hn
    have hf := Fading.fall h
    by_cases h0 : k = 0
    · rw [if_pos h0] at hf ⊢
      exact hf
    · rw [if_neg h0] at hf ⊢
      exact hf
  | reply n =>
    cases hn
    have hf := Answered.fall h
    by_cases h13 : n = 13
    · rw [if_pos h13] at hf ⊢
      exact hf
    · rw [if_neg h13] at hf ⊢
      exact hf
  | stop => cases hn

end Slots

/-! ## The joint state -/

section Loop
variable {W : BitVec 8 → Bool} {P : BitVec 8} {l : Loop}

/-- Waiting with SDA free, or in the same slot of a transaction whose START was seen. -/
def InStep (P : BitVec 8) (l : Loop) : Prop :=
  Waiting l.ctl ∧ Meets l.slave none ∨
    ∃ w s, w.regAddrStart = P ∧ w.missed = none ∧ Within w s l

theorem InStep.tick (h : InStep P l) : InStep P (l.tick P) := by
  rcases h with ⟨hw, hm⟩ | ⟨w, s, rfl, hm, hl⟩
  · rcases waiting_tick (P := P) hw hm (by simp) with ⟨hw', _⟩ | hl
    · exact .inl ⟨hw', by rwa [waiting_slave hw]⟩
    · exact .inr ⟨_, _, rfl, rfl, hl⟩
  · by_cases he : l.ctl.Ends
    · obtain ⟨-, hsl, hw, -⟩ := hl.tick_end he
      exact .inl ⟨hw, by rw [hsl]; rfl⟩
    · exact .inr ⟨w, _, rfl, hm, hl.tick he⟩

theorem InStep.sense (h : InStep P l) (f : RegFile) : InStep P (l.sense W f) := by
  unfold Loop.sense
  split
  case isFalse => exact h
  case isTrue hb =>
    rcases h with ⟨hw, hm⟩ | ⟨w, s, _, _, hl⟩
    · exact .inl ⟨hw, hm⟩
    · exact absurd hb hl.not_between

/-- In step, a read commits the registers of the slave. -/
theorem InStep.words (h : InStep P l) (hc : l.ctl.Commits) :
    mapOutputs l.ctl.rx = wordsAt P l.slave.mem.regs := by
  rcases h with ⟨hw, _⟩ | ⟨w, s, rfl, _, hl⟩
  · exact absurd hc.1 hw.not_ends
  · exact hl.words hc

theorem InStep.commits (h : InStep P l) (he : l.ctl.Ends) (hd : l.ctl.configDone = true) :
    l.ctl.Commits := by
  rcases h with ⟨hw, _⟩ | ⟨w, s, _, _, hl⟩
  · exact absurd he hw.not_ends
  · refine ⟨he, hl.place.configWrite.trans ?_⟩
    have hcw := hl.place.configDone
    rw [hd] at hcw
    simpa using hcw.symm

/-- The counter agrees with `config_done`. -/
def Counts (l : Loop) : Prop := 0 < l.ended ↔ l.ctl.configDone = true

theorem Counts.tick (h : Counts l) (hseq : Sequenced P l.ctl) : Counts (l.tick P) := by
  unfold Counts at h ⊢
  rcases hseq with hw | ⟨cw, s, hs⟩
  · have hd : (l.tick P).ctl.configDone = l.ctl.configDone := by
      rcases hw.tick (P := P) (wires l.ctl l.slave).sda with ⟨_, hd⟩ | ⟨_, hat, _⟩
      · exact hd
      · exact hat.configDone.trans (Bool.not_not _)
    rw [hd, Loop.tick, if_neg hw.not_ends]
    exact h
  · rcases hs.step (wires l.ctl l.slave).sda with ⟨he, rfl⟩ | ⟨hp, s', hn, hs', _⟩ | ⟨hp, hs', _⟩
    · have hd : (l.tick P).ctl.configDone = true := (hs.tick_stop he.2 _).2
      rw [hd, Loop.tick, if_pos he]
      simp
    · have he : ¬ l.ctl.Ends := by
        intro he
        rw [hs.stop_of_ends he] at hn
        cases hn
      have hd : (l.tick P).ctl.configDone = l.ctl.configDone :=
        hs'.configDone.trans hs.configDone.symm
      rw [hd, Loop.tick, if_neg he]
      exact h
    · have hd : (l.tick P).ctl.configDone = l.ctl.configDone :=
        hs'.configDone.trans hs.configDone.symm
      rw [hd, Loop.tick, if_neg fun he => hp he.2]
      exact h

/-- Where the two can be after a reset. `lost`: the slave was being read and held
SDA low. -/
inductive Link (P : BitVec 8) (lost : Bool) (l : Loop) : Prop
  | inStep (h : InStep P l)
  /-- the slave takes the configuration for data -/
  | taken (hd : l.ctl.configDone = false) {t : Target} {ws : List (BitVec 8)}
      (h : Pending P (some t) ws l)
  /-- it does not listen to the configuration -/
  | muted (hl : lost = true) (hd : l.ctl.configDone = false) {m₀ : Mem} (h : Muted P m₀ l)
  /-- it will miss the START of the first read -/
  | holding (hl : lost = true) (he : l.ended ≤ 1) (hw : Waiting l.ctl)
      (hd : l.ctl.configDone = true) (hm : l.slave.mode.mute = true)
      (hs : l.slave.mode.sda = false)
  | astray (hl : lost = true) (he : l.ended ≤ 1) {s : Slot} (hat : At P false s l.ctl)
      (hm : Astray l.ctl.phase l.slave.mode s)

theorem mute_busy {m : Mode} (hm : m.mute = true) (hs : m.sda = false) : Busy 0 m := by
  cases m <;> simp_all [Mode.mute, Mode.sda, Busy]

/-- After a STOP the slave sees the next START, or it is busy with an old read. -/
theorem Link.after_stop {lost : Bool} (hl : lost = true) (he : l.ended ≤ 1) (hw : Waiting l.ctl)
    (hd : l.ctl.configDone = true) (hm : l.slave.mode.mute = true) : Link P lost l := by
  cases hs : l.slave.mode.sda with
  | true => exact .inStep (.inl ⟨hw, hs⟩)
  | false => exact .holding hl he hw hd hm hs

theorem ended_tick (P : BitVec 8) (l : Loop) :
    (l.tick P).ended = if l.ctl.Ends then l.ended + 1 else l.ended := rfl

theorem Link.tick {lost : Bool} (h : Link P lost l) (hc : Counts l) : Link P lost (l.tick P) := by
  have fresh (hd : l.ctl.configDone = false) : (l.tick P).ended ≤ 1 := by
    have h0 : l.ended = 0 := by
      rw [Counts, hd] at hc
      simpa using hc
    rw [ended_tick, h0]
    split <;> decide
  cases h with
  | inStep h => exact .inStep h.tick
  | taken hd h =>
    cases hd' : (l.tick P).ctl.configDone with
    | false => exact .taken hd' (h.tick hd')
    | true =>
      rcases h with ⟨hw, _, hm, _⟩ | ⟨w, s, rfl, hcw, _, _, hl⟩
      · rcases waiting_tick (P := P) hw hm (fun _ => hd) with ⟨_, h'⟩ | hl
        · rw [hd, hd'] at h'
          cases h'
        · have h' := hl.place.configDone
          rw [hd', hd] at h'
          cases h'
      · by_cases he : l.ctl.Ends
        · obtain ⟨-, hsl, hw, -⟩ := hl.tick_end he
          exact .inStep (.inl ⟨hw, by rw [hsl]; rfl⟩)
        · have h' := (hl.tick he).place.configDone
          rw [hd', hcw] at h'
          cases h'
  | muted hlost hd h =>
    cases hd' : (l.tick P).ctl.configDone with
    | false => exact .muted hlost hd' (h.tick hd')
    | true =>
      have hmute := h.deaf_tick.mute
      obtain ⟨_, ⟨hw, _⟩ | ⟨s, hs, _⟩⟩ := h
      · rcases hw.tick (P := P) (wires l.ctl l.slave).sda with ⟨_, h'⟩ | ⟨_, hat, _⟩
        · exact absurd (hd'.symm.trans (h'.trans hd)) (by decide)
        · have h' := hat.configDone
          rw [hd] at h'
          exact absurd (hd'.symm.trans h') (by decide)
      · rcases hs.step (wires l.ctl l.slave).sda with ⟨he, rfl⟩ | ⟨_, s', _, hs', _⟩ | ⟨_, hs', _⟩
        · exact .after_stop hlost (fresh hd) (hs.tick_stop he.2 _).1 hd' hmute
        · exact absurd (hd'.symm.trans hs'.configDone) (by decide)
        · exact absurd (hd'.symm.trans hs'.configDone) (by decide)
  | holding hlost he hw hd hm hs =>
    have hsl := waiting_slave (P := P) hw
    have hended : (l.tick P).ended = l.ended := if_neg hw.not_ends
    rcases hw.tick (P := P) (wires l.ctl l.slave).sda with ⟨hw', hd'⟩ | ⟨_, hat, hp⟩
    · refine .holding hlost (hended ▸ he) hw' (hd'.trans hd) ?_ ?_ <;> rw [hsl]
      · exact hm
      · exact hs
    · rw [hd] at hat
      refine .astray hlost (hended ▸ he) hat ?_
      rw [hsl]
      exact ⟨mute_busy hm hs, fun _ => hs⟩
  | astray hlost he hat hm =>
    have hear := l.tick_slave P
    rw [Loop.tick, hat.edge] at hear
    rcases hat.step (wires l.ctl l.slave).sda with
      ⟨hends, rfl⟩ | ⟨hp, s', hn, hat', hp'⟩ | ⟨hp, hat', hp'⟩
    · -- after the burst the slave is idle, and STOP leaves it so
      refine .inStep (.inl ⟨(hat.tick_stop hends.2 _).1, ?_⟩)
      rw [hends.2] at hear
      have hidle : l.slave.mode = .idle := hm
      have hsl : (l.tick P).slave = l.slave := hear
      rw [hsl, Meets, hidle]
      rfl
    · have hended : (l.tick P).ended = l.ended := by
        rw [ended_tick, if_neg]
        intro hends
        rw [hat.stop_of_ends hends] at hn
        cases hn
      rw [hp] at hm hear
      refine .astray hlost (hended ▸ he) hat' ?_
      have hlast := hm.last (P := P) hat.allowed hn
      rw [← hear] at hlast
      exact hp' ▸ hlast
    · have hended : (l.tick P).ended = l.ended := if_neg fun hends => hp hends.2
      refine .astray hlost (hended ▸ he) hat' ?_
      have hwithin := hm.within (P := P) hp
      rw [← hear] at hwithin
      exact hp' ▸ hwithin

theorem Link.sense {lost : Bool} (hW : W regPwrMgmt1 = false) (h : Link P lost l) (f : RegFile) :
    Link P lost (l.sense W f) := by
  have hctl := l.sense_ctl W f
  have hmode : (l.sense W f).slave.mode = l.slave.mode := by
    unfold Loop.sense
    split <;> rfl
  have hended : (l.sense W f).ended = l.ended := by
    unfold Loop.sense
    split <;> rfl
  cases h with
  | inStep h => exact .inStep (h.sense f)
  | taken hd h => exact .taken (hctl ▸ hd) (h.sense f)
  | muted hl hd h => exact .muted hl (hctl ▸ hd) (h.sense hW f)
  | holding hl he hw hd hm hs =>
    exact .holding hl (hended ▸ he) (hctl ▸ hw) (hctl ▸ hd) (hmode ▸ hm) (hmode ▸ hs)
  | astray hl he hat hm => exact .astray hl (hended ▸ he) (hctl ▸ hat) (hctl ▸ hmode ▸ hm)

theorem Link.inStep_of_ended {lost : Bool} (h : Link P lost l) (hc : Counts l)
    (he : (if lost then 2 else 1) ≤ l.ended) : InStep P l := by
  have configured : l.ctl.configDone = true := hc.mp (by split at he <;> omega)
  cases h with
  | inStep h => exact h
  | taken hd _ => exact absurd (hd.symm.trans configured) (by decide)
  | muted _ hd _ => exact absurd (hd.symm.trans configured) (by decide)
  | holding hl h1 | astray hl h1 =>
    rw [hl, if_pos rfl] at he
    omega

/-! ## From a reset -/

/-- The slave is being read and holds SDA low. -/
def Lost (s : Slave) : Bool := Reading s.mode && !s.mode.sda

theorem Link.of_reset (l : Loop) : Link P (Lost l.slave) l.reset := by
  have hw : Waiting l.reset.ctl := Waiting.of_reset l.ctl
  cases hsda : l.slave.mode.sda with
  | true => exact .inStep (.inl ⟨hw, (reset_sda l).trans hsda⟩)
  | false =>
    have hslave := reset_slave l hsda
    cases hmode : l.slave.mode with
    | ackWrite t =>
      have hmeets : Meets l.reset.slave (some t) := by rw [Meets, hslave, hmode]
      have hwrites : l.reset.slave.mem.writes = l.slave.mem.writes := by rw [hslave]
      exact .taken rfl (.inl ⟨hw, rfl, hmeets, hwrites⟩)
    | idle | listen t bits | answer a => simp [hmode, Mode.sda] at hsda
    | ackRead | send b k =>
      have hlost : Lost l.slave = true := by rw [Lost, hsda, hmode]; rfl
      have hdeaf : Deaf l.slave.mem l.reset.slave := by
        rw [hslave]
        exact ⟨by rw [hmode]; rfl, rfl, rfl⟩
      refine .muted hlost rfl ⟨hdeaf, .inl ⟨hw, rfl, ?_⟩⟩
      rw [hslave]
      exact hsda

/-- What holds along a run. -/
structure Tracked (P : BitVec 8) (lost : Bool) (l : Loop) : Prop where
  link : Link P lost l
  counts : Counts l
  sequenced : Sequenced P l.ctl
  /-- once a read in step has ended, the outputs are what it found -/
  out : (if lost then 3 else 2) ≤ l.ended → ∃ r ∈ l.shown, l.ctl.out = wordsAt P r

section Tracked
variable {lost : Bool}

theorem Tracked.of_reset (l : Loop) : Tracked P (Lost l.slave) l.reset where
  link := .of_reset l
  counts := by simp [Counts, Loop.reset, Regs.reset]
  sequenced := .inl (Waiting.of_reset l.ctl)
  out := by
    intro h
    have h0 : l.reset.ended = 0 := rfl
    rw [h0] at h
    split at h <;> omega

theorem Tracked.initial (c : Regs) (regs : RegFile) (ptr : BitVec 8) :
    Tracked P false (initial c regs ptr) where
  link := .inStep (.inl ⟨Waiting.of_reset c, rfl⟩)
  counts := by simp [Counts, ClosedLoop.initial, Regs.reset]
  sequenced := .inl (Waiting.of_reset c)
  out := by
    intro h
    have h0 : (ClosedLoop.initial c regs ptr).ended = 0 := rfl
    rw [h0] at h
    cases h

/-- Only a configured controller reads. -/
theorem configDone_of_commits (h : Sequenced P l.ctl) (hcm : l.ctl.Commits) :
    l.ctl.configDone = true := by
  rcases h with hw | ⟨cw, s, hs⟩
  · exact absurd hcm.1 hw.not_ends
  · have hcw := hs.configWrite.symm.trans hcm.2
    rw [hs.configDone, hcw]
    rfl

/-- A read that ends in step. -/
theorem Tracked.commit (h : Tracked P lost l) (he : (if lost then 2 else 1) ≤ l.ended)
    (hends : l.ctl.Ends) : l.ctl.Commits ∧ mapOutputs l.ctl.rx = wordsAt P l.slave.mem.regs := by
  have hin := h.link.inStep_of_ended h.counts he
  have hd : l.ctl.configDone = true := h.counts.mp (by split at he <;> omega)
  have hcm := hin.commits hends hd
  exact ⟨hcm, hin.words hcm⟩

theorem Tracked.tick (h : Tracked P lost l) : Tracked P lost (l.tick P) where
  link := h.link.tick h.counts
  counts := h.counts.tick h.sequenced
  sequenced := h.sequenced.tick _
  out := by
    intro he
    have hout : (l.tick P).ctl.out = _ := tick_out l.ctl (wires l.ctl l.slave).sda P
    rw [ended_tick] at he
    by_cases hends : l.ctl.Ends
    · rw [if_pos hends] at he
      obtain ⟨hcm, hwords⟩ := h.commit (by split at he <;> simp_all) hends
      rw [if_pos hcm, hwords] at hout
      exact ⟨_, by simp [Loop.tick, hcm], hout⟩
    · have hcm : ¬ l.ctl.Commits := fun hcm => hends hcm.1
      rw [if_neg hends] at he
      rw [if_neg hcm] at hout
      obtain ⟨r, hr, hwords⟩ := h.out he
      exact ⟨r, by simpa [Loop.tick, hcm] using hr, hout.trans hwords⟩

theorem Tracked.sense (hW : W regPwrMgmt1 = false) (h : Tracked P lost l) (f : RegFile) :
    Tracked P lost (l.sense W f) := by
  have hctl := l.sense_ctl W f
  have hsame : (l.sense W f).ended = l.ended ∧ (l.sense W f).shown = l.shown := by
    unfold Loop.sense
    split <;> exact ⟨rfl, rfl⟩
  refine ⟨h.link.sense hW f, ?_, hctl ▸ h.sequenced, ?_⟩
  · rw [Counts, hctl, hsame.1]
    exact h.counts
  · rw [hctl, hsame.1, hsame.2]
    exact h.out

theorem Tracked.run (hW : W regPwrMgmt1 = false) (h : Tracked P lost l) (evs : List Move) :
    Tracked P lost (run W P l evs) := by
  induction evs generalizing l with
  | nil => exact h
  | cons e evs ih =>
    cases e with
    | tick => exact ih h.tick
    | sense f => exact ih (h.sense hW f)

end Tracked
end Loop

/-! ## Results -/

/-- A reset at any moment, in any joint state, whatever has happened before: at the
end of the second read after it, and of every later one, the outputs are the
registers of the sensor, and they stay so until the next read ends. If the sensor
was not being read, or was not holding SDA low, this is so from the first read on. -/
theorem outputs_recover (l : Loop) (evs : List Move) :
    let first := if Lost l.slave then 2 else 1
    let l' := run sensorRegs FpgaRtl.regAddrStart l.reset evs
    (first ≤ l'.ended → l'.ctl.Ends → (l'.tick FpgaRtl.regAddrStart).ctl.out =
      wordsAt FpgaRtl.regAddrStart l'.slave.mem.regs) ∧
    (first < l'.ended → ∃ r ∈ l'.shown, l'.ctl.out = wordsAt FpgaRtl.regAddrStart r) := by
  intro first l'
  have h : Tracked FpgaRtl.regAddrStart (Lost l.slave) l' :=
    (Tracked.of_reset l).run (by decide) evs
  refine ⟨?_, ?_⟩
  · intro he hends
    obtain ⟨hcm, hwords⟩ := h.commit he hends
    have hout := tick_out l'.ctl (wires l'.ctl l'.slave).sda FpgaRtl.regAddrStart
    rw [if_pos hcm, hwords] at hout
    exact hout
  · intro he
    exact h.out (by dsimp only [first] at he; split at he <;> simp_all <;> omega)

end IotController.Recovery
