import IotController.Limits
import IotController.Timing

/-! # Every transaction ends

`ticksLeft` counts the ticks to the end of a transaction from the registers
alone: the state, where ACK_CHECK continues, the kind of transaction, the phase
and the two counters. It is what the clock of a run has left, so SDA has no part
in it, and two commits are a whole round of the clock apart. -/
namespace IotController.Progress
open IotController.Controller IotController.Sequencer IotController.Timing
open IotController.Samples (blank)

/-! ## The measure -/

/-- The slots from the entry of a state to the end of the transaction. -/
def slotsFrom (configWrite : Bool) (state : BitVec 5) : Nat :=
  if state = State.start then if configWrite then 29 else 156
  else if state = State.wrDevAddr then if configWrite then 28 else 155
  else if state = State.wrRegAddr then if configWrite then 19 else 146
  else if state = State.wrRegData then 10
  else if state = State.restart then 137
  else if state = State.rdDevAddr then 136
  else if state = State.readData then 127
  else if state = State.stop then 1
  else 0

/-- The slots left, the one under way included. -/
def slotsLeft (state savedState : BitVec 5) (configWrite : Bool) (bitCnt byteCnt : BitVec 4) :
    Nat :=
  if state = State.ackCheck then 1 + slotsFrom configWrite savedState
  else if state = State.readData then 120 + bitCnt.toNat - 9 * byteCnt.toNat
  else if state = State.ackSend then 119 - 9 * byteCnt.toNat
  else if state = State.start ∨ state = State.restart ∨ state = State.stop then
    slotsFrom configWrite state
  else slotsFrom configWrite state - (7 - bitCnt.toNat)

def ticksLeft (state savedState : BitVec 5) (configWrite : Bool) (phase : BitVec 2)
    (bitCnt byteCnt : BitVec 4) : Nat :=
  4 * slotsLeft state savedState configWrite bitCnt byteCnt - phase.toNat

def left (c : Regs) : Nat :=
  ticksLeft c.state c.savedState c.configWrite c.phase c.bitCnt c.byteCnt

/-- The ticks of a configuration and of a read. -/
def total (configWrite : Bool) : Nat := if configWrite then 116 else 624

def Idling (c : Regs) : Prop := c.state = State.idle ∨ c.state = State.waitConfig

instance (c : Regs) : Decidable (Idling c) := inferInstanceAs (Decidable (_ ∨ _))

/-! ## The measure on the clock -/

section Measure
variable {P : BitVec 8} {cw : Bool} {s : Slot} {c : Regs}

theorem slotsLeft_at (h : At P cw s c) :
    4 * slotsLeft c.state c.savedState c.configWrite c.bitCnt c.byteCnt + 4 * index cw s =
      total cw := by
  rw [h.state, h.configWrite]
  have ha := h.allowed
  cases s with
  | bit f k =>
    have hk : c.bitCnt = BitVec.ofNat 4 k := h.counters
    rw [hk]
    revert ha
    cases f <;> cases cw <;> simp [slotsLeft, slotsFrom, Slot.state, Frame.state, index, total,
      Slot.allowed] <;> omega
  | ack f =>
    have hsaved : c.savedState = f.saved cw := h.counters
    rw [hsaved]
    cases f <;> cases cw <;> first | exact absurd ha (by decide) | rfl
  | recv n k =>
    obtain ⟨hk, hn⟩ : c.bitCnt = BitVec.ofNat 4 k ∧ c.byteCnt = BitVec.ofNat 4 n := h.counters
    have hcw : cw = false := by simpa [Slot.allowed] using ha
    rw [hk, hn, hcw]
    simp [slotsLeft, Slot.state, index, total]
    omega
  | reply n =>
    have hn : c.byteCnt = BitVec.ofNat 4 n := h.counters
    have hcw : cw = false := by simpa [Slot.allowed] using ha
    rw [hn, hcw]
    simp [slotsLeft, Slot.state, index, total]
    omega
  | restart =>
    have hcw : cw = false := by simpa [Slot.allowed] using ha
    rw [hcw]
    rfl
  | start | stop => cases cw <;> rfl

/-- What is left of a transaction and what has passed of it. -/
theorem left_at (h : At P cw s c) :
    left c + (4 * index cw s + c.phase.toNat) = total cw ∧ 0 < left c := by
  have hslots := slotsLeft_at h
  have hph := c.phase.isLt
  have hindex : 4 * index cw s + 4 ≤ total cw := by
    cases hcw : cw
    · have := index_read (hcw ▸ h.allowed)
      simp only [total]
      simp
      omega
    · have := index_config (hcw ▸ h.allowed)
      simp only [total]
      simp
      omega
  rw [left, ticksLeft]
  omega

theorem left_of_idling (h : Idling c) : left c = 0 := by
  rcases h with h | h <;> simp [left, ticksLeft, slotsLeft, slotsFrom, h]

theorem idling_of_waiting (h : Waiting c) : Idling c := by
  rcases h.state with hs | ⟨hs, _⟩
  · exact .inl hs
  · exact .inr hs

theorem not_idling_at (h : At P cw s c) : ¬ Idling c := by
  rintro (hs | hs)
  · exact Slot.state_ne_idle s (h.state.symm.trans hs)
  · exact Slot.state_ne_waitConfig s (h.state.symm.trans hs)

theorem left_eq_zero_iff (h : Sequenced P c) : left c = 0 ↔ Idling c := by
  refine ⟨?_, left_of_idling⟩
  intro h0
  rcases h with hw | ⟨cw, s, hs⟩
  · exact idling_of_waiting hw
  · have := (left_at hs).2
    omega

/-- One tick of a transaction, whatever SDA carries. -/
theorem left_tick (h : Sequenced P c) (hi : ¬ Idling c) (x : Bool) :
    left (tick P c x) + 1 = left c := by
  rcases h with hw | ⟨cw, s, hs⟩
  · exact absurd (idling_of_waiting hw) hi
  · have hleft := (left_at hs).1
    by_cases he : c.Ends
    · have hlast := (clock_ends hs).mp he
      obtain rfl := hs.stop_of_ends he
      rw [left_of_idling (idling_of_waiting (hs.tick_stop he.2 x).1)]
      cases cw <;> simp only [total] at hleft <;> simp at hleft hlast <;> omega
    · obtain ⟨s', hs', hclock⟩ := slot_clock hs he x
      have hleft' := (left_at hs').1
      omega

theorem left_run (h : Sequenced P c) (xs : List Bool) (hle : xs.length ≤ left c) :
    left (xs.foldl (tick P) c) + xs.length = left c := by
  induction xs generalizing c with
  | nil => rfl
  | cons x xs ih =>
    have hi : ¬ Idling c := by
      intro hi
      rw [left_of_idling hi] at hle
      simp at hle
    have htick := left_tick h hi x
    rw [List.length_cons] at hle ⊢
    have hrun := ih (h.tick x) (by omega)
    rw [List.foldl_cons]
    omega

/-- The tick that enters START. -/
theorem left_start (h : Sequenced P c) (hi : Idling c) (x : Bool)
    (hs : (tick P c x).state = State.start) :
    left (tick P c x) = total (tick P c x).configWrite := by
  rcases h with hw | ⟨cw, s, hat⟩
  · rcases hw.tick (P := P) x with ⟨hw', _⟩ | ⟨_, hat, hph⟩
    · exact absurd hs (hw'.state_ne (by decide) (by decide))
    · have hleft := (left_at hat).1
      rw [hph] at hleft
      rw [hat.configWrite]
      exact hleft
  · exact absurd hi (not_idling_at hat)

end Measure

/-! ## Rounds of the clock -/

/-- The clock `n` ticks after a commit. -/
def clockAfter (n : Nat) : Nat := 10118 + (n + 50624) % 50625

theorem clockAfter_succ (n : Nat) : succ (clockAfter n) = clockAfter (n + 1) := by
  unfold succ clockAfter
  split <;> omega

theorem clockAfter_eq_iff (n : Nat) : clockAfter n = 60742 ↔ 50625 ∣ n := by
  unfold clockAfter
  omega

theorem elapsed_of_reached {P : BitVec 8} {c : Regs} (h : Reached P c) : ∃ t, Elapsed P c t := by
  induction h with
  | reset c => exact ⟨0, Elapsed.of_reset c⟩
  | tick _ x ih =>
    obtain ⟨t, ht⟩ := ih
    exact ⟨succ t, ht.tick x⟩

theorem elapsed_run {P : BitVec 8} {c : Regs} {n : Nat} (h : Elapsed P c (clockAfter n))
    (xs : List Bool) : Elapsed P (xs.foldl (tick P) c) (clockAfter (n + xs.length)) := by
  induction xs generalizing c n with
  | nil => exact h
  | cons x xs ih =>
    have hnext := h.tick x
    rw [clockAfter_succ] at hnext
    have hrun := ih hnext
    rwa [List.length_cons, Nat.add_comm xs.length 1, ← Nat.add_assoc]

/-- The outputs change every 50625 ticks, from one commit on. -/
theorem commits_run_iff {P : BitVec 8} {c : Regs} (h : Reached P c) (hc : c.Commits)
    (xs : List Bool) : (xs.foldl (tick P) c).Commits ↔ 50625 ∣ xs.length := by
  obtain ⟨t, ht⟩ := elapsed_of_reached h
  have ht0 : t = clockAfter 0 := ht.commits_iff.mp hc
  have hrun := elapsed_run (ht0 ▸ ht) xs
  rw [hrun.commits_iff, Nat.zero_add, clockAfter_eq_iff]

/-! ## Results -/

/-- `left` goes down by one in every tick of a transaction, from 116 or 624 when
START is entered to 0 in IDLE or WAIT_CONFIG. So a transaction takes that many
ticks whatever the bus does, and commits come 50625 ticks apart. -/
theorem transaction_ends {P : BitVec 8} {c : Regs} (h : Reached P c) :
    (¬ Idling c → ∀ x, left (tick P c x) + 1 = left c) ∧
    (left c = 0 ↔ Idling c) ∧
    (Idling c → ∀ x, (tick P c x).state = State.start →
      left (tick P c x) = if (tick P c x).configWrite then 116 else 624) ∧
    (∀ xs : List Bool, xs.length ≤ left c →
      (Idling (xs.foldl (tick P) c) ↔ xs.length = left c)) ∧
    (c.Commits → ∀ xs : List Bool, (xs.foldl (tick P) c).Commits ↔ 50625 ∣ xs.length) := by
  have hseq := h.sequenced
  refine ⟨left_tick hseq, left_eq_zero_iff hseq, left_start hseq, ?_, commits_run_iff h⟩
  intro xs hle
  have hrun := left_run hseq xs hle
  rw [← left_eq_zero_iff (hseq.run xs)]
  omega

/-- No sensor on the bus: the first configuration is over after 116 ticks. -/
theorem transaction_ends_noSensor :
    let c := tick FpgaRtl.regAddrStart blank.reset true
    left c = 116 ∧ Idling ((List.replicate 116 true).foldl (tick FpgaRtl.regAddrStart) c) := by
  intro c
  have hleft : left c = 116 := by decide +kernel
  have hlen : (List.replicate 116 true).length = left c := by rw [hleft, List.length_replicate]
  obtain ⟨_, _, _, hends, _⟩ :=
    transaction_ends (P := FpgaRtl.regAddrStart) (Reached.tick (.reset blank) true)
  exact ⟨hleft, (hends _ (Nat.le_of_eq hlen)).mpr hlen⟩

end IotController.Progress
