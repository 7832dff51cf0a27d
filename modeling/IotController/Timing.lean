import IotController.Sequencer

/-! # How long everything takes

`Elapsed` places the controller on a clock that counts ticks from reset: one
tick in IDLE, 116 of configuration, 10001 in WAIT_CONFIG, 50001 in IDLE and 624
of read. The tick that ends a read puts the clock back to the IDLE before it, so
the clock says at every time where the controller is. -/
namespace IotController.Timing
open IotController.Controller IotController.I2c IotController.Sequencer

/-! ## Slots by number -/

/-- The number of a slot in its transaction. -/
def index (cw : Bool) : Slot → Nat
  | .start => 0
  | .bit .devAddr k => 8 - k
  | .ack .devAddr => 9
  | .bit .regAddr k => 17 - k
  | .ack .regAddr => 18
  | .bit .regData k => 26 - k
  | .ack .regData => 27
  | .restart => 19
  | .bit .rdDevAddr k => 27 - k
  | .ack .rdDevAddr => 28
  | .recv n k => 36 + 9 * n - k
  | .reply n => 37 + 9 * n
  | .stop => if cw then 28 else 155

section Index
variable {cw : Bool} {s s' : Slot}

theorem index_next (ha : s.allowed cw = true) (hn : s.next cw = some s') :
    index cw s' = index cw s + 1 := by
  cases s with
  | bit f k =>
    cases hn
    by_cases hk : k = 0
    · subst hk
      cases f <;> rfl
    · have := pred_val k hk
      cases f <;> simp only [if_neg hk, index] <;> omega
  | ack f =>
    cases hn
    cases f <;> cases cw <;> first | rfl | exact absurd ha (by decide)
  | recv n k =>
    cases hn
    by_cases hk : k = 0
    · subst hk
      simp only [if_true, index]
      omega
    · have := pred_val k hk
      simp only [if_neg hk, index]
      omega
  | reply n =>
    cases hn
    have hcw : cw = false := by simpa [Slot.allowed] using ha
    subst hcw
    by_cases hn : n = 13
    · subst hn
      rfl
    · have := val_succ n hn
      simp only [if_neg hn, index]
      omega
  | start | restart => cases hn; rfl
  | stop => cases hn

theorem index_config (ha : s.allowed true = true) : index true s ≤ 28 := by
  cases s with
  | bit f k => cases f <;> simp only [index] <;> omega
  | ack f => cases f <;> simp [index]
  | recv n k | reply n | restart => cases ha
  | start | stop => simp [index]

/-- STOP has a number of its own. -/
theorem index_stop (ha : s.allowed cw = true) (h : index cw s = index cw .stop) : s = .stop := by
  cases s with
  | bit f k => cases f <;> cases cw <;> simp only [index] at h <;> simp at h <;> omega
  | ack f =>
    cases f <;> cases cw <;> first | exact absurd h (by decide) | exact absurd ha (by decide)
  | recv n k | reply n =>
    have hcw : cw = false := by simpa [Slot.allowed] using ha
    subst hcw
    simp only [index] at h
    simp at h
    omega
  | start | restart => cases cw <;> exact absurd h (by decide)
  | stop => rfl

theorem index_read (ha : s.allowed false = true) : index false s ≤ 155 := by
  cases s with
  | bit f k => cases f <;> simp only [index] <;> omega
  | ack f => cases f <;> simp [index]
  | recv n k | reply n => simp only [index]; omega
  | start | stop | restart => simp [index]

end Index

/-! ## The clock -/

/-- Where the controller is at time `t`. -/
inductive Elapsed (P : BitVec 8) (c : Regs) (t : Nat) : Prop
  | reset (h : Waiting c) (hd : c.configDone = false) (ht : t = 0)
  | config (s : Slot) (h : At P true s c) (ht : t = 1 + 4 * index true s + c.phase.toNat)
  | waitConfig (h : Waiting c) (hs : c.state = State.waitConfig)
      (hle : c.refreshTimer.toNat ≤ 10000) (ht : t = 117 + c.refreshTimer.toNat)
  | idle (h : Waiting c) (hs : c.state = State.idle) (hd : c.configDone = true)
      (ht : t = 10118 + c.refreshTimer.toNat)
  | read (s : Slot) (h : At P false s c) (ht : t = 60119 + 4 * index false s + c.phase.toNat)

/-- The clock one tick later. -/
def succ (t : Nat) : Nat := if t = 60742 then 10118 else t + 1

section Elapsed
variable {P : BitVec 8} {c : Regs} {t : Nat}

theorem Elapsed.of_reset (c : Regs) : Elapsed P c.reset 0 :=
  .reset (Waiting.of_reset c) rfl rfl

/-- A tick inside a transaction, unless it is the last one. -/
theorem slot_clock {cw : Bool} {s : Slot} (h : At P cw s c) (he : ¬ c.Ends) (x : Bool) :
    ∃ s', At P cw s' (tick P c x) ∧
      4 * index cw s' + (tick P c x).phase.toNat = 4 * index cw s + c.phase.toNat + 1 := by
  rcases h.step x with ⟨he', _⟩ | ⟨hp, s', hn, h', hp'⟩ | ⟨hp, h', hp'⟩
  · exact absurd he' he
  · refine ⟨s', h', ?_⟩
    rw [hp, hp', index_next h.allowed hn]
    rfl
  · refine ⟨s, h', ?_⟩
    have hsucc : ∀ p : BitVec 2, p ≠ 3#2 → (p + 1).toNat = p.toNat + 1 := by decide
    rw [hp', hsucc _ hp, Nat.add_assoc]

/-- The last tick of a transaction is that of STOP. -/
theorem clock_ends {cw : Bool} {s : Slot} (h : At P cw s c) : c.Ends ↔
    4 * index cw s + c.phase.toNat = if cw then 115 else 623 := by
  have hlast : (if cw then 115 else 623) = 4 * index cw .stop + 3 := by cases cw <;> rfl
  have hph := c.phase.isLt
  rw [hlast]
  constructor
  · intro he
    obtain rfl := h.stop_of_ends he
    rw [he.2]
    rfl
  · intro ht
    obtain rfl := index_stop h.allowed (by omega)
    refine ⟨h.state, ?_⟩
    apply BitVec.eq_of_toNat_eq
    have h3 : (3#2).toNat = 3 := rfl
    omega

theorem succ_of_ne (h : t ≠ 60742) : succ t = t + 1 := if_neg h

theorem Elapsed.tick (h : Elapsed P c t) (x : Bool) : Elapsed P (tick P c x) (succ t) := by
  cases h with
  | reset h hd ht =>
    subst ht
    have hs : (Controller.tick P c x).state = State.start := by
      rw [tick_idle (h.idle_of_fresh hd), Regs.idle, if_pos hd]
    rcases h.tick (P := P) x with ⟨h', hd'⟩ | ⟨_, h', hp'⟩
    · rw [h'.idle_of_fresh (hd'.trans hd)] at hs
      exact absurd hs (by decide)
    · rw [hd] at h'
      exact .config _ h' (by rw [hp']; rfl)
  | config s h ht =>
    have hle := index_config h.allowed
    rw [succ_of_ne (by omega)]
    by_cases he : c.Ends
    · have hlast := (clock_ends h).mp he
      obtain rfl := h.stop_of_ends he
      have hwait := (h.tick_stop he.2 x).1
      rw [h.tick_end he.2 x, if_pos rfl] at hwait ⊢
      refine .waitConfig hwait rfl ?_ ?_ <;> simp only [h.timer]
      · decide
      · rw [ht, Nat.add_assoc 1, hlast]
        rfl
    · obtain ⟨s', h', hclock⟩ := slot_clock h he x
      exact .config s' h' (by omega)
  | waitConfig h hs hle ht =>
    rw [succ_of_ne (by omega)]
    have hd : c.configDone = true := by
      cases hd : c.configDone
      · rw [h.idle_of_fresh hd] at hs
        exact absurd hs (by decide)
      · rfl
    have htick := tick_waitConfig (P := P) (x := x) hs
    rcases h.tick (P := P) x with ⟨h', hd'⟩ | ⟨he, _⟩
    · rw [htick, Regs.waitConfig] at h' hd' ⊢
      by_cases hlt : c.refreshTimer < 10000#20
      · rw [if_pos hlt] at h' ⊢
        have hsucc : (c.refreshTimer + 1).toNat = c.refreshTimer.toNat + 1 := by bv_omega
        exact .waitConfig h' hs (by simp only [hsucc]; bv_omega) (by simp only [hsucc]; omega)
      · rw [if_neg hlt] at h' hd' ⊢
        exact .idle h' rfl (hd'.trans hd) (by simp only; bv_omega)
    · rw [hs] at he
      exact absurd he (by decide)
  | idle h hs hd ht =>
    have hle := h.timer
    rw [refreshLimit] at hle
    rw [succ_of_ne (by bv_omega)]
    have htick := tick_idle (P := P) (x := x) hs
    have hd0 : ¬ c.configDone = false := by simp [hd]
    rw [Regs.idle, if_neg hd0] at htick
    have hw := h.tick (P := P) x
    rw [htick] at hw ⊢
    by_cases hlt : c.refreshTimer < refreshLimit
    · rw [if_pos hlt] at hw ⊢
      rcases hw with ⟨h', _⟩ | ⟨_, h', _⟩
      · rw [refreshLimit] at hlt
        exact .idle h' hs hd (by simp only; bv_omega)
      · exact absurd (hs.symm.trans h'.state) (by decide)
    · rw [if_neg hlt] at hw ⊢
      rcases hw with ⟨h', _⟩ | ⟨_, h', hp'⟩
      · exact absurd rfl (@Waiting.state_ne _ h' State.start (by decide) (by decide))
      · have hread : (!c.configDone) = false := by rw [hd]; rfl
        rw [hread] at h'
        rw [refreshLimit] at hlt
        refine .read _ h' ?_
        rw [hp']
        simp only [index]
        bv_omega
  | read s h ht =>
    have hlast := clock_ends h
    by_cases he : c.Ends
    · have hsucc : succ t = 10118 := if_pos (by rw [ht, Nat.add_assoc, hlast.mp he]; rfl)
      obtain rfl := h.stop_of_ends he
      obtain ⟨hwait, hd⟩ := h.tick_stop he.2 x
      rw [h.tick_end he.2 x, if_neg (by decide)] at hwait hd ⊢
      exact .idle hwait rfl hd (by rw [hsucc]; simp only [h.timer]; rfl)
    · obtain ⟨s', h', hclock⟩ := slot_clock h he x
      have hne : 4 * index false s + c.phase.toNat ≠ 623 := mt hlast.mpr he
      rw [succ_of_ne (by omega)]
      exact .read s' h' (by omega)

/-- The read of a round is its last part. -/
theorem Elapsed.reads_or_before (h : Elapsed P c t) :
    (∃ s, At P false s c ∧ t = 60119 + 4 * index false s + c.phase.toNat) ∨ t < 60119 := by
  cases h with
  | reset _ _ ht => right; omega
  | config s h ht =>
    have hindex := index_config h.allowed
    have hph := c.phase.isLt
    right; omega
  | waitConfig _ _ hle ht => right; omega
  | idle h _ _ ht =>
    have htimer := h.timer
    rw [refreshLimit] at htimer
    right; bv_omega
  | read s h ht => exact .inl ⟨s, h, ht⟩

theorem Elapsed.le (h : Elapsed P c t) : t ≤ 60742 := by
  rcases h.reads_or_before with ⟨s, hs, ht⟩ | hlt
  · have hindex := index_read hs.allowed
    have hph := c.phase.isLt
    omega
  · omega

/-- From 60119 on the controller reads. -/
theorem Elapsed.reading (h : Elapsed P c t) (ht : 60119 ≤ t) :
    ∃ s, At P false s c ∧ t = 60119 + 4 * index false s + c.phase.toNat :=
  h.reads_or_before.resolve_right (by omega)

/-- The outputs change at one time only. -/
theorem Elapsed.commits_iff (h : Elapsed P c t) : c.Commits ↔ t = 60742 := by
  constructor
  · rintro ⟨he, hw⟩
    cases h with
    | reset h _ _ | waitConfig h _ _ _ | idle h _ _ _ => exact absurd he h.not_ends
    | config s h _ => exact absurd (h.configWrite.symm.trans hw) (by decide)
    | read s h ht => rw [ht, Nat.add_assoc, (clock_ends h).mp he]; rfl
  · intro ht
    obtain ⟨s, hs, hclock⟩ := h.reading (by omega)
    exact ⟨(clock_ends hs).mpr (by simp only [Bool.false_eq_true, if_false]; omega), hs.configWrite⟩

end Elapsed

end IotController.Timing
