import IotController.Progress

/-! # The clock divider

`clk_count` counts clocks up to `CLK_DIV/4 - 1` and raises `i2c_tick` for one
clock, and the FSM steps in the clocks that find `i2c_tick` high. The parameter
is a number of any size and the counter has nine bits: up to 2051 the controller
is the one of the tick-level model, slowed down by `CLK_DIV/4`; from 2052 on the
count is never reached. -/
namespace IotController.Divider
open IotController.Controller IotController.Sequencer IotController.Progress
open IotController.Samples (blank)

/-! ## The controller, clock by clock -/

structure Clocked where
  clkCount : BitVec 9
  i2cTick : Bool
  fsm : Regs
deriving DecidableEq

def Clocked.reset (k : Clocked) : Clocked := ⟨0, false, k.fsm.reset⟩

/-- `clk_count == (CLK_DIV/4) - 1`, the counter widened to the parameter. -/
def Clocked.Wraps (clkDiv : ℕ) (k : Clocked) : Prop :=
  (k.clkCount.toNat : ℤ) = (clkDiv / 4 : ℕ) - 1

instance (clkDiv : ℕ) (k : Clocked) : Decidable (k.Wraps clkDiv) :=
  inferInstanceAs (Decidable (_ = _))

/-- One clock edge outside reset, with `sda` on the line. -/
def Clocked.clock (regAddrStart : BitVec 8) (clkDiv : ℕ) (k : Clocked) (sda : Bool) : Clocked where
  clkCount := if k.Wraps clkDiv then 0 else k.clkCount + 1
  i2cTick := decide (k.Wraps clkDiv)
  fsm := if k.i2cTick then tick regAddrStart k.fsm sda else k.fsm

/-- `n` clocks after a reset, with `sda i` on the line at clock `i`. -/
def clocks (regAddrStart : BitVec 8) (clkDiv : ℕ) (k : Clocked) (sda : ℕ → Bool) : ℕ → Clocked
  | 0 => k.reset
  | n + 1 => (clocks regAddrStart clkDiv k sda n).clock regAddrStart clkDiv (sda n)

/-- The tick-level controller, `n` ticks after a reset. -/
def ticks (regAddrStart : BitVec 8) (c : Regs) (sda : ℕ → Bool) : ℕ → Regs
  | 0 => c.reset
  | n + 1 => tick regAddrStart (ticks regAddrStart c sda n) (sda n)

/-! ## Ticks on the clock -/

theorem wraps_iff_dvd {n d : ℕ} (hpos : 0 < d) : n % d + 1 = d ↔ d ∣ n + 1 := by
  obtain ⟨e, rfl⟩ : ∃ e, d = e + 1 := ⟨d - 1, by omega⟩
  rw [Nat.dvd_iff_mod_eq_zero, Nat.succ_mod_succ_eq_zero_iff]
  omega

theorem succ_mod {n d : ℕ} (hpos : 0 < d) :
    (n + 1) % d = if d ∣ n + 1 then 0 else n % d + 1 := by
  split
  · next hd => exact Nat.mod_eq_zero_of_dvd hd
  · next hd =>
    have hlt := Nat.mod_lt n hpos
    have hne := mt (wraps_iff_dvd hpos).mp hd
    rw [← Nat.mod_add_mod]
    exact Nat.mod_eq_of_lt (by omega)

section Clocks
variable {P : BitVec 8} {clkDiv d : ℕ} {k : Clocked} {sda : ℕ → Bool}

/-- The counter is the clock modulo `d`, as long as nine bits can count that far. -/
theorem clkCount_eq (hd : clkDiv / 4 = d) (hpos : 0 < d) (hle : d ≤ 512) (n : ℕ) :
    (clocks P clkDiv k sda n).clkCount.toNat = n % d ∧
      ((clocks P clkDiv k sda n).i2cTick = true ↔ 0 < n ∧ d ∣ n) := by
  induction n with
  | zero => simp [clocks, Clocked.reset]
  | succ n ih =>
    have hwraps : (clocks P clkDiv k sda n).Wraps clkDiv ↔ d ∣ n + 1 := by
      rw [Clocked.Wraps, ih.1, hd, ← wraps_iff_dvd hpos]
      omega
    simp only [clocks, Clocked.clock, hwraps, decide_eq_true_eq]
    refine ⟨?_, by simp⟩
    rw [succ_mod hpos]
    split
    · rfl
    · next hdvd =>
      have hlt := Nat.mod_lt n hpos
      have hne := mt (wraps_iff_dvd hpos).mp hdvd
      have hcount := ih.1
      bv_omega

/-- The clock-level controller is the tick-level one, fed with SDA at the ticks. -/
theorem fsm_eq_ticks (hd : clkDiv / 4 = d) (hpos : 0 < d) (hle : d ≤ 512) (n : ℕ) :
    (clocks P clkDiv k sda n).fsm = ticks P k.fsm (fun j => sda ((j + 1) * d)) ((n - 1) / d) := by
  induction n with
  | zero => simp [clocks, Clocked.reset, ticks]
  | succ n ih =>
    have htick : (clocks P clkDiv k sda n).i2cTick = true ↔ 0 < n ∧ d ∣ n :=
      (clkCount_eq hd hpos hle n).2
    simp only [clocks, Clocked.clock, Nat.add_sub_cancel]
    cases n with
    | zero =>
      simp only [clocks, Clocked.reset, Bool.false_eq_true, if_false, Nat.zero_div, ticks]
    | succ m =>
      rw [Nat.add_sub_cancel] at ih
      by_cases hdvd : d ∣ m + 1
      · have hdiv := Nat.succ_div_of_dvd hdvd
        have hmul : (m / d + 1) * d = m + 1 := by rw [← hdiv, Nat.div_mul_cancel hdvd]
        rw [if_pos (htick.mpr ⟨Nat.succ_pos m, hdvd⟩), hdiv, ticks, ih, hmul]
      · have hdiv := Nat.succ_div_of_not_dvd hdvd
        rw [if_neg (mt htick.mp fun h => hdvd h.2), hdiv, ih]

/-- Nine bits never get to 512 or more. -/
theorem never_ticks (hlarge : 512 < clkDiv / 4) (n : ℕ) :
    (clocks P clkDiv k sda n).i2cTick = false ∧ (clocks P clkDiv k sda n).fsm = k.fsm.reset := by
  induction n with
  | zero => simp [clocks, Clocked.reset]
  | succ n ih =>
    have hlt := (clocks P clkDiv k sda n).clkCount.isLt
    have hnot : ¬ (clocks P clkDiv k sda n).Wraps clkDiv := by
      rw [Clocked.Wraps]
      omega
    simp [clocks, Clocked.clock, hnot, ih.1, ih.2]

end Clocks

/-! ## Pulses of SCL, in ticks -/

section Ticks
variable {P : BitVec 8} {c : Regs} {sda : ℕ → Bool} {j : ℕ}

theorem ticks_reached : Reached P (ticks P c sda j) := by
  induction j with
  | zero => exact .reset c
  | succ j ih => exact ih.tick (sda j)

/-- SCL rises in phase 1 of every slot but START. -/
theorem at_of_rise {x : Bool} (h : Sequenced P c) (hlow : c.i2cScl = false)
    (hhigh : (tick P c x).i2cScl = true) :
    ∃ cw s, At P cw s c ∧ c.phase = 1#2 ∧ s ≠ .start := by
  rcases h with hw | ⟨cw, s, hs⟩
  · rw [hw.scl] at hlow
    cases hlow
  · refine ⟨cw, s, hs, ?_⟩
    have hscl := hs.scl
    rw [hlow] at hscl
    rcases hs.step x with ⟨⟨_, hp⟩, rfl⟩ | ⟨hp, s', hn, hs', hp'⟩ | ⟨hp, hs', hp'⟩
    · rw [hp] at hscl
      cases hscl
    · rw [hs'.scl, hp'] at hhigh
      simp [Slot.scl, Slot.next_ne_start hn] at hhigh
    · rw [hs'.scl, hp'] at hhigh
      have low_then_high : ∀ p : BitVec 2, (p == 2 || p == 3) = false →
          (p + 1 == 2 || p + 1 == 3) = true → p = 1#2 := by decide
      by_cases hstart : s = .start
      · rw [hstart, Slot.scl, if_pos rfl] at hscl
        exact absurd (by simpa using hscl.symm) hp
      · rw [Slot.scl, if_neg hstart] at hscl hhigh
        exact ⟨low_then_high c.phase hscl.symm hhigh, hstart⟩

/-- The two ticks after a rise. -/
theorem scl_high {cw : Bool} {s : Slot} (hs : At P cw s (ticks P c sda j))
    (hp : (ticks P c sda j).phase = 1#2) (hstart : s ≠ .start) :
    (ticks P c sda (j + 1)).i2cScl = true ∧ At P cw s (ticks P c sda (j + 2)) ∧
      (ticks P c sda (j + 2)).phase = 3#2 ∧ (ticks P c sda (j + 2)).i2cScl = true := by
  obtain ⟨h1, p1⟩ := hs.tick_within (by rw [hp]; decide) (sda j)
  rw [hp] at p1
  obtain ⟨h2, p2⟩ := h1.tick_within (by rw [p1]; decide) (sda (j + 1))
  rw [p1] at p2
  refine ⟨?_, h2, p2, ?_⟩
  · rw [ticks, h1.scl, p1]
    simp [Slot.scl, hstart]
  · rw [ticks, ticks, h2.scl, p2]
    simp [Slot.scl, hstart]

/-- The slot after a pulse: SCL is low for two ticks and rises again. -/
theorem scl_low {cw : Bool} {s : Slot} (hs : At P cw s (ticks P c sda j))
    (hp : (ticks P c sda j).phase = 3#2) (hstop : s ≠ .stop) :
    (ticks P c sda (j + 1)).i2cScl = false ∧ (ticks P c sda (j + 2)).i2cScl = false ∧
      (ticks P c sda (j + 3)).i2cScl = true := by
  rcases hs.step (sda j) with ⟨_, h⟩ | ⟨_, s', hn, h1, p1⟩ | ⟨hp', _⟩
  · exact absurd h hstop
  · have hstart := Slot.next_ne_start hn
    obtain ⟨h2, p2⟩ := h1.tick_within (by rw [p1]; decide) (sda (j + 1))
    rw [p1] at p2
    obtain ⟨h3, p3⟩ := h2.tick_within (by rw [p2]; decide) (sda (j + 2))
    rw [p2] at p3
    refine ⟨?_, ?_, ?_⟩
    · rw [ticks, h1.scl, p1]
      simp [Slot.scl, hstart]
    · rw [ticks, ticks, h2.scl, p2]
      simp [Slot.scl, hstart]
    · rw [ticks, ticks, ticks, h3.scl, p3]
      simp [Slot.scl, hstart]
  · exact absurd hp hp'

end Ticks

/-! ## Pulses of SCL, in clocks -/

/-- SCL rises in clock `n`. -/
def Rises (f : ℕ → Clocked) (n : ℕ) : Prop :=
  (f n).fsm.i2cScl = false ∧ (f (n + 1)).fsm.i2cScl = true

section Pulses
variable {P : BitVec 8} {clkDiv d : ℕ} {k : Clocked} {sda : ℕ → Bool} {n : ℕ}

/-- The registers `i` clocks after the one of tick `j`. -/
theorem fsm_after (hd : clkDiv / 4 = d) (hpos : 0 < d) (hle : d ≤ 512) (j i : ℕ) (hi : 1 ≤ i) :
    (clocks P clkDiv k sda ((j + 1) * d + i)).fsm =
      ticks P k.fsm (fun j => sda ((j + 1) * d)) (j + 1 + (i - 1) / d) := by
  rw [fsm_eq_ticks hd hpos hle, Nat.add_sub_assoc hi, Nat.add_comm ((j + 1) * d),
    Nat.add_mul_div_right _ _ hpos, Nat.add_comm]

/-- A rise belongs to a tick, in phase 1 of a slot that is not START. -/
theorem tick_of_rise (hd : clkDiv / 4 = d) (hpos : 0 < d) (hle : d ≤ 512)
    (hr : Rises (clocks P clkDiv k sda) n) :
    let t := ticks P k.fsm (fun j => sda ((j + 1) * d))
    ∃ j, n = (j + 1) * d ∧ (clocks P clkDiv k sda n).fsm = t j ∧
      ∃ cw s, At P cw s (t j) ∧ (t j).phase = 1#2 ∧ s ≠ .start := by
  intro t
  obtain ⟨hlow, hhigh⟩ := hr
  have hbefore : (clocks P clkDiv k sda n).fsm = t ((n - 1) / d) :=
    fsm_eq_ticks hd hpos hle n
  have hafter : (clocks P clkDiv k sda (n + 1)).fsm = t (n / d) :=
    fsm_eq_ticks hd hpos hle (n + 1)
  have hne : (n - 1) / d ≠ n / d := by
    intro heq
    rw [hbefore, heq, ← hafter, hhigh] at hlow
    cases hlow
  cases n with
  | zero => exact absurd rfl hne
  | succ m =>
    rw [Nat.add_sub_cancel] at hbefore hne
    have hdvd : d ∣ m + 1 := by
      by_contra hndvd
      exact hne (Nat.succ_div_of_not_dvd hndvd).symm
    have hdiv := Nat.succ_div_of_dvd hdvd
    refine ⟨m / d, by rw [← hdiv, Nat.div_mul_cancel hdvd], hbefore, ?_⟩
    rw [hbefore] at hlow
    rw [hafter, hdiv] at hhigh
    exact at_of_rise ticks_reached.sequenced hlow hhigh

/-- SCL is high for `2 * d` clocks after a rise. -/
theorem scl_after_rise (hd : clkDiv / 4 = d) (hpos : 0 < d) (hle : d ≤ 512)
    (hr : Rises (clocks P clkDiv k sda) n) {i : ℕ} (hi : 1 ≤ i) (hi' : i ≤ 2 * d) :
    (clocks P clkDiv k sda (n + i)).fsm.i2cScl = true := by
  obtain ⟨j, rfl, -, cw, s, hs, hp, hstart⟩ := tick_of_rise hd hpos hle hr
  obtain ⟨h1, -, -, h2⟩ := scl_high hs hp hstart
  rw [fsm_after hd hpos hle j i hi]
  have hq : (i - 1) / d < 2 := (Nat.div_lt_iff_lt_mul hpos).mpr (by omega)
  generalize (i - 1) / d = q at hq ⊢
  obtain rfl | rfl : q = 0 ∨ q = 1 := by omega
  · exact h1
  · exact h2

/-- Then it is low for `2 * d` clocks and rises again, unless this was the STOP. -/
theorem scl_after_pulse (hd : clkDiv / 4 = d) (hpos : 0 < d) (hle : d ≤ 512)
    (hr : Rises (clocks P clkDiv k sda) n)
    (hstop : (clocks P clkDiv k sda n).fsm.state ≠ State.stop) :
    (∀ i, 2 * d < i → i ≤ 4 * d → (clocks P clkDiv k sda (n + i)).fsm.i2cScl = false) ∧
      Rises (clocks P clkDiv k sda) (n + 4 * d) := by
  obtain ⟨j, rfl, hj, cw, s, hs, hp, hstart⟩ := tick_of_rise hd hpos hle hr
  obtain ⟨-, hs2, hp2, -⟩ := scl_high hs hp hstart
  have hne : s ≠ .stop := by
    rintro rfl
    rw [hj] at hstop
    exact hstop hs.state
  obtain ⟨h3, h4, h5⟩ := scl_low hs2 hp2 hne
  have low (i : ℕ) (hi : 2 * d < i) (hi' : i ≤ 4 * d) :
      (clocks P clkDiv k sda ((j + 1) * d + i)).fsm.i2cScl = false := by
    rw [fsm_after hd hpos hle j i (by omega)]
    have hq : (i - 1) / d < 4 := (Nat.div_lt_iff_lt_mul hpos).mpr (by omega)
    have hq' : 2 ≤ (i - 1) / d := (Nat.le_div_iff_mul_le hpos).mpr (by omega)
    generalize (i - 1) / d = q at hq hq' ⊢
    obtain rfl | rfl : q = 2 ∨ q = 3 := by omega
    · exact h3
    · exact h4
  refine ⟨low, low (4 * d) (by omega) (Nat.le_refl _), ?_⟩
  rw [Nat.add_assoc, fsm_after hd hpos hle j (4 * d + 1) (by omega), Nat.add_sub_cancel,
    Nat.mul_div_cancel _ hpos]
  exact h5

/-- The pulse of STOP is the last of its transaction. -/
theorem idling_after_stop (hd : clkDiv / 4 = d) (hpos : 0 < d) (hle : d ≤ 512)
    (hr : Rises (clocks P clkDiv k sda) n)
    (hstop : (clocks P clkDiv k sda n).fsm.state = State.stop) :
    Idling (clocks P clkDiv k sda (n + (2 * d + 1))).fsm := by
  obtain ⟨j, rfl, hj, cw, s, hs, hp, hstart⟩ := tick_of_rise hd hpos hle hr
  obtain ⟨-, hs2, hp2, -⟩ := scl_high hs hp hstart
  rw [hj] at hstop
  obtain rfl := Slot.stop_of_state (hs.state.symm.trans hstop)
  rw [fsm_after hd hpos hle j (2 * d + 1) (by omega), Nat.add_sub_cancel,
    Nat.mul_div_cancel _ hpos]
  exact idling_of_waiting (hs2.tick_stop hp2 _).1

/-- Two rises of one transaction with none in between. -/
theorem next_rise (hd : clkDiv / 4 = d) (hpos : 0 < d) (hle : d ≤ 512) {m : ℕ}
    (hm : Rises (clocks P clkDiv k sda) m) (hn : Rises (clocks P clkDiv k sda) n) (hmn : m < n)
    (hnone : ∀ i, m < i → i < n → ¬ Rises (clocks P clkDiv k sda) i)
    (hbusy : ∀ i, m ≤ i → i ≤ n → ¬ Idling (clocks P clkDiv k sda i).fsm) : n = m + 4 * d := by
  obtain ⟨i, rfl⟩ := Nat.exists_eq_add_of_lt hmn
  have hhigh : ¬ i + 1 ≤ 2 * d := by
    intro hle'
    have hscl := scl_after_rise hd hpos hle hm (Nat.le_add_left 1 i) hle'
    rw [← Nat.add_assoc, hn.1] at hscl
    cases hscl
  by_cases hstop : (clocks P clkDiv k sda m).fsm.state = State.stop
  · exact absurd (idling_after_stop hd hpos hle hm hstop) (hbusy _ (by omega) (by omega))
  · obtain ⟨hlow, hnext⟩ := scl_after_pulse hd hpos hle hm hstop
    by_contra hne
    by_cases hlt : i + 1 < 4 * d
    · -- SCL would still be low one clock after the rise at `n`
      have hscl := hlow (i + 2) (by omega) (by omega)
      have hrise := hn.2
      rw [show m + i + 1 + 1 = m + (i + 2) by omega, hscl] at hrise
      cases hrise
    · exact hnone (m + 4 * d) (by omega) (by omega) hnext

end Pulses

/-! ## Results -/

/-- Up to 2051 the divider is correct: ticks come every `clkDiv / 4` clocks, the
registers change at ticks only and are those of the tick-level controller, and
the pulses of SCL within a transaction come every four ticks and last two. From
2052 on there is no tick at all. -/
theorem divider_correct (P : BitVec 8) (clkDiv : ℕ) (h : 4 ≤ clkDiv) (k : Clocked)
    (sda : ℕ → Bool) :
    let d := clkDiv / 4
    let f := clocks P clkDiv k sda
    (clkDiv < 2052 →
      (∀ n, (f n).i2cTick = true ↔ 0 < n ∧ d ∣ n) ∧
      (∀ n, (f n).fsm = ticks P k.fsm (fun j => sda ((j + 1) * d)) ((n - 1) / d)) ∧
      (∀ m n, Rises f m → Rises f n → m < n → (∀ i, m < i → i < n → ¬ Rises f i) →
        (∀ i, m ≤ i → i ≤ n → ¬ Idling (f i).fsm) → n = m + 4 * d) ∧
      (∀ n, Rises f n → (f n).fsm.state ≠ State.stop → ∀ i, 1 ≤ i → i ≤ 4 * d →
        ((f (n + i)).fsm.i2cScl = true ↔ i ≤ 2 * d))) ∧
    (2052 ≤ clkDiv → ∀ n, (f n).i2cTick = false ∧ (f n).fsm = k.fsm.reset) := by
  intro d f
  refine ⟨?_, fun hlarge n => never_ticks (by omega) n⟩
  intro hsmall
  have hpos : 0 < d := by omega
  have hle : d ≤ 512 := by omega
  refine ⟨fun n => (clkCount_eq rfl hpos hle n).2, fsm_eq_ticks rfl hpos hle, ?_, ?_⟩
  · intro m n hm hn hmn hnone hbusy
    exact next_rise rfl hpos hle hm hn hmn hnone hbusy
  · intro n hr hstop i hi hi'
    constructor
    · intro hscl
      by_contra hgt
      rw [(scl_after_pulse rfl hpos hle hr hstop).1 i (by omega) hi'] at hscl
      cases hscl
    · intro hi2
      exact scl_after_rise rfl hpos hle hr hi hi2

/-- Before the first reset. -/
def powerUp : Clocked := ⟨0, false, blank⟩

/-- The default parameter: the first tick changes the registers in clock 125. -/
theorem divider_correct_default :
    (clocks FpgaRtl.regAddrStart 500 powerUp (fun _ => true) 126).fsm =
      tick FpgaRtl.regAddrStart blank.reset true :=
  ((divider_correct FpgaRtl.regAddrStart 500 (by decide) powerUp fun _ => true).1
    (by decide)).2.1 126

/-- With 2052 for the parameter the controller stays in reset. -/
theorem divider_stuck :
    ¬ ∀ (clkDiv : ℕ) (k : Clocked) (sda : ℕ → Bool), 4 ≤ clkDiv → ∀ n,
      (clocks FpgaRtl.regAddrStart clkDiv k sda n).fsm =
        ticks FpgaRtl.regAddrStart k.fsm (fun j => sda ((j + 1) * (clkDiv / 4)))
          ((n - 1) / (clkDiv / 4)) := by
  intro h
  have hticks := h 2052 powerUp (fun _ => true) (by decide) 514
  rw [(never_ticks (by decide) 514).2] at hticks
  exact absurd (congrArg Regs.state hticks) (by decide)

end IotController.Divider
