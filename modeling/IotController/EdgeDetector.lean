import Mathlib.Data.Nat.Init
import Mathlib.Tactic.ByContra

/-! # The reset pulses

`ghrd_top` turns edges of `hps_reset_req` into reset requests to the HPS with three
`altera_edge_detector`s. The HPS answers a request by pulling `hps_fpga_reset_n`, the
`rst_n` of the detectors, so a pulse has to outlast the reset that it causes. Inputs
are taken at the clock; between clocks `rst_n` clears only what is clear already. -/
namespace IotController.EdgeDetector

/-! ## altera_edge_detector -/

structure Params where
  pulseExt : ℕ
  /-- `EDGE_TYPE` is not 0 -/
  rising : Bool
  ignoreRstWhileBusy : Bool
deriving DecidableEq

/-- `extend_pulse`, or `pulse_reg` if there is nothing to extend. -/
def Params.width (p : Params) : ℕ := if 1 < p.pulseExt then p.pulseExt else 1

inductive State where
  | idle
  | arm
  | capt
  | unused
deriving DecidableEq

structure Detector (p : Params) where
  state : State
  extendPulse : BitVec p.width

variable {p : Params}

def Detector.pulseOut (d : Detector p) : Bool := d.extendPulse ≠ 0

def Detector.pulseDetect (d : Detector p) : Bool := d.state = .capt

/-- `next_state`; `asserted` is `signal_in == SIGNAL_ASSERT`. -/
def next (asserted : Bool) : State → State
  | .idle => if asserted then .idle else .arm
  | .arm => if asserted then .capt else .arm
  | .capt => if asserted then .idle else .arm
  | .unused => .idle

/-- `reset_qual_n`. -/
def Detector.resetQualN (d : Detector p) (rstN : Bool) : Bool :=
  rstN || (p.ignoreRstWhileBusy && d.pulseOut)

def Detector.clock (d : Detector p) (signalIn rstN : Bool) : Detector p where
  state := if rstN then next (signalIn == p.rising) d.state else .idle
  extendPulse := if d.resetQualN rstN then d.extendPulse.shiftConcat d.pulseDetect else 0

/-- The detector after `n` clocks, from power-up. -/
def clocks (p : Params) (signalIn rstN : ℕ → Bool) : ℕ → Detector p
  | 0 => ⟨.idle, 0⟩
  | n + 1 => (clocks p signalIn rstN n).clock (signalIn n) (rstN n)

/-- The instances in `ghrd_top`. -/
def pulseColdReset : Params := ⟨6, true, true⟩
def pulseWarmReset : Params := ⟨2, true, true⟩
def pulseDebugReset : Params := ⟨32, true, true⟩

/-! ## Edges -/

/-- The input is off in clock `m` and on in the next one, and neither is in reset. -/
def Edge (p : Params) (signalIn rstN : ℕ → Bool) (m : ℕ) : Prop :=
  rstN m = true ∧ signalIn m ≠ p.rising ∧ rstN (m + 1) = true ∧ signalIn (m + 1) = p.rising

section Clocks
variable {signalIn rstN : ℕ → Bool}

theorem next_ne_unused (asserted : Bool) (s : State) : next asserted s ≠ .unused := by
  cases s <;> cases asserted <;> simp [next]

theorem state_ne_unused (n : ℕ) : (clocks p signalIn rstN n).state ≠ .unused := by
  cases n with
  | zero => simp [clocks]
  | succ n =>
    simp only [clocks, Detector.clock]
    split
    · exact next_ne_unused _ _
    · simp

theorem state_succ (n : ℕ) : (clocks p signalIn rstN (n + 1)).state =
    if rstN n then next (signalIn n == p.rising) (clocks p signalIn rstN n).state else .idle := rfl

theorem arm_iff (n : ℕ) : (clocks p signalIn rstN (n + 1)).state = .arm ↔
    rstN n = true ∧ signalIn n ≠ p.rising := by
  have hused : (clocks p signalIn rstN n).state ≠ .unused := state_ne_unused n
  rw [state_succ]
  by_cases hr : rstN n = true <;> by_cases hs : signalIn n = p.rising <;>
    cases h : (clocks p signalIn rstN n).state <;> simp_all [next]

/-- The state behind an edge. -/
theorem capt_iff (n : ℕ) : (clocks p signalIn rstN n).state = .capt ↔
    ∃ m, n = m + 2 ∧ Edge p signalIn rstN m := by
  have capt_succ (n : ℕ) : (clocks p signalIn rstN (n + 1)).state = .capt ↔
      rstN n = true ∧ signalIn n = p.rising ∧ (clocks p signalIn rstN n).state = .arm := by
    rw [state_succ]
    by_cases hr : rstN n = true <;> by_cases hs : signalIn n = p.rising <;>
      cases h : (clocks p signalIn rstN n).state <;> simp_all [next]
  match n with
  | 0 => simp [clocks]
  | 1 =>
    rw [capt_succ]
    simp [clocks]
  | m + 2 =>
    rw [capt_succ, arm_iff]
    constructor
    · intro ⟨h1, h2, h3, h4⟩
      exact ⟨m, rfl, h3, h4, h1, h2⟩
    · intro ⟨m', hm, h3, h4, h1, h2⟩
      obtain rfl : m' = m := by omega
      exact ⟨h1, h2, h3, h4⟩

/-! ## Pulses -/

/-- `extend_pulse` is not cleared in clock `i`. -/
def Kept (p : Params) (signalIn rstN : ℕ → Bool) (i : ℕ) : Prop :=
  (clocks p signalIn rstN i).resetQualN (rstN i) = true

/-- A captured edge travels through `extend_pulse`, unless it is cleared. -/
theorem getLsbD_extendPulse (n k : ℕ) :
    (clocks p signalIn rstN n).extendPulse.getLsbD k = true ↔ k < p.width ∧
      ∃ c, n = c + k + 1 ∧ (clocks p signalIn rstN c).state = .capt ∧
        ∀ i, c ≤ i → i < n → Kept p signalIn rstN i := by
  induction n generalizing k with
  | zero => simp [clocks]
  | succ n ih =>
    by_cases hkept : Kept p signalIn rstN n
    · have hnext : (clocks p signalIn rstN (n + 1)).extendPulse =
          (clocks p signalIn rstN n).extendPulse.shiftConcat
            (clocks p signalIn rstN n).pulseDetect := if_pos hkept
      rw [hnext, BitVec.getLsbD_shiftConcat]
      cases k with
      | zero =>
        simp only [if_true, Bool.and_eq_true, decide_eq_true_eq, Detector.pulseDetect]
        refine and_congr_right fun _ => ?_
        constructor
        · intro hcapt
          refine ⟨n, rfl, hcapt, fun i hi hin => ?_⟩
          obtain rfl : i = n := by omega
          exact hkept
        · intro ⟨c, hc, hcapt, _⟩
          obtain rfl : c = n := by omega
          exact hcapt
      | succ k =>
        simp only [Nat.succ_ne_zero, if_false, Nat.add_sub_cancel, Bool.and_eq_true,
          decide_eq_true_eq, ih]
        refine and_congr_right fun hk => ?_
        constructor
        · intro ⟨_, c, hc, hcapt, hall⟩
          refine ⟨c, by omega, hcapt, fun i hi hin => ?_⟩
          rcases Nat.lt_succ_iff_lt_or_eq.mp hin with hlt | rfl
          · exact hall i hi hlt
          · exact hkept
        · intro ⟨c, hc, hcapt, hall⟩
          exact ⟨by omega, c, by omega, hcapt, fun i hi hin => hall i hi (by omega)⟩
    · have hnext : (clocks p signalIn rstN (n + 1)).extendPulse = 0 := if_neg hkept
      rw [hnext]
      constructor
      · intro h
        simp at h
      · intro ⟨_, c, hc, _, hall⟩
        exact absurd (hall n (by omega) (Nat.lt_succ_self n)) hkept

/-- The output is high from one clock to `width` clocks after a captured edge. -/
theorem pulseOut_iff (n : ℕ) : (clocks p signalIn rstN n).pulseOut = true ↔
    ∃ c, c < n ∧ n ≤ c + p.width ∧ (clocks p signalIn rstN c).state = .capt ∧
      ∀ i, c ≤ i → i < n → Kept p signalIn rstN i := by
  have hbit : (clocks p signalIn rstN n).pulseOut = true ↔
      ∃ k, (clocks p signalIn rstN n).extendPulse.getLsbD k = true := by
    rw [Detector.pulseOut, decide_eq_true_eq]
    constructor
    · intro hne
      by_contra hnone
      refine hne (BitVec.eq_of_getLsbD_eq fun i _ => ?_)
      simpa using fun hi => hnone ⟨i, hi⟩
    · intro ⟨k, hk⟩ hzero
      rw [hzero] at hk
      simp at hk
  rw [hbit]
  constructor
  · intro ⟨k, hk⟩
    obtain ⟨hw, c, hc, hcapt, hall⟩ := (getLsbD_extendPulse n k).mp hk
    exact ⟨c, by omega, by omega, hcapt, hall⟩
  · intro ⟨c, hlt, hle, hcapt, hall⟩
    refine ⟨n - c - 1, (getLsbD_extendPulse n _).mpr ⟨by omega, c, by omega, hcapt, hall⟩⟩

/-- A pulse that has begun keeps itself. -/
theorem kept_of_capt (ignores : p.ignoreRstWhileBusy = true) {c : ℕ}
    (hcapt : (clocks p signalIn rstN c).state = .capt) (hc : Kept p signalIn rstN c) {i : ℕ}
    (hle : c ≤ i) (hlt : i ≤ c + p.width) : Kept p signalIn rstN i := by
  induction i using Nat.strong_induction_on with
  | _ i ih =>
    rcases Nat.eq_or_lt_of_le hle with rfl | hgt
    · exact hc
    · have hpulse : (clocks p signalIn rstN i).pulseOut = true :=
        (pulseOut_iff i).mpr ⟨c, hgt, hlt, hcapt, fun j hj hji => ih j hji hj (by omega)⟩
      simp [Kept, Detector.resetQualN, ignores, hpulse]

end Clocks

/-! ## Results -/

/-- With `IGNORE_RST_WHILE_BUSY` the output is high in exactly the `PULSE_EXT` clocks
behind each edge that is not lost to a reset in the clock after it, whatever `rst_n`
does in the meantime: a pulse is never cut short, and there is none without an edge. -/
theorem reset_pulse_iff (p : Params) (ignores : p.ignoreRstWhileBusy = true)
    (signalIn rstN : ℕ → Bool) (n : ℕ) : (clocks p signalIn rstN n).pulseOut = true ↔
      ∃ m, Edge p signalIn rstN m ∧
        (rstN (m + 2) = true ∨ (clocks p signalIn rstN (m + 2)).pulseOut = true) ∧
        m + 2 < n ∧ n ≤ m + 2 + p.width := by
  have hkept (i : ℕ) : Kept p signalIn rstN i ↔
      rstN i = true ∨ (clocks p signalIn rstN i).pulseOut = true := by
    simp [Kept, Detector.resetQualN, ignores]
  rw [pulseOut_iff]
  constructor
  · intro ⟨c, hlt, hle, hcapt, hall⟩
    obtain ⟨m, rfl, hedge⟩ := (capt_iff c).mp hcapt
    exact ⟨m, hedge, (hkept _).mp (hall _ (Nat.le_refl _) hlt), hlt, hle⟩
  · intro ⟨m, hedge, hstart, hlt, hle⟩
    have hcapt := (capt_iff (m + 2)).mpr ⟨m, rfl, hedge⟩
    refine ⟨m + 2, hlt, hle, hcapt, fun i hi hin => ?_⟩
    exact kept_of_capt ignores hcapt ((hkept _).mpr hstart) hi (by omega)

/-- A cold reset: the request comes in clock 1, `rst_n` falls in clock 4 and stays low,
and the output is still high in clock 8. -/
theorem reset_pulse_iff_coldReset :
    (clocks pulseColdReset (fun n => 1 ≤ n) (fun n => n < 4) 8).pulseOut = true := by
  refine (reset_pulse_iff pulseColdReset rfl _ _ 8).mpr ⟨0, ?_, .inl rfl, by decide, by decide⟩
  exact ⟨rfl, by decide, rfl, rfl⟩

end IotController.EdgeDetector
