import Mathlib.Algebra.Order.Interval.Finset.SuccPred
import Mathlib.Data.Nat.Periodic

/-! # The PWM generator

`counter` goes back to 0 from `PERIOD`, not from `PERIOD - 1`, so it runs through
50001 values and a window of 50000 clocks misses one of them: the output is high
for the advertised part of the window exactly if the missed value is one of
those that keep it low. -/
namespace IotController.Pwm

/-! ## The generator -/

def period : BitVec 16 := 50000

structure Regs where
  counter : BitVec 16
  pwmOut : Bool
deriving DecidableEq, Repr

def reset : Regs := ⟨0, false⟩

/-- `(PERIOD * duty_cycle) / 100`. The unsized literal makes it 32 bits wide. -/
def onTime (dutyCycle : BitVec 8) : BitVec 32 :=
  period.setWidth 32 * dutyCycle.setWidth 32 / 100

/-- One clock edge outside reset. -/
def clock (r : Regs) (dutyCycle : BitVec 8) : Regs where
  counter := if period ≤ r.counter then 0 else r.counter + 1
  pwmOut := decide (r.counter.setWidth 32 < onTime dutyCycle)

/-- `n` clocks after a reset, with `duty i` on the port at clock `i`. -/
def clocks (duty : ℕ → BitVec 8) : ℕ → Regs
  | 0 => reset
  | n + 1 => clock (clocks duty n) (duty n)

/-! ## What it computes -/

theorem toNat_onTime (d : BitVec 8) : (onTime d).toNat = 500 * d.toNat := by
  have hd := d.isLt
  have hperiod : period.toNat = 50000 := rfl
  have hhundred : (100 : BitVec 32).toNat = 100 := rfl
  rw [onTime, BitVec.toNat_udiv, BitVec.toNat_mul, BitVec.toNat_setWidth, BitVec.toNat_setWidth,
    hperiod, hhundred]
  omega

section Clocks
variable (duty : ℕ → BitVec 8)

theorem counter_eq (n : ℕ) : (clocks duty n).counter.toNat = n % 50001 := by
  induction n with
  | zero => rfl
  | succ n ih =>
    simp only [clocks, clock]
    split
    · next hle =>
      have hle : 50000 ≤ (clocks duty n).counter.toNat := hle
      have h0 : (0 : BitVec 16).toNat = 0 := rfl
      omega
    · next hlt =>
      have hlt : ¬ 50000 ≤ (clocks duty n).counter.toNat := hlt
      have hsucc : ((clocks duty n).counter + 1).toNat = (clocks duty n).counter.toNat + 1 := by
        bv_omega
      omega

/-- The comparison comes out one clock later. -/
theorem pwmOut_iff (n : ℕ) :
    (clocks duty (n + 1)).pwmOut = true ↔ n % 50001 < 500 * (duty n).toNat := by
  have hlt := (clocks duty n).counter.isLt
  rw [← counter_eq duty n, ← toNat_onTime]
  simp only [clocks, clock, decide_eq_true_eq, BitVec.lt_def, BitVec.toNat_setWidth]
  omega

/-! ## Windows -/

/-- The clocks of the window of 50000 that begins at `s` after which the output is high. -/
def highClocks (s : ℕ) : ℕ :=
  ((Finset.Ico s (s + 50000)).filter fun i => (clocks duty (i + 1)).pwmOut = true).card

end Clocks

/-- A whole round of the counter. -/
theorem card_round (s m : ℕ) (hm : m ≤ 50001) :
    ((Finset.Ico s (s + 50001)).filter fun i => i % 50001 < m).card = m := by
  rw [Nat.filter_Ico_card_eq_of_periodic s 50001 (fun i => i % 50001 < m)
    (fun i => by simp only [Nat.add_mod_right]), Nat.count_eq_card_filter_range]
  have hrange : (Finset.range 50001).filter (fun i => i % 50001 < m) = Finset.range m := by
    ext i
    simp only [Finset.mem_filter, Finset.mem_range]
    omega
  rw [hrange, Finset.card_range]

/-- A window misses the last value of the round. -/
theorem card_window (s m : ℕ) (hm : m ≤ 50001) :
    ((Finset.Ico s (s + 50000)).filter fun i => i % 50001 < m).card +
      (if (s + 50000) % 50001 < m then 1 else 0) = m := by
  have hround := card_round s m hm
  rw [show s + 50001 = s + 50000 + 1 from rfl,
    ← Finset.insert_Ico_right_eq_Ico_add_one (Nat.le_add_right s 50000),
    Finset.filter_insert] at hround
  split at hround
  · next h =>
    rw [Finset.card_insert_of_notMem (by simp)] at hround
    rwa [if_pos h]
  · next h => rwa [if_neg h, Nat.add_zero]

section Held
variable {duty : ℕ → BitVec 8} {s : ℕ} {d : BitVec 8}

theorem highClocks_eq (held : ∀ i, s ≤ i → i < s + 50000 → duty i = d) (hd : d.toNat ≤ 100) :
    highClocks duty s + (if (s + 50000) % 50001 < 500 * d.toNat then 1 else 0) =
      500 * d.toNat := by
  have hsame : highClocks duty s =
      ((Finset.Ico s (s + 50000)).filter fun i => i % 50001 < 500 * d.toNat).card := by
    refine congrArg Finset.card (Finset.filter_congr fun i hi => ?_)
    obtain ⟨hlo, hhi⟩ := Finset.mem_Ico.mp hi
    rw [pwmOut_iff, held i hlo hhi]
  rw [hsame]
  exact card_window s _ (by omega)

/-- The missed value, by what the counter is at the start of the window. -/
theorem missed_iff (hd : d.toNat ≤ 100) : ¬ (s + 50000) % 50001 < 500 * d.toNat ↔
    s % 50001 = 0 ∨ 500 * d.toNat < s % 50001 := by
  omega

/-! ## Results -/

/-- What the comments promise of a window of 50000 clocks (1 kHz at 50 MHz) with
the duty held at `d`. -/
structure Advertised (duty : ℕ → BitVec 8) (s : ℕ) (d : BitVec 8) : Prop where
  high : d.toNat ≤ 100 → highClocks duty s = 500 * d.toNat
  off : d = 0 → ∀ i, s ≤ i → i < s + 50000 → (clocks duty (i + 1)).pwmOut = false
  full : 100 ≤ d.toNat → ∀ i, s ≤ i → i < s + 50000 → (clocks duty (i + 1)).pwmOut = true
  noWrap : (onTime d).toNat = period.toNat * d.toNat / 100

/-- The promise is kept in the windows that begin with the counter, which is
`s % 50001` by `counter_eq`, at 0 or above the part in which the output is high, and for
every duty above 100. -/
theorem advertised_iff (held : ∀ i, s ≤ i → i < s + 50000 → duty i = d) :
    Advertised duty s d ↔
      100 < d.toNat ∨ s % 50001 = 0 ∨ 500 * d.toNat < s % 50001 := by
  have out (i : ℕ) (hlo : s ≤ i) (hhi : i < s + 50000) :
      (clocks duty (i + 1)).pwmOut = true ↔ i % 50001 < 500 * d.toNat := by
    rw [pwmOut_iff, held i hlo hhi]
  constructor
  · intro h
    by_cases hd : d.toNat ≤ 100
    · refine .inr ((missed_iff hd).mp ?_)
      intro hmissed
      have hwindow := highClocks_eq held hd
      rw [if_pos hmissed, h.high hd] at hwindow
      omega
    · exact .inl (by omega)
  · intro h
    refine ⟨?_, ?_, ?_, ?_⟩
    · intro hd
      have hnot := (missed_iff hd).mpr (h.resolve_left (by omega))
      have hwindow := highClocks_eq held hd
      rwa [if_neg hnot] at hwindow
    · rintro rfl i hlo hhi
      rw [Bool.eq_false_iff, Ne, out i hlo hhi]
      exact Nat.not_lt_zero _
    · intro hd i hlo hhi
      rw [out i hlo hhi]
      by_cases h100 : d.toNat ≤ 100
      · have hnot := (missed_iff h100).mpr (h.resolve_left (by omega))
        omega
      · omega
    · have hperiod : period.toNat = 50000 := rfl
      rw [toNat_onTime, hperiod]
      omega

end Held

/-- Half the light, from reset on. -/
theorem advertised_iff_half : Advertised (fun _ => 50) 0 50 :=
  (advertised_iff fun _ _ _ => rfl).mpr (.inr (.inl rfl))

/-- At full duty the output is still low for one clock of the window that begins
one clock later. -/
theorem full_not_high :
    ¬ ∀ (duty : ℕ → BitVec 8) (s : ℕ) (d : BitVec 8),
      (∀ i, s ≤ i → i < s + 50000 → duty i = d) → d.toNat ≤ 100 →
        highClocks duty s = 500 * d.toNat := by
  intro h
  have hhigh := h (fun _ => 100) 1 100 (fun _ _ _ => rfl) (by decide)
  have hwindow := @highClocks_eq (fun _ => 100) 1 100 (fun _ _ _ => rfl) (by decide)
  rw [hhigh] at hwindow
  exact absurd hwindow (by decide)

end IotController.Pwm
