import IotController.Binary32

/-! # Rounding to a number of bits

`fl p` rounds to `p` significant bits, ties to even, for results in the normal range.
It is odd and monotone and leaves alone what fits, so a bound that fits in the bits
passes through a rounding. -/
namespace IotController.Rounding
open IotController.Binary32

/-! ## To an integer -/

theorem floor_le_roundHalfEven (x : ℚ) : ⌊x⌋ ≤ roundHalfEven x := by
  unfold roundHalfEven
  dsimp only
  split_ifs <;> omega

theorem roundHalfEven_le_floor (x : ℚ) : roundHalfEven x ≤ ⌊x⌋ + 1 := by
  unfold roundHalfEven
  dsimp only
  split_ifs <;> omega

theorem roundHalfEven_mono {x y : ℚ} (h : x ≤ y) : roundHalfEven x ≤ roundHalfEven y := by
  rcases (Int.floor_le_floor h).lt_or_eq with hlt | heq
  · calc roundHalfEven x ≤ ⌊x⌋ + 1 := roundHalfEven_le_floor x
      _ ≤ ⌊y⌋ := hlt
      _ ≤ roundHalfEven y := floor_le_roundHalfEven y
  · unfold roundHalfEven
    dsimp only
    rw [← heq]
    split_ifs <;> first | omega | linarith

theorem roundHalfEven_neg (x : ℚ) : roundHalfEven (-x) = -roundHalfEven x := by
  rcases eq_or_ne (⌊x⌋ : ℚ) x with hint | hfrac
  · rw [← hint, ← Int.cast_neg, roundHalfEven_intCast, roundHalfEven_intCast]
  · have hlt : (⌊x⌋ : ℚ) < x := lt_of_le_of_ne (Int.floor_le x) hfrac
    have hfloor : ⌊-x⌋ = -⌊x⌋ - 1 := by
      rw [Int.floor_eq_iff]
      have hlt' := Int.lt_floor_add_one x
      push_cast
      constructor <;> linarith
    unfold roundHalfEven
    dsimp only
    rw [hfloor]
    push_cast
    split_ifs <;> first | omega | (exfalso; linarith)

/-! ## To a number of bits -/

/-- The distance between neighbours of the size of `x`. -/
def quantum (p : ℕ) (x : ℚ) : ℚ := 2 ^ (Int.log 2 |x| + 1 - p)

def fl (p : ℕ) (x : ℚ) : ℚ := if x = 0 then 0 else roundHalfEven (x / quantum p x) * quantum p x

theorem f32_eq_fl : f32 = fl 24 := by
  funext x
  have hulp : ulp x = quantum 24 x := by
    rw [ulp, quantum]
    congr 1
    push_cast
    ring
  rw [f32, fl, hulp]

/-- The doubles of C and JavaScript. -/
def f64 : ℚ → ℚ := fl 53

section Bits
variable {p : ℕ}

theorem quantum_pos (p : ℕ) (x : ℚ) : 0 < quantum p x := zpow_pos two_pos _

theorem fl_neg (p : ℕ) (x : ℚ) : fl p (-x) = -fl p x := by
  unfold fl
  have hquantum : quantum p (-x) = quantum p x := by rw [quantum, quantum, abs_neg]
  by_cases h : x = 0
  · rw [if_pos h, if_pos (neg_eq_zero.mpr h), neg_zero]
  · rw [if_neg h, if_neg (neg_ne_zero.mpr h), hquantum, neg_div, roundHalfEven_neg]
    push_cast
    ring

/-- The relative error of one rounding. -/
theorem abs_fl_sub_le (p : ℕ) (x : ℚ) : |fl p x - x| ≤ |x| / 2 ^ p := by
  unfold fl
  split
  · next h => simp [h]
  · next h =>
    have hq := quantum_pos p x
    have hlog := Int.zpow_log_le_self (R := ℚ) (b := 2) (by decide) (abs_pos.mpr h)
    have hsize : quantum p x ≤ 2 * |x| / 2 ^ p := by
      rw [quantum, zpow_sub₀ two_ne_zero, zpow_add_one₀ two_ne_zero, zpow_natCast]
      push_cast at hlog
      exact div_le_div_of_nonneg_right (by linarith) (by positivity)
    have hsplit : roundHalfEven (x / quantum p x) * quantum p x - x =
        (roundHalfEven (x / quantum p x) - x / quantum p x) * quantum p x := by field_simp
    rw [hsplit, abs_mul, abs_of_pos hq]
    calc |(roundHalfEven (x / quantum p x) : ℚ) - x / quantum p x| * quantum p x
        ≤ 1 / 2 * (2 * |x| / 2 ^ p) :=
          mul_le_mul (abs_roundHalfEven_sub _) hsize hq.le (by norm_num)
      _ = |x| / 2 ^ p := by ring

/-- Whatever fits in `p` bits is left alone, at any scale. -/
theorem fl_exact {n : ℤ} (h : |n| < 2 ^ p) (k : ℕ) : fl p (n / 2 ^ k) = n / 2 ^ k := by
  unfold fl
  split
  · next h0 => exact h0.symm
  · next h0 =>
    have hlog : Int.log 2 |(n : ℚ) / 2 ^ k| < p - k := by
      rw [← Int.lt_zpow_iff_log_lt (by decide) (abs_pos.mpr h0), abs_div, Nat.cast_ofNat,
        zpow_sub₀ two_ne_zero, zpow_natCast, zpow_natCast,
        abs_of_pos (by positivity : (0 : ℚ) < 2 ^ k)]
      refine div_lt_div_of_pos_right ?_ (by positivity)
      exact_mod_cast h
    obtain ⟨j, hj⟩ := Int.eq_ofNat_of_zero_le
      (show 0 ≤ p - k - 1 - Int.log 2 |(n : ℚ) / 2 ^ k| by omega)
    have hint : (n : ℚ) / 2 ^ k / quantum p (n / 2 ^ k) = (n * 2 ^ j : ℤ) := by
      have he : Int.log 2 |(n : ℚ) / 2 ^ k| + 1 - p = -(j + k : ℤ) := by omega
      rw [quantum, he]
      push_cast
      rw [zpow_neg, zpow_add₀ two_ne_zero, zpow_natCast, zpow_natCast]
      field_simp
    rw [hint, roundHalfEven_intCast, ← hint]
    exact div_mul_cancel₀ _ (quantum_pos p _).ne'

/-- A positive number does not leave its power of two downwards, and not farther than
to the next one upwards. -/
theorem fl_bounds (hp : 0 < p) {x : ℚ} (h : 0 < x) :
    (2 : ℚ) ^ Int.log 2 x ≤ fl p x ∧ fl p x ≤ 2 ^ (Int.log 2 x + 1) := by
  obtain ⟨m, rfl⟩ := Nat.exists_eq_add_of_lt hp
  have hq := quantum_pos (0 + m + 1) x
  have hlo := Int.zpow_log_le_self (R := ℚ) (b := 2) (by decide) h
  have hhi := Int.lt_zpow_succ_log_self (R := ℚ) (b := 2) (by decide) x
  have hlow : (2 : ℚ) ^ Int.log 2 x = ((2 ^ m : ℤ) : ℚ) * quantum (0 + m + 1) x := by
    rw [quantum, abs_of_pos h]
    push_cast
    rw [← zpow_natCast (2 : ℚ) m, ← zpow_add₀ two_ne_zero]
    congr 1
    ring
  have hhigh : (2 : ℚ) ^ (Int.log 2 x + 1) =
      ((2 ^ (m + 1) : ℤ) : ℚ) * quantum (0 + m + 1) x := by
    rw [zpow_add_one₀ two_ne_zero, hlow]
    push_cast
    ring
  push_cast at hlo hhi
  rw [hlow, ← le_div_iff₀ hq] at hlo
  rw [hhigh, ← div_lt_iff₀ hq] at hhi
  have hlo' := roundHalfEven_mono hlo
  have hhi' := roundHalfEven_mono hhi.le
  rw [roundHalfEven_intCast] at hlo' hhi'
  rw [hlow, hhigh, fl, if_neg h.ne']
  exact ⟨mul_le_mul_of_nonneg_right (by exact_mod_cast hlo') hq.le,
    mul_le_mul_of_nonneg_right (by exact_mod_cast hhi') hq.le⟩

theorem fl_mono_pos (hp : 0 < p) {x y : ℚ} (hx : 0 < x) (h : x ≤ y) : fl p x ≤ fl p y := by
  have hy : 0 < y := hx.trans_le h
  rcases (Int.log_mono_right (b := 2) hx h).lt_or_eq with hlt | heq
  · -- a power of two lies between them
    calc fl p x ≤ 2 ^ (Int.log 2 x + 1) := (fl_bounds hp hx).2
      _ ≤ 2 ^ Int.log 2 y := zpow_le_zpow_right₀ (by norm_num) (by omega)
      _ ≤ fl p y := (fl_bounds hp hy).1
  · have hquantum : quantum p x = quantum p y := by
      rw [quantum, quantum, abs_of_pos hx, abs_of_pos hy, heq]
    have hq := quantum_pos p y
    rw [fl, fl, if_neg hx.ne', if_neg hy.ne', hquantum]
    refine mul_le_mul_of_nonneg_right ?_ hq.le
    exact_mod_cast roundHalfEven_mono (div_le_div_of_nonneg_right h hq.le)

theorem fl_mono (hp : 0 < p) : Monotone (fl p) := by
  have pos {x : ℚ} (h : 0 < x) : 0 < fl p x := (zpow_pos two_pos _).trans_le (fl_bounds hp h).1
  have zero : fl p 0 = 0 := if_pos rfl
  intro x y h
  rcases lt_trichotomy x 0 with hx | rfl | hx
  · have hneg : fl p x = -fl p (-x) := by rw [fl_neg, neg_neg]
    have hx' := pos (neg_pos.mpr hx)
    rcases lt_trichotomy y 0 with hy | rfl | hy
    · have hmono := fl_mono_pos hp (neg_pos.mpr hy) (neg_le_neg h)
      rw [fl_neg p y] at hmono
      linarith
    · linarith
    · linarith [pos hy]
  · rcases h.lt_or_eq with hy | rfl
    · linarith [pos hy]
    · exact le_rfl
  · exact fl_mono_pos hp hx h

/-- A bound that fits stays a bound. -/
theorem fl_le {n : ℤ} {k : ℕ} {x : ℚ} (hp : 0 < p) (hn : |n| < 2 ^ p) (h : x ≤ n / 2 ^ k) :
    fl p x ≤ n / 2 ^ k := by
  have hmono := fl_mono hp h
  rwa [fl_exact hn] at hmono

theorem le_fl {n : ℤ} {k : ℕ} {x : ℚ} (hp : 0 < p) (hn : |n| < 2 ^ p) (h : n / 2 ^ k ≤ x) :
    n / 2 ^ k ≤ fl p x := by
  have hmono := fl_mono hp h
  rwa [fl_exact hn] at hmono

end Bits

end IotController.Rounding
