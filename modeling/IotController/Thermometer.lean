import IotController.Report
import IotController.Rounding

/-! # The temperature on the page

A word of the sensor goes through four `float` operations, two decimals, a double, a
text with one decimal and a bar with a width and a colour. Each of them is monotone,
so a warmer sensor never looks colder, and the bar has its ends where they belong. -/
namespace IotController.Thermometer
open IotController.Binary32 IotController.NumberText IotController.Rounding
open IotController.Report IotController.Pipeline

/-! ## The script -/

/-- `temp_c`: the double next to the decimal number. -/
def tempVar (p : Page) : Option ℚ := p.tempC.map f64

/-- `temp_c.toFixed(1)`, in tenths; a tie goes away from zero. -/
def toFixed1 (x : ℚ) : ℤ := if x < 0 then -⌊-x * 10 + 1 / 2⌋ else ⌊x * 10 + 1 / 2⌋

/-- `heat`, in percent. -/
def heat (tempC : ℚ) : ℚ :=
  let h := f64 (f64 (tempC / 60) * 100)
  let h := if 100 < h then 100 else h
  if h < 0 then 0 else h

/-- The style of `temp-bar`: its width, and the red and blue of its colour. -/
structure Bar where
  width : ℚ
  red : ℤ
  blue : ℤ

def bar (tempC : ℚ) : Bar where
  width := heat tempC
  red := ⌊f64 (f64 (heat tempC / 100) * 255)⌋
  blue := 255 - ⌊f64 (f64 (heat tempC / 100) * 255)⌋

/-! ## Monotone -/

theorem f64_mono : Monotone f64 := fl_mono (by decide)

theorem f32_mono : Monotone f32 := f32_eq_fl ▸ fl_mono (by decide)

theorem fixed2_eq (x : ℚ) : fixed2 x = roundHalfEven (x * 100) / 100 := by
  rw [fixed2, applySign, cast_hundredths]
  by_cases hx : x < 0
  · rw [if_pos (decide_eq_true hx), abs_of_neg hx, neg_mul, roundHalfEven_neg]
    push_cast
    ring
  · rw [if_neg (by simpa using hx), abs_of_nonneg (not_lt.mp hx)]

theorem fixed2_mono : Monotone fixed2 := by
  intro x y h
  have hround : roundHalfEven (x * 100) ≤ roundHalfEven (y * 100) :=
    roundHalfEven_mono (mul_le_mul_of_nonneg_right h (by norm_num))
  rw [fixed2_eq, fixed2_eq]
  exact div_le_div_of_nonneg_right (by exact_mod_cast hround) (by norm_num)

theorem tempC_mono {t t' : ℤ} (h : t ≤ t') : tempC t ≤ tempC t' := by
  have h' : (t : ℚ) ≤ t' := by exact_mod_cast h
  refine f32_mono (div_le_div_of_nonneg_right (f32_mono ?_) (by norm_num))
  linarith

theorem tempF_mono {t t' : ℤ} (h : t ≤ t') : tempF t ≤ tempF t' := by
  have hnine : f32 (tempC t * 9) ≤ f32 (tempC t' * 9) :=
    f32_mono (mul_le_mul_of_nonneg_right (tempC_mono h) (by norm_num))
  have hfive := f32_mono (div_le_div_of_nonneg_right hnine (by norm_num : (0 : ℚ) ≤ 5))
  refine f32_mono ?_
  linarith

theorem toFixed1_mono {x y : ℚ} (h : x ≤ y) : toFixed1 x ≤ toFixed1 y := by
  unfold toFixed1
  have floor_nonneg {z : ℚ} (hz : 0 ≤ z) : 0 ≤ ⌊z * 10 + 1 / 2⌋ :=
    Int.floor_nonneg.mpr (by linarith)
  split_ifs with hx hy hy
  · exact neg_le_neg (Int.floor_le_floor (by linarith))
  · have h1 := floor_nonneg (neg_nonneg.mpr hx.le)
    have h2 := floor_nonneg (not_lt.mp hy)
    omega
  · exact absurd (h.trans_lt hy) hx
  · exact Int.floor_le_floor (by linarith)

theorem heat_eq (c : ℚ) : heat c = max 0 (min 100 (f64 (f64 (c / 60) * 100))) := by
  unfold heat
  dsimp only
  rw [min_def, max_def]
  split_ifs <;> linarith

theorem heat_mono : Monotone heat := by
  intro c c' h
  rw [heat_eq, heat_eq]
  have hpart : f64 (c / 60) ≤ f64 (c' / 60) :=
    f64_mono (div_le_div_of_nonneg_right h (by norm_num))
  have hall := f64_mono (mul_le_mul_of_nonneg_right hpart (by norm_num : (0 : ℚ) ≤ 100))
  exact max_le_max le_rfl (min_le_min le_rfl hall)

theorem red_mono {c c' : ℚ} (h : c ≤ c') : (bar c).red ≤ (bar c').red := by
  have hpart : f64 (heat c / 100) ≤ f64 (heat c' / 100) :=
    f64_mono (div_le_div_of_nonneg_right (heat_mono h) (by norm_num))
  exact Int.floor_le_floor
    (f64_mono (mul_le_mul_of_nonneg_right hpart (by norm_num : (0 : ℚ) ≤ 255)))

/-! ## The ends of the bar -/

/-- Bounds that fit pass through a rounding to a double. -/
theorem f64_le {x b : ℚ} (n : ℤ) (k : ℕ) (hb : b = n / 2 ^ k) (hn : |n| < 2 ^ 53) (h : x ≤ b) :
    f64 x ≤ b := by
  subst hb
  exact fl_le (by decide) hn h

theorem le_f64 {x b : ℚ} (n : ℤ) (k : ℕ) (hb : b = n / 2 ^ k) (hn : |n| < 2 ^ 53) (h : b ≤ x) :
    b ≤ f64 x := by
  subst hb
  exact le_fl (by decide) hn h

theorem heat_mem (c : ℚ) : 0 ≤ heat c ∧ heat c ≤ 100 := by
  rw [heat_eq]
  exact ⟨le_max_left _ _, max_le (by norm_num) (min_le_left _ _)⟩

theorem red_mem (c : ℚ) : 0 ≤ (bar c).red ∧ (bar c).red ≤ 255 := by
  obtain ⟨h0, h1⟩ := heat_mem c
  have hpart0 : 0 ≤ f64 (heat c / 100) :=
    le_f64 0 0 (by norm_num) (by norm_num) (by linarith)
  have hpart1 : f64 (heat c / 100) ≤ 1 :=
    f64_le 1 0 (by norm_num) (by norm_num) (by linarith)
  have hall0 : 0 ≤ f64 (f64 (heat c / 100) * 255) :=
    le_f64 0 0 (by norm_num) (by norm_num) (by linarith)
  have hall1 : f64 (f64 (heat c / 100) * 255) ≤ 255 :=
    f64_le 255 0 (by norm_num) (by norm_num) (by linarith)
  refine ⟨Int.floor_nonneg.mpr hall0, ?_⟩
  have hfloor : (⌊f64 (f64 (heat c / 100) * 255)⌋ : ℚ) ≤ 255 := (Int.floor_le _).trans hall1
  exact_mod_cast hfloor

/-- `temp_c` for a word of the sensor. -/
def shownC (t : ℤ) : ℚ := f64 (fixed2 (tempC t))

theorem shownC_mono {t t' : ℤ} (h : t ≤ t') : shownC t ≤ shownC t' :=
  f64_mono (fixed2_mono (tempC_mono h))

theorem heat_frozen : heat (shownC (-5072)) = 0 := by
  have hzero : fixed2 (tempC (-5072)) = 0 := by
    rw [tempC_eq (by decide), fixed2_eq]
    norm_num
    exact roundHalfEven_intCast 0
  have hle : f64 (f64 (shownC (-5072) / 60) * 100) ≤ 0 := by
    have h1 : shownC (-5072) ≤ 0 := f64_le 0 0 (by norm_num) (by norm_num) hzero.le
    have h2 : f64 (shownC (-5072) / 60) ≤ 0 := f64_le 0 0 (by norm_num) (by norm_num) (by linarith)
    exact f64_le 0 0 (by norm_num) (by norm_num) (by linarith)
  rw [heat_eq]
  exact max_eq_left ((min_le_right _ _).trans hle)

/-- One word above freezing. -/
theorem heat_thawed : 0 < heat (shownC (-5071)) := by
  have hone : fixed2 (tempC (-5071)) = 1 / 100 := by
    have hround : roundHalfEven ((1 / 128 : ℚ) * 100) = 1 := by decide +kernel
    rw [tempC_eq (by decide), fixed2_eq]
    norm_num at hround ⊢
    rw [hround]
  have h1 : 1 / 128 ≤ shownC (-5071) :=
    le_f64 1 7 (by norm_num) (by norm_num) (by rw [hone]; norm_num)
  have h2 : 1 / 8192 ≤ f64 (shownC (-5071) / 60) :=
    le_f64 1 13 (by norm_num) (by norm_num) (by linarith)
  have h3 : 1 / 128 ≤ f64 (f64 (shownC (-5071) / 60) * 100) :=
    le_f64 1 7 (by norm_num) (by norm_num) (by linarith)
  rw [heat_eq, lt_max_iff, lt_min_iff]
  exact .inr ⟨by norm_num, by linarith⟩

theorem heat_sixty : heat (shownC 2608) = 100 := by
  have hsixty : fixed2 (tempC 2608) = 60 := by
    have hround := roundHalfEven_intCast 6000
    rw [tempC_eq (by decide), fixed2_eq]
    norm_num at hround ⊢
    rw [hround]
    norm_num
  have h1 : 60 ≤ shownC 2608 := le_f64 60 0 (by norm_num) (by norm_num) hsixty.ge
  have h2 : 1 ≤ f64 (shownC 2608 / 60) := le_f64 1 0 (by norm_num) (by norm_num) (by linarith)
  have h3 : 100 ≤ f64 (f64 (shownC 2608 / 60) * 100) :=
    le_f64 100 0 (by norm_num) (by norm_num) (by linarith)
  rw [heat_eq, min_eq_left h3]
  norm_num

/-- One word below sixty degrees. -/
theorem heat_below_sixty : heat (shownC 2607) < 100 := by
  have hless : fixed2 (tempC 2607) = 5999 / 100 := by
    have hround : roundHalfEven ((7679 / 128 : ℚ) * 100) = 5999 := by decide +kernel
    rw [tempC_eq (by decide), fixed2_eq]
    norm_num at hround ⊢
    rw [hround]
    norm_num
  have h1 : shownC 2607 ≤ 7679 / 128 :=
    f64_le 7679 7 (by norm_num) (by norm_num) (by rw [hless]; norm_num)
  have h2 : f64 (shownC 2607 / 60) ≤ 8191 / 8192 :=
    f64_le 8191 13 (by norm_num) (by norm_num) (by linarith)
  have h3 : f64 (f64 (shownC 2607 / 60) * 100) ≤ 12799 / 128 :=
    f64_le 12799 7 (by norm_num) (by norm_num) (by linarith)
  rw [heat_eq, max_lt_iff, min_lt_iff]
  exact ⟨by norm_num, .inr (by linarith)⟩

theorem heat_eq_zero_iff (t : ℤ) : heat (shownC t) = 0 ↔ t ≤ -5072 := by
  constructor
  · intro h
    by_contra hgt
    have hmono := heat_mono (shownC_mono (show -5071 ≤ t by omega))
    linarith [heat_thawed]
  · intro h
    have hmono := heat_mono (shownC_mono h)
    linarith [heat_frozen, (heat_mem (shownC t)).1]

theorem heat_eq_hundred_iff (t : ℤ) : heat (shownC t) = 100 ↔ 2608 ≤ t := by
  constructor
  · intro h
    by_contra hlt
    have hmono := heat_mono (shownC_mono (show t ≤ 2607 by omega))
    linarith [heat_below_sixty]
  · intro h
    have hmono := heat_mono (shownC_mono h)
    linarith [heat_sixty, (heat_mem (shownC t)).2]

/-! ## Accuracy -/

theorem abs_toFixed1_sub_le (x : ℚ) : |(toFixed1 x : ℚ) / 10 - x| ≤ 1 / 20 := by
  have round {z : ℚ} : |(⌊z * 10 + 1 / 2⌋ : ℚ) / 10 - z| ≤ 1 / 20 := by
    have h0 := Int.floor_le (z * 10 + 1 / 2)
    have h1 := Int.lt_floor_add_one (z * 10 + 1 / 2)
    rw [abs_le]
    constructor <;> linarith
  unfold toFixed1
  split
  · have h := round (z := -x)
    rw [← abs_neg] at h
    convert h using 2
    push_cast
    ring
  · exact round

theorem tempF_error {t : ℤ} (h : |t| ≤ 32768) :
    |tempF t - (9 / 5 * (((t : ℚ) + 5072) / 128) + 32)| ≤ 1 / 10000 := by
  have hnine : f32 (tempC t * 9) = tempC t * 9 := by
    have hn : |(t + 5072) * 9| < 2 ^ 24 := by
      rw [abs_le] at h
      rw [abs_lt]
      omega
    have hexact := f32_exact ((t + 5072) * 9) 7 hn
    rw [tempC_eq h, div_mul_eq_mul_div]
    push_cast at hexact
    norm_num at hexact ⊢
    exact hexact
  have hc := abs_tempC_le h
  have hfive := abs_f32_sub_le (tempC t * 9 / 5)
  have hsum := abs_f32_sub_le (f32 (tempC t * 9 / 5) + 32)
  have hsize : |tempC t * 9 / 5| ≤ 540 := by
    rw [abs_le] at hc ⊢
    constructor <;> linarith
  have hsize' : |f32 (tempC t * 9 / 5) + 32| ≤ 573 := by
    have hrange := abs_le.mp hsize
    rw [abs_le] at hfive ⊢
    constructor <;> linarith
  rw [tempF, hnine, ← tempC_eq h]
  rw [abs_le] at hfive hsum ⊢
  constructor <;> linarith

/-! ## Results -/

theorem tempVar_csv (g : Channel → BitVec 16) :
    tempVar (fetchData (csv g)) = some (shownC (g .temp).toInt) := by
  rw [fetchData_csv]
  rfl

theorem fahrenheit_csv (g : Channel → BitVec 16) :
    ((csv g).splitOn ',')[7]?.bind parseFloat = some (fixed2 (tempF (g .temp).toInt)) := by
  rw [splitOn_csv]
  simp only [fields, List.getElem?_cons_succ, List.getElem?_cons_zero, Option.bind_some,
    parseFloat_printFixed2]

/-- For every word: the text on the page is within 0.056 degrees of the temperature and
the Fahrenheit field of the line within 0.0052; the bar is no wider than its frame and
its colour is one, and it is empty exactly up to 0 °C and full exactly from 60 °C on. -/
theorem thermometer_accurate (g : Channel → BitVec 16) :
    ∃ c f, tempVar (fetchData (csv g)) = some c ∧
      ((csv g).splitOn ',')[7]?.bind parseFloat = some f ∧
      |(toFixed1 c : ℚ) / 10 - (((g .temp).toInt : ℚ) + 5072) / 128| ≤ 0.056 ∧
      |f - (9 / 5 * ((((g .temp).toInt : ℚ) + 5072) / 128) + 32)| ≤ 0.0052 ∧
      (0 ≤ (bar c).width ∧ (bar c).width ≤ 100) ∧
      (0 ≤ (bar c).red ∧ (bar c).red ≤ 255) ∧ (bar c).red + (bar c).blue = 255 ∧
      ((bar c).width = 0 ↔ (((g .temp).toInt : ℚ) + 5072) / 128 ≤ 0) ∧
      ((bar c).width = 100 ↔ 60 ≤ (((g .temp).toInt : ℚ) + 5072) / 128) := by
  have ht := abs_toInt_le (g .temp)
  generalize htemp : (g .temp).toInt = t at *
  refine ⟨shownC t, fixed2 (tempF t), htemp ▸ tempVar_csv g, htemp ▸ fahrenheit_csv g, ?_, ?_,
    heat_mem _, red_mem _, add_sub_cancel _ _, ?_, ?_⟩
  · have htext := abs_toFixed1_sub_le (shownC t)
    have hdouble := abs_fl_sub_le 53 (fixed2 (tempC t))
    have hfixed := abs_fixed2_sub_le (tempC t)
    have hsize : |fixed2 (tempC t)| ≤ 301 := by
      have hc := abs_tempC_le ht
      rw [abs_le] at hc hfixed ⊢
      constructor <;> linarith
    have hshown : shownC t = fl 53 (fixed2 (tempC t)) := rfl
    rw [hshown] at htext ⊢
    rw [tempC_eq ht] at hfixed hdouble hsize htext ⊢
    rw [abs_le] at htext hfixed hdouble ⊢
    constructor <;> linarith
  · have hfixed := abs_fixed2_sub_le (tempF t)
    have hfloat := tempF_error ht
    rw [abs_le] at hfixed hfloat ⊢
    constructor <;> linarith
  · rw [div_le_iff₀ (by norm_num), zero_mul]
    refine (heat_eq_zero_iff t).trans ?_
    constructor
    · intro h
      have h' : (t : ℚ) ≤ -5072 := by exact_mod_cast h
      linarith
    · intro h
      have h' : (t : ℚ) ≤ (-5072 : ℤ) := by push_cast; linarith
      exact_mod_cast h'
  · rw [le_div_iff₀ (by norm_num)]
    refine (heat_eq_hundred_iff t).trans ?_
    constructor
    · intro h
      have h' : (2608 : ℚ) ≤ t := by exact_mod_cast h
      linarith
    · intro h
      have h' : ((2608 : ℤ) : ℚ) ≤ t := by push_cast; linarith
      exact_mod_cast h'

/-- Whatever the other channels have: a word that is no less never gives a lower text,
a lower Fahrenheit field, a shorter bar, less red or more blue. -/
theorem thermometer_monotone {g g' : Channel → BitVec 16}
    (warmer : (g .temp).toInt ≤ (g' .temp).toInt) :
    ∃ c c' f f', tempVar (fetchData (csv g)) = some c ∧ tempVar (fetchData (csv g')) = some c' ∧
      ((csv g).splitOn ',')[7]?.bind parseFloat = some f ∧
      ((csv g').splitOn ',')[7]?.bind parseFloat = some f' ∧
      toFixed1 c ≤ toFixed1 c' ∧ f ≤ f' ∧ (bar c).width ≤ (bar c').width ∧
      (bar c).red ≤ (bar c').red ∧ (bar c').blue ≤ (bar c).blue := by
  have hc := shownC_mono warmer
  exact ⟨_, _, _, _, tempVar_csv g, tempVar_csv g', fahrenheit_csv g, fahrenheit_csv g',
    toFixed1_mono hc, fixed2_mono (tempF_mono warmer), heat_mono hc, red_mono hc,
    sub_le_sub_left (red_mono hc) 255⟩

/-- Freezing and sixty degrees. -/
theorem thermometer_monotone_range :
    ∃ c c' f f', tempVar (fetchData (csv fun _ => -5072)) = some c ∧
      tempVar (fetchData (csv fun _ => 2608)) = some c' ∧
      ((csv fun _ => -5072).splitOn ',')[7]?.bind parseFloat = some f ∧
      ((csv fun _ => 2608).splitOn ',')[7]?.bind parseFloat = some f' ∧
      toFixed1 c ≤ toFixed1 c' ∧ f ≤ f' ∧ (bar c).width ≤ (bar c').width ∧
      (bar c).red ≤ (bar c').red ∧ (bar c').blue ≤ (bar c).blue :=
  thermometer_monotone (by decide)

end IotController.Thermometer
