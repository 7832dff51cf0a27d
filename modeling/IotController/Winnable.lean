import IotController.Browser
import IotController.Machine
import Mathlib.Analysis.Real.Pi.Bounds
import Mathlib.Analysis.SpecialFunctions.Trigonometric.Inverse

/-! # The game can be won

A frame turns the ball to any heading but for 1/5000, and sets its speed to what the
gas reaches but for 1/2000. So the ball can be slowed down wherever it is, taken from
cell to cell along the shortest way to the goal, and over the outer wall back into the
maze: as long as the page asks for frames its game can be won. -/
namespace IotController.Winnable
open IotController.Game
open IotController.Machine (Reaches)
open IotController.Pipeline (Channel)
open IotController.Response (getData)
open IotController.CString (cstr)

/-! ## What one frame can be told -/

/-- A word for a number outside the dead band. -/
theorem deadband_ofInt {n : ℤ} (hlo : 100 ≤ |n|) (hhi : |n| ≤ 32767) :
    (deadband (BitVec.ofInt 16 n) : ℝ) = n := by
  rw [abs_le] at hhi
  exact deadband_eq (BitVec.toInt_ofInt_eq_self (by decide) (by omega) (by omega)) hlo

/-- Every unit vector is a heading. -/
theorem exists_heading {a b : ℝ} (h : a ^ 2 + b ^ 2 = 1) :
    ∃ θ, Real.cos θ = a ∧ Real.sin θ = b := by
  have hcos : Real.cos (Real.arccos a) = a := Real.cos_arccos (by nlinarith) (by nlinarith)
  have hsin : Real.sin (Real.arccos a) = |b| := by
    rw [Real.sin_arccos, show 1 - a ^ 2 = b ^ 2 by linarith, Real.sqrt_sq_eq_abs]
  rcases le_total 0 b with hb | hb
  · exact ⟨Real.arccos a, hcos, by rw [hsin, abs_of_nonneg hb]⟩
  · refine ⟨-Real.arccos a, by rw [Real.cos_neg, hcos], ?_⟩
    rw [Real.sin_neg, hsin, abs_of_nonpos hb, neg_neg]

/-- One frame turns from any angle to any heading, but for 1/5000. -/
theorem exists_steer (angle : ℝ) {a b : ℝ} (h : a ^ 2 + b ^ 2 = 1) :
    ∃ gz : BitVec 16, |Real.cos (angle + deadband gz / 5000) - a| ≤ 1 / 5000 ∧
      |Real.sin (angle + deadband gz / 5000) - b| ≤ 1 / 5000 := by
  obtain ⟨θ, rfl, rfl⟩ := exists_heading h
  -- a turn of at least a tenth and at most a tenth more than a whole one
  have hpi := Real.pi_lt_d2
  have hpos := Real.pi_pos
  obtain ⟨k, t, ht, hlo, hhi⟩ : ∃ (k : ℤ) (t : ℝ), θ - k * (2 * Real.pi) = angle + t ∧
      0.1 ≤ t ∧ t < 0.1 + 2 * Real.pi := by
    refine ⟨⌊(θ - angle - 0.1) / (2 * Real.pi)⌋,
      θ - angle - ⌊(θ - angle - 0.1) / (2 * Real.pi)⌋ * (2 * Real.pi), by ring, ?_, ?_⟩
    · have hfloor := Int.floor_le ((θ - angle - 0.1) / (2 * Real.pi))
      rw [le_div_iff₀ (by positivity)] at hfloor
      linarith
    · have hfloor := Int.lt_floor_add_one ((θ - angle - 0.1) / (2 * Real.pi))
      rw [div_lt_iff₀ (by positivity)] at hfloor
      linarith
  have hn := Int.floor_le (5000 * t)
  have hn' := Int.lt_floor_add_one (5000 * t)
  have hleast : 500 ≤ ⌊5000 * t⌋ := Int.le_floor.mpr (by push_cast; linarith)
  have hmost : ⌊5000 * t⌋ ≤ 32000 := by
    have hreal : (⌊5000 * t⌋ : ℝ) ≤ 32000 := by linarith
    exact_mod_cast hreal
  have hword : (deadband (BitVec.ofInt 16 ⌊5000 * t⌋) : ℝ) = ⌊5000 * t⌋ :=
    deadband_ofInt (by rw [abs_of_nonneg] <;> omega) (by rw [abs_of_nonneg] <;> omega)
  have hclose : |angle + (⌊5000 * t⌋ : ℝ) / 5000 - (θ - k * (2 * Real.pi))| ≤ 1 / 5000 := by
    rw [ht, abs_le]
    constructor <;> linarith
  refine ⟨BitVec.ofInt 16 ⌊5000 * t⌋, ?_, ?_⟩
  · rw [hword, ← Real.cos_sub_int_mul_two_pi θ k]
    exact (Real.abs_cos_sub_cos_le _ _).trans hclose
  · rw [hword, ← Real.sin_sub_int_mul_two_pi θ k]
    exact (Real.abs_sin_sub_sin_le _ _).trans hclose

/-- The gas for a speed, if it takes neither too little nor too much. -/
theorem exists_gas {v u : ℝ} (hlo : 0.1 ≤ |u / 0.96 - v|) (hhi : |u / 0.96 - v| ≤ 16.1) :
    ∃ gx : BitVec 16, |(v + deadband gx / 2000) * 0.96 - u| ≤ 1 / 2000 := by
  have hu : u / 0.96 * 0.96 = u := div_mul_cancel₀ u (by norm_num)
  have hn := Int.floor_le (2000 * (u / 0.96 - v))
  have hn' := Int.lt_floor_add_one (2000 * (u / 0.96 - v))
  have hword : (deadband (BitVec.ofInt 16 ⌊2000 * (u / 0.96 - v)⌋) : ℝ) =
      ⌊2000 * (u / 0.96 - v)⌋ := by
    apply deadband_ofInt
    · rcases le_abs.mp hlo with hpos | hneg
      · exact le_abs.mpr (.inl (Int.le_floor.mpr (by push_cast; linarith)))
      · have hless : ⌊2000 * (u / 0.96 - v)⌋ < -100 := Int.floor_lt.mpr (by push_cast; linarith)
        exact le_abs.mpr (.inr (by omega))
    · rw [abs_le] at hhi
      have hless : ⌊2000 * (u / 0.96 - v)⌋ < 32767 := Int.floor_lt.mpr (by push_cast; linarith)
      exact abs_le.mpr ⟨Int.le_floor.mpr (by push_cast; linarith), hless.le⟩
  refine ⟨BitVec.ofInt 16 ⌊2000 * (u / 0.96 - v)⌋, ?_⟩
  rw [hword, abs_le]
  constructor <;> linarith

/-- One frame looks `|u|` pixels away in any direction, but for 0.015 each way. -/
theorem exists_frame (c : Car ℝ) {u : ℝ} (hlo : 0.1 ≤ |u / 0.96 - c.speed|)
    (hhi : |u / 0.96 - c.speed| ≤ 16.1) (hne : u ≠ 0) (hbound : |u| ≤ 66) {a b : ℝ}
    (h : a ^ 2 + b ^ 2 = 1) :
    ∃ f : Frame, |(c.push f).speed - u| ≤ 1 / 2000 ∧
      |(c.push f).nextX realTrig - (c.x + |u| * a)| ≤ 0.015 ∧
      |(c.push f).nextY realTrig - (c.y + |u| * b)| ≤ 0.015 := by
  obtain ⟨gx, hgas⟩ := exists_gas hlo hhi
  have hunit : (|u| * a / u) ^ 2 + (|u| * b / u) ^ 2 = 1 := by
    rw [div_pow, div_pow, mul_pow, mul_pow, sq_abs, ← add_div, ← mul_add, h, mul_one]
    exact div_self (pow_ne_zero 2 hne)
  obtain ⟨gz, hcos, hsin⟩ := exists_steer c.angle hunit
  have hsize : |(c.speed + deadband gx / 2000) * 0.96| ≤ 66.0005 := by
    rw [abs_le] at hbound hgas ⊢
    constructor <;> linarith
  -- the error of the heading at this speed, and that of the speed in this heading
  have close {w d : ℝ} (hw : |w - d| ≤ 1 / 5000) (hd : |d| ≤ 1) :
      |w * ((c.speed + deadband gx / 2000) * 0.96) - d * u| ≤ 0.015 := by
    have hsplit : w * ((c.speed + deadband gx / 2000) * 0.96) - d * u =
        (w - d) * ((c.speed + deadband gx / 2000) * 0.96) +
          d * ((c.speed + deadband gx / 2000) * 0.96 - u) := by ring
    have hturn := mul_le_mul hw hsize (abs_nonneg _) (by norm_num)
    have hpush := mul_le_mul hd hgas (abs_nonneg _) (by norm_num)
    rw [← abs_mul] at hturn hpush
    rw [hsplit]
    refine (abs_add_le _ _).trans ?_
    linarith
  have ha : |(|u| * a / u)| ≤ 1 := abs_le_one_iff_mul_self_le_one.mpr (by nlinarith)
  have hb : |(|u| * b / u)| ≤ 1 := abs_le_one_iff_mul_self_le_one.mpr (by nlinarith)
  refine ⟨⟨gx, gz⟩, hgas, ?_, ?_⟩
  · have hnext := close hcos ha
    rw [div_mul_cancel₀ _ hne] at hnext
    simpa only [Car.nextX, Car.push, realTrig, add_sub_add_left_eq_sub] using hnext
  · have hnext := close hsin hb
    rw [div_mul_cancel₀ _ hne] at hnext
    simpa only [Car.nextY, Car.push, realTrig, add_sub_add_left_eq_sub] using hnext

/-! ## Rolling -/

/-- The game is on, the ball in no wall and not in the goal, and not too fast. -/
structure Rolling (speed : ℝ) (p : Page ℝ) : Prop where
  on : p.gameOver = false
  placed : Browser.Placed p
  slow : |p.car.speed| ≤ speed

section Rolling
variable {p q : Page ℝ} {f : Frame} {entry : Option ℕ}

/-- What a frame does where the maze has a row. -/
theorem draw_outcome (on : p.gameOver = false)
    (hlook : lookup (cell ((p.car.push f).nextY realTrig))
      (cell ((p.car.push f).nextX realTrig)) = some entry) :
    ∃ q, draw realTrig p f = some q ∧ (q.gameOver = true ∨
      q.gameOver = false ∧ |q.car.speed| ≤ |(p.car.push f).speed| ∧
        (entry ≠ some 1 → q.car.x = (p.car.push f).nextX realTrig ∧
          q.car.y = (p.car.push f).nextY realTrig ∧ q.car.speed = (p.car.push f).speed)) := by
  unfold draw
  dsimp only
  rw [if_neg (by simp [on]), hlook]
  split
  · next heq => cases heq
  · next heq =>
    cases heq
    refine ⟨_, rfl, .inr ⟨on, ?_, fun hne => absurd rfl hne⟩⟩
    rw [abs_mul, abs_of_neg (by norm_num : (-0.5 : ℝ) < 0)]
    linarith [abs_nonneg (p.car.push f).speed]
  · exact ⟨_, rfl, .inl rfl⟩
  · exact ⟨_, rfl, .inr ⟨on, le_rfl, fun _ => ⟨rfl, rfl, rfl⟩⟩⟩

/-- Such a frame keeps the ball rolling, at the speed it pushes it to, or wins. -/
theorem Rolling.draw {speed speed' : ℝ} (h : Rolling speed p)
    (hlook : lookup (cell ((p.car.push f).nextY realTrig))
      (cell ((p.car.push f).nextX realTrig)) = some entry)
    (hpush : |(p.car.push f).speed| ≤ speed') :
    ∃ q, Game.draw realTrig p f = some q ∧ (q.gameOver = true ∨ Rolling speed' q ∧
      (entry ≠ some 1 → q.car.x = (p.car.push f).nextX realTrig ∧
        q.car.y = (p.car.push f).nextY realTrig ∧ q.car.speed = (p.car.push f).speed)) := by
  obtain ⟨q, hq, hover | ⟨hon, hslow, hmove⟩⟩ := draw_outcome h.on hlook
  · exact ⟨q, hq, .inl hover⟩
  · exact ⟨q, hq, .inr ⟨⟨hon, h.placed.draw hq, hslow.trans hpush⟩, hmove⟩⟩

end Rolling

/-! ## Slowing down -/

theorem le_cell {a : ℝ} {n : ℤ} : n ≤ cell a ↔ 40 * (n : ℝ) ≤ a := by
  rw [cell, Int.le_floor, tileSize, le_div_iff₀ (by norm_num)]
  constructor <;> intro h <;> push_cast at * <;> linarith

theorem cell_le {a : ℝ} {n : ℤ} : cell a ≤ n ↔ a < 40 * (n : ℝ) + 40 := by
  rw [← Int.lt_add_one_iff, cell, Int.floor_lt, tileSize, div_lt_iff₀ (by norm_num)]
  constructor <;> intro h <;> push_cast at * <;> linarith

/-- The rows of the maze. -/
theorem lookup_isSome_iff {row col : ℤ} : (lookup row col).isSome ↔ 0 ≤ row ∧ row ≤ 9 := by
  unfold lookup index
  rw [Option.isSome_map]
  split
  · rw [isSome_getElem?]
    change row.toNat < 10 ↔ _
    omega
  · simp only [Option.isSome_none, Bool.false_eq_true, false_iff]
    omega

theorem lookup_of_outside {row col : ℤ} (hrow : 0 ≤ row ∧ row ≤ 9) (hcol : col < 0 ∨ 15 ≤ col) :
    lookup row col = some none := by
  have hsome : (lookup row col).isSome := lookup_isSome_iff.mpr hrow
  obtain ⟨entry, hlook⟩ := Option.isSome_iff_exists.mp hsome
  cases entry with
  | none => exact hlook
  | some v =>
    have hin := inRange_of_lookup hlook
    unfold InRange at hin
    omega

/-- A heading that is all but level, to either side. -/
theorem exists_level (angle : ℝ) :
    (∃ gz : BitVec 16, 0 ≤ Real.sin (angle + deadband gz / 5000) ∧
      Real.sin (angle + deadband gz / 5000) ≤ 0.0025) ∧
    ∃ gz : BitVec 16, -0.0025 ≤ Real.sin (angle + deadband gz / 5000) ∧
      Real.sin (angle + deadband gz / 5000) ≤ 0 := by
  constructor
  · obtain ⟨gz, -, hsin⟩ := exists_steer angle (a := 999999 / 1000001) (b := 2000 / 1000001)
      (by norm_num)
    rw [abs_le] at hsin
    exact ⟨gz, by linarith, by linarith⟩
  · obtain ⟨gz, -, hsin⟩ := exists_steer angle (a := 999999 / 1000001) (b := -2000 / 1000001)
      (by norm_num)
    rw [abs_le] at hsin
    exact ⟨gz, by linarith, by linarith⟩

/-- A frame can look in the rows of the maze, whatever the speed. -/
theorem exists_steer_inside (angle : ℝ) {y v : ℝ} (hy : 0 ≤ y ∧ y < 400) (hv : |v| ≤ 394) :
    ∃ gz : BitVec 16, 0 ≤ y + Real.sin (angle + deadband gz / 5000) * v ∧
      y + Real.sin (angle + deadband gz / 5000) * v < 400 := by
  obtain ⟨⟨gz, h0, h1⟩, gz', h0', h1'⟩ := exists_level angle
  rw [abs_le] at hv
  rcases lt_or_ge y 200 with hlow | hhigh
  · rcases le_total 0 v with hpos | hneg
    · exact ⟨gz, by nlinarith, by nlinarith⟩
    · exact ⟨gz', by nlinarith, by nlinarith⟩
  · rcases le_total 0 v with hpos | hneg
    · exact ⟨gz', by nlinarith, by nlinarith⟩
    · exact ⟨gz, by nlinarith, by nlinarith⟩

section Brake
variable {p : Page ℝ}

/-- Full gas backwards takes 16 off the speed, down to 8. -/
theorem Rolling.backwards (h : Rolling 393.216 p) (fast : 8 < |p.car.speed|) :
    ∃ f q, Game.draw realTrig p f = some q ∧ (q.gameOver = true ∨
      Rolling 393.216 q ∧ |q.car.speed| ≤ max 8 (|p.car.speed| - 16)) := by
  obtain ⟨n, hn, hspeed⟩ : ∃ n : ℤ, (n = -32000 ∨ n = 32000) ∧
      |(p.car.speed + n / 2000) * 0.96| ≤ max 8 (|p.car.speed| - 16) := by
    rcases lt_abs.mp fast with hpos | hneg
    · refine ⟨-32000, .inl rfl, ?_⟩
      rw [abs_of_pos (by linarith : 0 < p.car.speed), le_max_iff, abs_le, abs_le]
      push_cast
      rcases le_or_gt p.car.speed 24 with hle | hgt
      · exact .inl ⟨by linarith, by linarith⟩
      · exact .inr ⟨by linarith, by linarith⟩
    · refine ⟨32000, .inr rfl, ?_⟩
      rw [abs_of_neg (by linarith : p.car.speed < 0), le_max_iff, abs_le, abs_le]
      push_cast
      rcases le_or_gt (-24) p.car.speed with hle | hgt
      · exact .inl ⟨by linarith, by linarith⟩
      · exact .inr ⟨by linarith, by linarith⟩
  have hword : (deadband (BitVec.ofInt 16 n) : ℝ) = n := by
    rcases hn with rfl | rfl <;> exact deadband_ofInt (by decide) (by decide)
  rw [← hword] at hspeed
  have hbound : |(p.car.speed + deadband (BitVec.ofInt 16 n) / 2000) * 0.96| ≤ 393.216 :=
    (Browser.push_speed p.car ⟨BitVec.ofInt 16 n, 0⟩).trans (by linarith [h.slow])
  obtain ⟨entry, hentry, -, -⟩ := h.placed.free
  have hrow := lookup_isSome_iff.mp (Option.isSome_of_eq_some hentry)
  rw [le_cell, cell_le] at hrow
  obtain ⟨gz, hlo, hhi⟩ := exists_steer_inside p.car.angle (y := p.car.y)
    ⟨by simpa using hrow.1, by norm_num at hrow; exact hrow.2⟩ (hbound.trans (by norm_num))
  have hrow' : 0 ≤ cell ((p.car.push ⟨BitVec.ofInt 16 n, gz⟩).nextY realTrig) ∧
      cell ((p.car.push ⟨BitVec.ofInt 16 n, gz⟩).nextY realTrig) ≤ 9 := by
    rw [le_cell, cell_le]
    norm_num
    exact ⟨hlo, hhi⟩
  have hsome : (lookup (cell ((p.car.push ⟨BitVec.ofInt 16 n, gz⟩).nextY realTrig))
      (cell ((p.car.push ⟨BitVec.ofInt 16 n, gz⟩).nextX realTrig))).isSome :=
    lookup_isSome_iff.mpr hrow'
  obtain ⟨entry', hlook⟩ := Option.isSome_iff_exists.mp hsome
  refine ⟨⟨BitVec.ofInt 16 n, gz⟩, ?_⟩
  obtain ⟨q, hq, hover | ⟨hon, hslow, -⟩⟩ := draw_outcome h.on hlook
  · exact ⟨q, hq, .inl hover⟩
  · exact ⟨q, hq, .inr ⟨⟨hon, h.placed.draw hq, hslow.trans hbound⟩, hslow.trans hspeed⟩⟩

/-- Wherever it rolls, the ball can be slowed down. -/
theorem Rolling.brake (h : Rolling 393.216 p) :
    Reaches (Game.draw realTrig) p fun q => q.gameOver = true ∨ Rolling 8 q := by
  refine Reaches.of_decreasing (fun p => ⌊|p.car.speed|⌋₊) ?_ h
  intro p h
  rcases le_or_gt |p.car.speed| 8 with hslow | hfast
  · exact .now (.inl (.inr ⟨h.on, h.placed, hslow⟩))
  · obtain ⟨f, q, hq, hover | ⟨hroll, hspeed⟩⟩ := h.backwards hfast
    · exact .cons hq (.now (.inl (.inl hover)))
    · rcases le_max_iff.mp hspeed with hslow | hless
      · exact .cons hq (.now (.inl (.inr ⟨hroll.on, hroll.placed, hslow⟩)))
      · refine .cons hq (.now (.inr ⟨hroll, ?_⟩))
        rw [Nat.floor_lt (abs_nonneg _)]
        have hfloor := Nat.lt_floor_add_one |p.car.speed|
        linarith

end Brake

/-! ## From cell to cell -/

/-- The middle of a cell. -/
def mid (n : ℤ) : ℝ := ((40 * n + 20 : ℤ) : ℝ)

theorem mid_eq (n : ℤ) : mid n = 40 * (n : ℝ) + 20 := by
  rw [mid]
  push_cast
  rfl

/-- A part of the way to the middle of a cell does not leave the cells in between. -/
theorem cell_toward {a b : ℝ} {lo hi n : ℤ} (ha : lo ≤ cell a ∧ cell a ≤ hi)
    (hn : lo ≤ n ∧ n ≤ hi) {t : ℝ} (ht : 1 / 25 ≤ t ∧ t ≤ 1)
    (hb : |b - (a + t * (mid n - a))| ≤ 0.015) : lo ≤ cell b ∧ cell b ≤ hi := by
  rw [le_cell, cell_le] at ha ⊢
  have hlo : (lo : ℝ) ≤ n := by exact_mod_cast hn.1
  have hhi : (n : ℝ) ≤ hi := by exact_mod_cast hn.2
  rw [abs_le] at hb
  rw [mid_eq] at hb
  constructor
  · have h1 : 0 ≤ (1 - t) * (a - 40 * lo) := mul_nonneg (by linarith) (by linarith)
    have h2 : 0 ≤ t * (n - lo) := mul_nonneg (by linarith) (by linarith)
    linarith
  · have h1 : 0 ≤ (1 - t) * (40 * hi + 40 - a) := mul_nonneg (by linarith) (by linarith)
    have h2 : 0 ≤ t * (hi - n) := mul_nonneg (by linarith) (by linarith)
    linarith

/-- From the ball to the middle of a cell. -/
noncomputable def way (row col : ℤ) (p : Page ℝ) : ℂ := ⟨mid col - p.car.x, mid row - p.car.y⟩

theorem way_le {row col : ℤ} {p : Page ℝ} (hrow : |cell p.car.y - row| ≤ 1)
    (hcol : |cell p.car.x - col| ≤ 1) : ‖way row col p‖ ≤ 120 := by
  have bound {a : ℝ} {n : ℤ} (h : |cell a - n| ≤ 1) : |mid n - a| ≤ 60 := by
    have hlo := le_cell.mp (le_refl (cell a))
    have hhi := cell_le.mp (le_refl (cell a))
    have h' : |(cell a : ℝ) - n| ≤ 1 := by exact_mod_cast h
    rw [abs_le] at h' ⊢
    rw [mid_eq]
    constructor <;> linarith
  refine (Complex.norm_le_abs_re_add_abs_im _).trans ?_
  exact (add_le_add (bound hcol) (bound hrow)).trans (by norm_num)

theorem way_near {row col : ℤ} {p : Page ℝ} (h : ‖way row col p‖ ≤ 5) :
    |p.car.x - mid col| ≤ 5 ∧ |p.car.y - mid row| ≤ 5 := by
  rw [abs_sub_comm, abs_sub_comm p.car.y]
  exact ⟨(Complex.abs_re_le_norm _).trans h, (Complex.abs_im_le_norm _).trans h⟩

theorem cell_of_way {row col : ℤ} {p : Page ℝ} (h : ‖way row col p‖ ≤ 5) :
    cell p.car.y = row ∧ cell p.car.x = col := by
  obtain ⟨hx, hy⟩ := way_near h
  simp only [mid_eq, abs_le] at hx hy
  exact ⟨cell_eq (by linarith) (by linarith), cell_eq (by linarith) (by linarith)⟩

/-- The maze has the row, and no wall there. -/
def Free (row col : ℤ) : Prop := ∃ entry, lookup row col = some entry ∧ entry ≠ some 1

theorem Free.of_open {row col : ℤ} (h : Open row col) : Free row col := by
  obtain ⟨v, hlook, hv⟩ := h
  exact ⟨some v, hlook, fun heq => hv (Option.some.inj heq)⟩

/-- A rectangle without a wall. -/
structure Room where
  top : ℤ
  bottom : ℤ
  left : ℤ
  right : ℤ
  free : ∀ row col, top ≤ row ∧ row ≤ bottom → left ≤ col ∧ col ≤ right → Free row col

def Room.Has (R : Room) (row col : ℤ) : Prop :=
  (R.top ≤ row ∧ row ≤ R.bottom) ∧ R.left ≤ col ∧ col ≤ R.right

section Room
variable {R : Room} {p q : Page ℝ} {row col : ℤ}

/-- The gas for five pixels, against the speed there is. -/
theorem exists_five {v : ℝ} (h : |v| ≤ 8) :
    ∃ u : ℝ, |u| = 5 ∧ 0.1 ≤ |u / 0.96 - v| ∧ |u / 0.96 - v| ≤ 16.1 := by
  rw [abs_le] at h
  rcases le_total 0 v with hv | hv
  · refine ⟨-5, by norm_num, ?_⟩
    rw [abs_of_neg (by linarith)]
    constructor <;> linarith
  · refine ⟨5, by norm_num, ?_⟩
    rw [abs_of_pos (by linarith)]
    constructor <;> linarith

/-- A frame towards the middle of a cell of the room. -/
theorem Rolling.nudge (h : Rolling 8 p) (hin : R.Has (cell p.car.y) (cell p.car.x))
    (hcell : R.Has row col) (hfar : 5 ≤ ‖way row col p‖) (hnear : ‖way row col p‖ ≤ 120) :
    ∃ f q, Game.draw realTrig p f = some q ∧ (q.gameOver = true ∨ Rolling 8 q ∧
      R.Has (cell q.car.y) (cell q.car.x) ∧ ‖way row col q‖ ≤ ‖way row col p‖ - 4) := by
  have hpos : 0 < ‖way row col p‖ := by linarith
  have hunit : ((mid col - p.car.x) / ‖way row col p‖) ^ 2 +
      ((mid row - p.car.y) / ‖way row col p‖) ^ 2 = 1 := by
    have hsq : ‖way row col p‖ ^ 2 = (mid col - p.car.x) ^ 2 + (mid row - p.car.y) ^ 2 := by
      rw [Complex.sq_norm, Complex.normSq_apply, way]
      ring
    rw [div_pow, div_pow, ← add_div, ← hsq]
    exact div_self (by positivity)
  obtain ⟨u, hu, hlo, hhi⟩ := exists_five h.slow
  obtain ⟨f, hspeed, hx, hy⟩ :=
    exists_frame p.car hlo hhi (by rintro rfl; norm_num at hu) (by linarith) hunit
  generalize hD : ‖way row col p‖ = D at *
  -- the frame looks at 5 / D of the way
  have hpart : 1 / 25 ≤ 5 / D ∧ 5 / D ≤ 1 :=
    ⟨by rw [div_le_div_iff₀ (by norm_num) hpos]; linarith, (div_le_one hpos).mpr hfar⟩
  have hscale (d : ℝ) : |u| * (d / D) = 5 / D * d := by rw [hu]; ring
  rw [hscale] at hx hy
  have hhas : R.Has (cell ((p.car.push f).nextY realTrig))
      (cell ((p.car.push f).nextX realTrig)) :=
    ⟨cell_toward hin.1 hcell.1 hpart hy, cell_toward hin.2 hcell.2 hpart hx⟩
  have hslow : |(p.car.push f).speed| ≤ 8 := by
    have hsplit := abs_add_le ((p.car.push f).speed - u) u
    rw [sub_add_cancel] at hsplit
    linarith
  obtain ⟨entry, hlook, hfree⟩ := R.free _ _ hhas.1 hhas.2
  obtain ⟨q, hq, hover | ⟨hroll, hmove⟩⟩ := h.draw hlook hslow
  · exact ⟨f, q, hq, .inl hover⟩
  obtain ⟨hqx, hqy, -⟩ := hmove hfree
  rw [← hqx, ← hqy] at hhas
  rw [← hqx] at hx
  rw [← hqy] at hy
  refine ⟨f, q, hq, .inr ⟨hroll, hhas, ?_⟩⟩
  -- what is left of the way, and the error
  have hsplit : way row col q = ((1 - 5 / D : ℝ) : ℂ) * way row col p -
      ⟨q.car.x - (p.car.x + 5 / D * (mid col - p.car.x)),
        q.car.y - (p.car.y + 5 / D * (mid row - p.car.y))⟩ := by
    apply Complex.ext
    · simp only [way, Complex.sub_re, Complex.re_ofReal_mul]
      ring
    · simp only [way, Complex.sub_im, Complex.im_ofReal_mul]
      ring
  have hrest : ‖((1 - 5 / D : ℝ) : ℂ) * way row col p‖ = D - 5 := by
    rw [norm_mul, Complex.norm_real, Real.norm_of_nonneg (by linarith), hD]
    field_simp
  rw [hsplit]
  refine (norm_sub_le _ _).trans ?_
  rw [hrest]
  have herror := (Complex.norm_le_abs_re_add_abs_im
    ⟨q.car.x - (p.car.x + 5 / D * (mid col - p.car.x)),
      q.car.y - (p.car.y + 5 / D * (mid row - p.car.y))⟩).trans (add_le_add hx hy)
  linarith

/-- Within a room the ball can be taken to the middle of any cell near it. -/
theorem Rolling.walk (h : Rolling 8 p) (hin : R.Has (cell p.car.y) (cell p.car.x))
    (hcell : R.Has row col) (hnear : ‖way row col p‖ ≤ 120) :
    Reaches (Game.draw realTrig) p fun q => q.gameOver = true ∨
      Rolling 8 q ∧ ‖way row col q‖ ≤ 5 := by
  refine Reaches.of_decreasing
    (I := fun p => Rolling 8 p ∧ R.Has (cell p.car.y) (cell p.car.x) ∧ ‖way row col p‖ ≤ 120)
    (fun p => ⌊‖way row col p‖⌋₊) ?_ ⟨h, hin, hnear⟩
  rintro p ⟨h, hin, hnear⟩
  rcases lt_or_ge ‖way row col p‖ 5 with hclose | hfar
  · exact .now (.inl (.inr ⟨h, hclose.le⟩))
  · obtain ⟨f, q, hq, hover | ⟨hroll, hhas, hless⟩⟩ := h.nudge hin hcell hfar hnear
    · exact .cons hq (.now (.inl (.inl hover)))
    · refine .cons hq (.now (.inr ⟨⟨hroll, hhas, by linarith⟩, ?_⟩))
      rw [Nat.floor_lt (norm_nonneg _)]
      have hfloor := Nat.lt_floor_add_one ‖way row col p‖
      linarith

end Room

/-- Up, down, left and right. -/
def sides : List (ℤ × ℤ) := [(-1, 0), (1, 0), (0, -1), (0, 1)]

/-- Two cells side by side are a room. -/
theorem exists_room {row col : ℤ} {d : ℤ × ℤ} (hd : d ∈ sides) (h : Free row col)
    (h' : Free (row + d.1) (col + d.2)) :
    ∃ R : Room, R.Has row col ∧ R.Has (row + d.1) (col + d.2) := by
  have hside : d.1 = 0 ∧ |d.2| ≤ 1 ∨ d.2 = 0 ∧ |d.1| ≤ 1 := by
    have all : ∀ d ∈ sides, d.1 = 0 ∧ |d.2| ≤ 1 ∨ d.2 = 0 ∧ |d.1| ≤ 1 := by decide
    exact all d hd
  refine ⟨⟨min row (row + d.1), max row (row + d.1), min col (col + d.2), max col (col + d.2),
    ?_⟩, ?_, ?_⟩
  · intro r c hr hc
    have hone : r = row ∧ c = col ∨ r = row + d.1 ∧ c = col + d.2 := by
      rw [abs_le, abs_le] at hside
      omega
    rcases hone with ⟨rfl, rfl⟩ | ⟨rfl, rfl⟩
    · exact h
    · exact h'
  · simp [Room.Has]
  · simp [Room.Has]

/-- Rolling slowly, the ball can be taken to a cell beside its own. -/
theorem Rolling.hop {p : Page ℝ} (h : Rolling 8 p) {d : ℤ × ℤ} (hd : d ∈ sides)
    (hfree : Free (cell p.car.y + d.1) (cell p.car.x + d.2)) :
    Reaches (Game.draw realTrig) p fun q => q.gameOver = true ∨
      Rolling 8 q ∧ cell q.car.y = cell p.car.y + d.1 ∧ cell q.car.x = cell p.car.x + d.2 := by
  have hin : Free (cell p.car.y) (cell p.car.x) := by
    obtain ⟨entry, hlook, hne, -⟩ := h.placed.free
    exact ⟨entry, hlook, hne⟩
  obtain ⟨R, hhas, hcell⟩ := exists_room hd hin hfree
  have hnear : |d.1| ≤ 1 ∧ |d.2| ≤ 1 := by
    have all : ∀ d ∈ sides, |d.1| ≤ 1 ∧ |d.2| ≤ 1 := by decide
    exact all d hd
  refine (h.walk hhas hcell (way_le ?_ ?_)).trans ?_
  · rw [sub_add_cancel_left, abs_neg]
    exact hnear.1
  · rw [sub_add_cancel_left, abs_neg]
    exact hnear.2
  · rintro q (hover | ⟨hroll, hway⟩)
    · exact .now (.inl hover)
    · exact .now (.inr ⟨hroll, cell_of_way hway⟩)

/-! ## In the maze -/

/-- The number of steps to the goal, from every open cell. -/
def steps : List (List ℕ) :=
  [[0, 0, 0, 0, 0, 0, 0, 0, 0, 0, 0, 0, 0, 0, 0],
   [0, 23, 22, 21, 20, 19, 0, 13, 12, 11, 10, 9, 8, 7, 0],
   [0, 0, 0, 0, 0, 18, 0, 14, 0, 0, 0, 0, 0, 6, 0],
   [0, 17, 18, 19, 18, 17, 16, 15, 16, 17, 18, 19, 0, 5, 0],
   [0, 16, 0, 0, 0, 0, 0, 0, 0, 0, 0, 20, 0, 4, 0],
   [0, 15, 0, 13, 14, 15, 16, 17, 18, 19, 20, 21, 0, 3, 0],
   [0, 14, 0, 12, 0, 0, 0, 0, 0, 0, 0, 0, 0, 2, 0],
   [0, 13, 12, 11, 10, 9, 8, 7, 6, 5, 4, 3, 2, 1, 0]]

def stepsAt (row col : ℤ) : ℕ := (((index steps row).bind fun r => index r col).getD 0)

/-- One of the cells beside an open cell is open and nearer to the goal. -/
theorem exists_nearer {row col : ℤ} (h : Open row col) (hgoal : lookup row col ≠ some (some 3)) :
    ∃ d ∈ sides, Open (row + d.1) (col + d.2) ∧
      stepsAt (row + d.1) (col + d.2) < stepsAt row col := by
  obtain ⟨v, hlook, hv⟩ := h
  obtain ⟨⟨hr0, hr⟩, hc0, hc⟩ := inRange_of_lookup hlook
  obtain ⟨r, rfl⟩ := Int.eq_ofNat_of_zero_le hr0
  obtain ⟨c, rfl⟩ := Int.eq_ofNat_of_zero_le hc0
  have all : ∀ r < 10, ∀ c < 15, lookup (r : ℕ) (c : ℕ) = some (some 1) ∨
      lookup (r : ℕ) (c : ℕ) = some (some 3) ∨ ∃ d ∈ sides, (∃ v ∈ [0, 2, 3],
        lookup ((r : ℕ) + d.1) ((c : ℕ) + d.2) = some (some v)) ∧
          stepsAt ((r : ℕ) + d.1) ((c : ℕ) + d.2) < stepsAt (r : ℕ) (c : ℕ) := by decide +kernel
  rcases all r (by omega) c (by omega) with hwall | hthree | ⟨d, hd, ⟨w, hw, hlook'⟩, hless⟩
  · rw [hlook] at hwall
    exact absurd (Option.some.inj (Option.some.inj hwall)) hv
  · exact absurd hthree hgoal
  · refine ⟨d, hd, ⟨w, hlook', ?_⟩, hless⟩
    rintro rfl
    exact absurd hw (by decide)

/-- In the maze the ball can be taken to the goal. -/
theorem Rolling.finish {p : Page ℝ} (h : Rolling 8 p) (hin : Inside p) :
    Reaches (Game.draw realTrig) p fun q => q.gameOver = true := by
  refine Reaches.of_decreasing (I := fun p => Rolling 8 p ∧ Inside p)
    (fun p => stepsAt (cell p.car.y) (cell p.car.x)) ?_ ⟨h, hin⟩
  rintro p ⟨h, hin⟩
  have hgoal : lookup (cell p.car.y) (cell p.car.x) ≠ some (some 3) := by
    obtain ⟨entry, hlook, -, h3⟩ := h.placed.free
    rw [hlook]
    exact fun heq => h3 (Option.some.inj heq)
  obtain ⟨d, hd, hopen, hless⟩ := exists_nearer hin hgoal
  refine (h.hop hd (.of_open hopen)).trans ?_
  rintro q (hover | ⟨hroll, hy, hx⟩)
  · exact .now (.inl hover)
  · refine .now (.inr ⟨⟨hroll, ?_⟩, ?_⟩)
    · rwa [Inside, hy, hx]
    · rwa [hy, hx]

/-! ## Outside the maze -/

/-- Beyond the first or the last column of the maze, and the column to jump from. -/
def Beside (col gate : ℤ) : Prop := col < 0 ∧ gate = -2 ∨ 15 ≤ col ∧ gate = 16

/-- One of the cells beside a cell outside is outside and nearer to the gate. -/
theorem exists_nearer_gate {row col gate : ℤ} (hrow : 0 ≤ row ∧ row ≤ 9)
    (hside : Beside col gate) (hne : ¬ (row = 7 ∧ col = gate)) :
    ∃ d ∈ sides, (0 ≤ row + d.1 ∧ row + d.1 ≤ 9) ∧ Beside (col + d.2) gate ∧
      (row + d.1 - 7).natAbs + (col + d.2 - gate).natAbs <
        (row - 7).natAbs + (col - gate).natAbs := by
  unfold Beside at *
  rcases lt_trichotomy row 7 with hlt | rfl | hgt
  · exact ⟨(1, 0), by decide, by dsimp only; omega⟩
  · rcases lt_or_gt_of_ne fun heq => hne ⟨rfl, heq⟩ with hlt | hgt
    · exact ⟨(0, 1), by decide, by dsimp only; omega⟩
    · exact ⟨(0, -1), by decide, by dsimp only; omega⟩
  · exact ⟨(-1, 0), by decide, by dsimp only; omega⟩

theorem Beside.free {row col gate : ℤ} (h : Beside col gate) (hrow : 0 ≤ row ∧ row ≤ 9) :
    Free row col :=
  ⟨none, lookup_of_outside hrow (by unfold Beside at h; omega), by decide⟩

/-- Outside the maze the ball can be taken to the middle of the gate. -/
theorem Rolling.park {p : Page ℝ} {gate : ℤ} (h : Rolling 8 p)
    (hrow : 0 ≤ cell p.car.y ∧ cell p.car.y ≤ 9) (hside : Beside (cell p.car.x) gate) :
    Reaches (Game.draw realTrig) p fun q => q.gameOver = true ∨
      Rolling 8 q ∧ ‖way 7 gate q‖ ≤ 5 := by
  refine Reaches.of_decreasing
    (I := fun p => Rolling 8 p ∧ (0 ≤ cell p.car.y ∧ cell p.car.y ≤ 9) ∧
      Beside (cell p.car.x) gate)
    (fun p => (cell p.car.y - 7).natAbs + (cell p.car.x - gate).natAbs) ?_ ⟨h, hrow, hside⟩
  rintro p ⟨h, hrow, hside⟩
  by_cases hgate : cell p.car.y = 7 ∧ cell p.car.x = gate
  · have hroom : ∀ row col, (7 : ℤ) ≤ row ∧ row ≤ 7 → gate ≤ col ∧ col ≤ gate → Free row col := by
      intro row col hr hc
      have hcol : col = gate := le_antisymm hc.2 hc.1
      exact Beside.free (by rwa [hcol, ← hgate.2]) (by omega)
    refine Reaches.trans (P := fun q => q.gameOver = true ∨ Rolling 8 q ∧ ‖way 7 gate q‖ ≤ 5)
      (h.walk (R := ⟨7, 7, gate, gate, hroom⟩) ?_ ?_ ?_) fun q hq => .now (.inl hq)
    · rw [hgate.1, hgate.2]
      exact ⟨⟨le_rfl, le_rfl⟩, le_rfl, le_rfl⟩
    · exact ⟨⟨le_rfl, le_rfl⟩, le_rfl, le_rfl⟩
    · exact way_le (by rw [hgate.1]; decide) (by rw [hgate.2, sub_self]; decide)
  · obtain ⟨d, hd, hrow', hside', hless⟩ := exists_nearer_gate hrow hside hgate
    refine (h.hop hd (hside'.free hrow')).trans ?_
    rintro q (hover | ⟨hroll, hy, hx⟩)
    · exact .now (.inl (.inl hover))
    · refine .now (.inr ⟨⟨hroll, ?_, ?_⟩, ?_⟩)
      · rwa [hy]
      · rwa [hx]
      · rwa [hy, hx]

/-! ## Over the outer wall -/

/-- At `d` from the middle of the maze, to the right or to the left, in the middle of
the row that is open from wall to wall. -/
def Lane (side d error : ℝ) (p : Page ℝ) : Prop :=
  |p.car.x - (300 + side * d)| ≤ error ∧ |p.car.y - 300| ≤ error

theorem lookup_lane {x y : ℝ} (hy : |y - 300| ≤ 6) :
    (|x - 300| < 260 → lookup (cell y) (cell x) = some (some 0)) ∧
      (300 < |x - 300| → lookup (cell y) (cell x) = some none) := by
  have hrow : cell y = 7 := by
    rw [abs_le] at hy
    exact cell_eq (by push_cast; linarith) (by push_cast; linarith)
  rw [hrow]
  constructor
  · intro hx
    rw [abs_lt] at hx
    have hlo : 1 ≤ cell x := le_cell.mpr (by push_cast; linarith)
    have hhi : cell x ≤ 13 := cell_le.mpr (by push_cast; linarith)
    have all : ∀ c < 14, 1 ≤ c → lookup 7 (c : ℕ) = some (some 0) := by decide
    have hcol := all (cell x).toNat (by omega) (by omega)
    rwa [Int.toNat_of_nonneg (by omega)] at hcol
  · intro hx
    refine lookup_of_outside (by decide) ?_
    rcases lt_abs.mp hx with hright | hleft
    · exact .inr (le_cell.mpr (by push_cast; linarith))
    · refine .inl (Int.lt_of_le_sub_one ?_)
      exact cell_le.mpr (by push_cast; linarith)

/-- The gas that keeps the sign of the speed. -/
theorem exists_same_sign (v : ℝ) {m : ℝ} (hm : 0 ≤ m) :
    ∃ u : ℝ, |u| = m ∧ |u / 0.96 - v| = |(m / 0.96 - |v|)| := by
  rcases le_total 0 v with hv | hv
  · exact ⟨m, abs_of_nonneg hm, by rw [abs_of_nonneg hv]⟩
  · refine ⟨-m, by rw [abs_neg, abs_of_nonneg hm], ?_⟩
    rw [abs_of_nonpos hv, ← abs_neg]
    congr 1
    ring

section Jump
variable {p : Page ℝ} {side error : ℝ} {d k : ℤ}

/-- A frame that moves the ball by `k` along the lane, but for the error. -/
theorem Rolling.stride (h : Rolling 393.216 p) (hside : |side| = 1)
    (hlane : Lane side d error p) (herror : error + 0.015 ≤ 6) (hk : k ≠ 0 ∧ |k| ≤ 66)
    (hlo : 0.1 ≤ |(|(k : ℝ)| / 0.96 - |p.car.speed|)|)
    (hhi : |(|(k : ℝ)| / 0.96 - |p.car.speed|)| ≤ 16.1)
    (hland : |d + k| ≤ 253 ∨ 307 ≤ |d + k|) :
    ∃ f q, Game.draw realTrig p f = some q ∧ (q.gameOver = true ∨ Rolling 393.216 q ∧
      |(|q.car.speed| - |(k : ℝ)|)| ≤ 1 / 2000 ∧
        Lane side ((d + k : ℤ) : ℝ) (error + 0.015) q) := by
  have hbound : |(k : ℝ)| ≤ 66 := by exact_mod_cast hk.2
  have hpos : 0 < |(k : ℝ)| := abs_pos.mpr (by exact_mod_cast hk.1)
  obtain ⟨u, hu, hsame⟩ := exists_same_sign p.car.speed hpos.le
  rw [← hsame] at hlo hhi
  have hunit : (side * k / |(k : ℝ)|) ^ 2 + (0 : ℝ) ^ 2 = 1 := by
    rw [div_pow, mul_pow, sq_abs, ← sq_abs side, hside, one_pow, one_mul,
      div_self (pow_ne_zero 2 (abs_pos.mp hpos))]
    norm_num
  obtain ⟨f, hspeed, hx, hy⟩ :=
    exists_frame p.car hlo hhi (abs_pos.mp (hu ▸ hpos)) (hu ▸ hbound) hunit
  rw [hu, mul_div_cancel₀ _ hpos.ne'] at hx
  rw [mul_zero, add_zero] at hy
  have hnext : |(p.car.push f).nextX realTrig - (300 + side * ((d + k : ℤ) : ℝ))| ≤
      error + 0.015 := by
    have hsplit : (p.car.push f).nextX realTrig - (300 + side * ((d + k : ℤ) : ℝ)) =
        ((p.car.push f).nextX realTrig - (p.car.x + side * k)) +
          (p.car.x - (300 + side * d)) := by
      push_cast
      ring
    rw [hsplit]
    linarith [abs_add_le ((p.car.push f).nextX realTrig - (p.car.x + side * k))
      (p.car.x - (300 + side * d)), hlane.1]
  have hnext' : |(p.car.push f).nextY realTrig - 300| ≤ error + 0.015 := by
    rw [← sub_add_sub_cancel _ p.car.y]
    linarith [abs_add_le ((p.car.push f).nextY realTrig - p.car.y) (p.car.y - 300), hlane.2]
  -- it lands between the walls or outside them
  obtain ⟨entry, hlook, hfree⟩ : ∃ entry, lookup (cell ((p.car.push f).nextY realTrig))
      (cell ((p.car.push f).nextX realTrig)) = some entry ∧ entry ≠ some 1 := by
    have hdist := abs_abs_sub_abs_le ((p.car.push f).nextX realTrig - 300)
      (side * ((d + k : ℤ) : ℝ))
    rw [sub_sub] at hdist
    replace hdist := hdist.trans hnext
    rw [abs_mul, hside, one_mul, abs_le] at hdist
    obtain ⟨hinside, houtside⟩ := lookup_lane (x := (p.car.push f).nextX realTrig)
      (hnext'.trans herror)
    rcases hland with hin | hout
    · have hin' : |((d + k : ℤ) : ℝ)| ≤ 253 := by exact_mod_cast hin
      exact ⟨_, hinside (by linarith), by decide⟩
    · have hout' : 307 ≤ |((d + k : ℤ) : ℝ)| := by exact_mod_cast hout
      exact ⟨_, houtside (by linarith), by decide⟩
  have hdiff : |(|(p.car.push f).speed| - |(k : ℝ)|)| ≤ 1 / 2000 := by
    rw [← hu]
    exact (abs_abs_sub_abs_le _ _).trans hspeed
  have hslow : |(p.car.push f).speed| ≤ 393.216 := by linarith [(abs_le.mp hdiff).2]
  obtain ⟨q, hq, hover | ⟨hroll, hmove⟩⟩ := h.draw hlook hslow
  · exact ⟨f, q, hq, .inl hover⟩
  · obtain ⟨hqx, hqy, hqv⟩ := hmove hfree
    exact ⟨f, q, hq, .inr ⟨hroll, hqv ▸ hdiff, hqx ▸ hnext, hqy ▸ hnext'⟩⟩

/-- The displacements can be driven one after the other from `d`, at the speed `m`. -/
def fits (d m : ℤ) : List ℤ → Bool
  | [] => true
  | k :: ks => decide ((k ≠ 0 ∧ |k| ≤ 66) ∧
      (20 ≤ |(100 * |k| - 96 * |m|)| ∧ |(100 * |k| - 96 * |m|)| ≤ 1540) ∧
      (|d + k| ≤ 253 ∨ 307 ≤ |d + k|)) && fits (d + k) k ks

theorem Rolling.strides {ks : List ℤ} {m : ℤ} (h : Rolling 393.216 p) (hside : |side| = 1)
    (hlane : Lane side d error p) (herror : error + 0.015 * ks.length ≤ 6)
    (hspeed : |(|p.car.speed| - |(m : ℝ)|)| ≤ 1 / 2000) (hfits : fits d m ks = true) :
    Reaches (Game.draw realTrig) p fun q => q.gameOver = true ∨ Rolling 393.216 q ∧
      |(|q.car.speed| - |((ks.getLastD m : ℤ) : ℝ)|)| ≤ 1 / 2000 ∧
        Lane side ((d + ks.sum : ℤ) : ℝ) 6 q := by
  induction ks generalizing p d m error with
  | nil =>
    have hle : error ≤ 6 := by simpa using herror
    refine .now (.inr ⟨h, hspeed, ?_⟩)
    rw [List.sum_nil, add_zero]
    exact ⟨hlane.1.trans hle, hlane.2.trans hle⟩
  | cons k ks ih =>
    simp only [fits, Bool.and_eq_true, decide_eq_true_eq] at hfits
    obtain ⟨⟨hk, ⟨hlo, hhi⟩, hland⟩, hrest⟩ := hfits
    rw [List.length_cons] at herror
    push_cast at herror
    have hlen : (0 : ℝ) ≤ ks.length := Nat.cast_nonneg _
    have hlo' : (20 : ℝ) ≤ |(100 * |(k : ℝ)| - 96 * |(m : ℝ)|)| := by exact_mod_cast hlo
    have hhi' : |(100 * |(k : ℝ)| - 96 * |(m : ℝ)|)| ≤ (1540 : ℝ) := by exact_mod_cast hhi
    -- the gas, and 96 times the gas at the speed `m`
    have hgas : 0.1 ≤ |(|(k : ℝ)| / 0.96 - |p.car.speed|)| ∧
        |(|(k : ℝ)| / 0.96 - |p.car.speed|)| ≤ 16.1 := by
      have hdiv : |(k : ℝ)| / 0.96 * 0.96 = |(k : ℝ)| := div_mul_cancel₀ _ (by norm_num)
      rw [abs_le] at hspeed hhi' ⊢
      refine ⟨?_, by constructor <;> linarith⟩
      rcases le_abs.mp hlo' with hpos | hneg
      · exact le_abs.mpr (.inl (by linarith))
      · exact le_abs.mpr (.inr (by linarith))
    obtain ⟨f, q, hq, hover | ⟨hroll, hspeed', hlane'⟩⟩ :=
      h.stride hside hlane (by linarith) hk hgas.1 hgas.2 hland
    · exact .cons hq (.now (.inl hover))
    · have hwalk := ih hroll hlane' (by linarith) hspeed' hrest
      rw [add_assoc, ← List.sum_cons, ← List.getLastD_cons] at hwalk
      exact .cons hq hwalk

/-- From the gate the ball can be taken over the outer wall, and slowed down behind it. -/
theorem Rolling.jump (h : Rolling 8 p) (hside : |side| = 1) (hlane : Lane side 360 5 p) :
    Reaches (Game.draw realTrig) p fun q => q.gameOver = true ∨ Rolling 8 q ∧ Inside q := by
  have hslow := h.slow
  have hspeed := abs_nonneg p.car.speed
  obtain ⟨f, q, hq, hover | ⟨hroll, hspeed', hlane'⟩⟩ :=
    Rolling.stride (d := 360) (k := 10) ⟨h.on, h.placed, h.slow.trans (by norm_num)⟩ hside
      (by exact_mod_cast hlane) (by norm_num) (by decide)
      (le_abs.mpr (.inl (by norm_num; linarith)))
      (abs_le.mpr ⟨by norm_num; linarith, by norm_num; linarith⟩) (by decide)
  · exact .cons hq (.now (.inl hover))
  have hfits : fits (360 + 10) 10 [24, -38, -49, -62, -45, -29, -13, -5] = true := by decide
  have hrun := hroll.strides hside hlane' (by norm_num) hspeed' hfits
  refine .cons hq (hrun.trans ?_)
  rintro r (hover | ⟨hroll, hlast, hx, hy⟩)
  · exact .now (.inl hover)
  · have hslow : |r.car.speed| ≤ 8 := by
      have hfive : |((List.getLastD [24, -38, -49, -62, -45, -29, -13, -5] 10 : ℤ) : ℝ)| = 5 := by
        norm_num
      rw [hfive] at hlast
      linarith [(abs_le.mp hlast).2]
    have hin : |r.car.x - 300| < 260 := by
      have hdist := abs_abs_sub_abs_le (r.car.x - 300)
        (side * ((360 + 10 + [24, -38, -49, -62, -45, -29, -13, -5].sum : ℤ) : ℝ))
      have hsum : |((360 + 10 + [24, -38, -49, -62, -45, -29, -13, -5].sum : ℤ) : ℝ)| = 153 := by
        norm_num
      rw [sub_sub, abs_mul, hside, hsum] at hdist
      linarith [(abs_le.mp (hdist.trans hx)).2]
    exact .now (.inr ⟨⟨hroll.on, hroll.placed, hslow⟩, 0, (lookup_lane hy).1 hin, by decide⟩)

end Jump

/-- From wherever the ball rolls the game can be won. -/
theorem Rolling.wins {p : Page ℝ} (h : Rolling 393.216 p) :
    Reaches (Game.draw realTrig) p fun q => q.gameOver = true := by
  refine h.brake.trans ?_
  rintro q (hover | h)
  · exact .now hover
  obtain ⟨entry, hlook, hwall, -⟩ := h.placed.free
  have hrow := lookup_isSome_iff.mp (Option.isSome_of_eq_some hlook)
  by_cases hcol : cell q.car.x < 0 ∨ 15 ≤ cell q.car.x
  · obtain ⟨side, gate, hside, hbeside, hmid⟩ : ∃ (side : ℝ) (gate : ℤ), |side| = 1 ∧
        Beside (cell q.car.x) gate ∧ mid gate = 300 + side * 360 := by
      rcases hcol with hleft | hright
      · exact ⟨-1, -2, by norm_num, .inl ⟨hleft, rfl⟩, by norm_num [mid_eq]⟩
      · exact ⟨1, 16, by norm_num, .inr ⟨hright, rfl⟩, by norm_num [mid_eq]⟩
    refine (h.park hrow hbeside).trans ?_
    rintro r (hover | ⟨hroll, hway⟩)
    · exact .now hover
    obtain ⟨hx, hy⟩ := way_near hway
    have hseven : mid 7 = 300 := by norm_num [mid_eq]
    rw [hmid] at hx
    rw [hseven] at hy
    refine (hroll.jump hside ⟨hx, hy⟩).trans ?_
    rintro t (hover | ⟨hroll, hin⟩)
    · exact .now hover
    · exact hroll.finish hin
  · have hrange : InRange (cell q.car.y) (cell q.car.x) := by
      unfold InRange
      omega
    obtain ⟨v, hv⟩ := lookup_of_inRange hrange
    rw [hv] at hlook
    refine h.finish ⟨v, hv, ?_⟩
    rintro rfl
    exact hwall (Option.some.inj hlook).symm

/-! ## The page -/

section Page
open Browser (Event Shows Holds)

/-- The words of a frame on the bridge. -/
def words (f : Frame) : Channel → BitVec 16
  | .gx => f.gx
  | .gz => f.gz
  | _ => 0

/-- Each frame with an answer before it. -/
def drive (fs : List Frame) : List Event :=
  fs.flatMap fun f => [.answer (words f) getData, .frame]

/-- The script plays any frames. -/
theorem drive_shows (other : List Char → Char → List Char) {T : Trig ℝ} {s : Browser.State ℝ}
    {p q : Page ℝ} (h : Shows s (some p)) {fs : List Frame}
    (hq : fs.foldlM (draw T) p = some q) :
    Shows (Browser.run other T s (drive fs)) (some q) := by
  have hdata : getData <:+: cstr 0 getData := by
    rw [← CString.strstr_isSome_iff]
    decide
  induction fs generalizing s p with
  | nil =>
    cases hq
    exact h
  | cons f fs ih =>
    rw [List.foldlM_cons] at hq
    obtain ⟨p', hp', hrest⟩ := Option.bind_eq_some_iff.mp hq
    let s₁ := Browser.step other T s (.answer (words f) getData)
    have hshows : Shows s₁ (some p) := h
    have hholds : Holds s₁ (some f) := by
      have hanswer := Browser.holds_answer other s (words f) getData
      rwa [if_pos hdata] at hanswer
    have hdraw : Shows (s₁.draw T) (draw T p f) := Browser.draw_some hshows hholds
    have hframe : Browser.step other T s₁ .frame = s₁.draw T := if_pos hshows.1
    rw [hp', ← hframe] at hdraw
    exact ih hdraw hrest

/-- Frames stop only before the game is over. -/
theorem armed_or_on (other : List Char → Char → List Char) (T : Trig ℝ) (evs : List Event) :
    (Browser.run other T Browser.start evs).armed = true ∨
      (Browser.run other T Browser.start evs).gameOver = false := by
  refine Machine.run_keeps (I := fun s : Browser.State ℝ => s.armed = true ∨ s.gameOver = false)
    (fun s e h => ?_) (.inl rfl) evs
  cases e with
  | answer g bytes => exact h
  | frame =>
    unfold Browser.step
    dsimp only
    split
    · next harmed =>
      unfold Browser.State.draw
      split
      · exact .inl harmed
      · next on =>
        dsimp only
        split
        · exact .inr (by simpa using on)
        · exact .inl harmed
        · exact .inl harmed
        · exact .inl harmed
    · exact h

/-- After an exception the game is not won. -/
theorem armed_of_wins {other : List Char → Char → List Char} {T : Trig ℝ} {evs more : List Event}
    (hover : (Browser.run other T Browser.start (evs ++ more)).gameOver = true) :
    (Browser.run other T Browser.start evs).armed = true := by
  by_contra hdead
  have on := (armed_or_on other T evs).resolve_left hdead
  obtain ⟨-, -, hstill⟩ := Browser.run_dead other T (Bool.eq_false_of_not_eq_true hdead) more
  have happend : Browser.run other T Browser.start (evs ++ more) =
      Browser.run other T (Browser.run other T Browser.start evs) more := List.foldl_append
  rw [happend, hstill, on] at hover
  cases hover

/-- Before it there are frames that win it. -/
theorem exists_winning {other : List Char → Char → List Char} {evs : List Event}
    (harmed : (Browser.run other realTrig Browser.start evs).armed = true) :
    ∃ (p : Page ℝ) (fs : List Frame) (q : Page ℝ),
      Shows (Browser.run other realTrig Browser.start evs) (some p) ∧
        fs.foldlM (draw realTrig) p = some q ∧ q.gameOver = true := by
  obtain ⟨p, hgame, hshows⟩ := Browser.exists_game harmed
  have hplaced := Browser.Placed.start.run hgame
  obtain ⟨fs, q, hq, hover⟩ : Reaches (draw realTrig) p fun q => q.gameOver = true := by
    cases on : p.gameOver with
    | true => exact .now on
    | false => exact Rolling.wins ⟨on, hplaced, hplaced.speed.le⟩
  exact ⟨p, fs, q, hshows, hq, hover⟩

/-- For every sequence of answers and frames, with any words and to any requests: as
long as the page asks for frames its game can be won, and after that it never is. -/
theorem winnable_iff_armed (other : List Char → Char → List Char) (evs : List Event) :
    (∃ more, (Browser.run other realTrig Browser.start (evs ++ more)).gameOver = true) ↔
      (Browser.run other realTrig Browser.start evs).armed = true := by
  constructor
  · rintro ⟨more, hover⟩
    exact armed_of_wins hover
  · intro harmed
    obtain ⟨p, fs, q, hshows, hq, hover⟩ := exists_winning harmed
    have hwon := drive_shows other hshows hq
    refine ⟨drive fs, ?_⟩
    have happend : Browser.run other realTrig Browser.start (evs ++ drive fs) =
        Browser.run other realTrig (Browser.run other realTrig Browser.start evs) (drive fs) :=
      List.foldl_append
    rw [happend]
    exact hwon.2.2.trans hover

end Page

end IotController.Winnable
