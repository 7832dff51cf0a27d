import Mathlib.Algebra.Order.Floor.Ring
import Mathlib.Algebra.Order.Field.Basic
import Mathlib.Tactic.Linarith
import Mathlib.Tactic.FieldSimp
import Mathlib.Tactic.Positivity
import Mathlib.Analysis.SpecialFunctions.Trigonometric.Bounds

/-! # The ball in the maze

`draw` of the page, over any ordered field with a cosine and a sine. A frame
turns the ball by `gz`, pushes it by `gx` and tests the one cell it would end
in; the cells in between are not looked at. -/
namespace IotController.Game

/-! ## The page's variables -/

def tileSize : ℕ := 40

def maze : List (List ℕ) :=
  [[1, 1, 1, 1, 1, 1, 1, 1, 1, 1, 1, 1, 1, 1, 1],
   [1, 2, 0, 0, 0, 0, 1, 0, 0, 0, 0, 0, 0, 0, 1],
   [1, 1, 1, 1, 1, 0, 1, 0, 1, 1, 1, 1, 1, 0, 1],
   [1, 0, 0, 0, 0, 0, 0, 0, 0, 0, 0, 0, 1, 0, 1],
   [1, 0, 1, 1, 1, 1, 1, 1, 1, 1, 1, 0, 1, 0, 1],
   [1, 0, 1, 0, 0, 0, 0, 0, 0, 0, 0, 0, 1, 0, 1],
   [1, 0, 1, 0, 1, 1, 1, 1, 1, 1, 1, 1, 1, 0, 1],
   [1, 0, 0, 0, 0, 0, 0, 0, 0, 0, 0, 0, 0, 0, 1],
   [1, 1, 1, 1, 1, 1, 1, 1, 1, 1, 1, 1, 1, 3, 1],
   [1, 1, 1, 1, 1, 1, 1, 1, 1, 1, 1, 1, 1, 1, 1]]

/-- `a[i]` of a JavaScript array; `none` is undefined. -/
def index {α : Type} (a : List α) (i : ℤ) : Option α := if 0 ≤ i then a[i.toNat]? else none

/-- `maze[row][col]`: `none` if `maze[row]` is undefined, which throws. -/
def lookup (row col : ℤ) : Option (Option ℕ) := (index maze row).map fun r => index r col

/-- A cosine and a sine. -/
structure Trig (K : Type) [Field K] [LinearOrder K] where
  cos : K → K
  sin : K → K
  abs_cos_le : ∀ a, |cos a| ≤ 1
  abs_sin_le : ∀ a, |sin a| ≤ 1

@[ext] structure Car (K : Type) where
  x : K
  y : K
  angle : K
  speed : K

@[ext] structure Page (K : Type) where
  car : Car K
  gameOver : Bool

/-- The sensor values a frame finds. -/
structure Frame where
  gx : BitVec 16
  gz : BitVec 16

section Draw
variable {K : Type} [Field K] [LinearOrder K] [IsStrictOrderedRing K] [FloorRing K]

def start : Page K := ⟨⟨50, 50, 0, 0⟩, false⟩

/-- Values below 100 count as rest. -/
def deadband (v : BitVec 16) : K := if |v.toInt| < 100 then 0 else v.toInt

/-- `car.angle` and `car.speed` after the sensor values of the frame. -/
def Car.push (c : Car K) (f : Frame) : Car K :=
  { c with
    angle := c.angle + deadband f.gz / 5000
    speed := (c.speed + deadband f.gx / 2000) * 0.96 }

def Car.nextX (T : Trig K) (c : Car K) : K := c.x + T.cos c.angle * c.speed
def Car.nextY (T : Trig K) (c : Car K) : K := c.y + T.sin c.angle * c.speed

/-- The column of an x, or the row of a y. -/
def cell (v : K) : ℤ := ⌊v / tileSize⌋

/-- One call of `draw`; `none` is an exception, after which no frame follows. -/
def draw (T : Trig K) (p : Page K) (f : Frame) : Option (Page K) :=
  if p.gameOver then some p
  else
    let c := p.car.push f
    match lookup (cell (c.nextY T)) (cell (c.nextX T)) with
    | none => none
    | some (some 1) => some { p with car := { c with speed := c.speed * -0.5 } }
    | some (some 3) => some { car := c, gameOver := true }
    | some _ => some { p with car := { c with x := c.nextX T, y := c.nextY T } }

def run (T : Trig K) (fs : List Frame) : Option (Page K) := fs.foldlM (draw T) start

/-! ## Cells -/

/-- A cell of the maze that is not wall. -/
def Open (row col : ℤ) : Prop := ∃ v, lookup row col = some (some v) ∧ v ≠ 1

def InRange (row col : ℤ) : Prop := (0 ≤ row ∧ row < 10) ∧ 0 ≤ col ∧ col < 15

theorem lookup_of_inRange {row col : ℤ} (h : InRange row col) :
    ∃ v, lookup row col = some (some v) := by
  obtain ⟨⟨hr0, hr⟩, hc0, hc⟩ := h
  obtain ⟨r, rfl⟩ := Int.eq_ofNat_of_zero_le hr0
  obtain ⟨c, rfl⟩ := Int.eq_ofNat_of_zero_le hc0
  have all : ∀ r < 10, ∀ c < 15, (lookup (r : ℕ) (c : ℕ)).join.isSome = true := by decide
  have h := all r (by omega) c (by omega)
  cases hl : lookup (r : ℕ) (c : ℕ) with
  | none => rw [hl] at h; cases h
  | some o =>
    cases o with
    | none => rw [hl] at h; cases h
    | some v => exact ⟨v, rfl⟩

theorem inRange_of_lookup {row col : ℤ} {v : ℕ} (h : lookup row col = some (some v)) :
    InRange row col := by
  obtain ⟨r, hr, hv⟩ := Option.map_eq_some_iff.mp h
  unfold index at hr hv
  split at hr
  case isFalse => cases hr
  case isTrue hrow =>
    split at hv
    case isFalse => cases hv
    case isTrue hcol =>
      have hrlt : row.toNat < 10 := (List.getElem?_eq_some_iff.mp hr).1
      have hlen : r.length = 15 := by
        have all : ∀ r ∈ maze, r.length = 15 := by decide
        exact all r (List.mem_of_getElem? hr)
      have hclt := (List.getElem?_eq_some_iff.mp hv).1
      unfold InRange
      omega

/-- The maze is walled in. -/
theorem Open.inside {row col : ℤ} (h : Open row col) :
    (1 ≤ row ∧ row ≤ 8) ∧ 1 ≤ col ∧ col ≤ 13 := by
  obtain ⟨v, hl, hv⟩ := h
  obtain ⟨⟨hr0, hr⟩, hc0, hc⟩ := inRange_of_lookup hl
  obtain ⟨r, rfl⟩ := Int.eq_ofNat_of_zero_le hr0
  obtain ⟨c, rfl⟩ := Int.eq_ofNat_of_zero_le hc0
  have all : ∀ r < 10, ∀ c < 15, lookup (r : ℕ) (c : ℕ) = some (some 1) ∨
      (1 ≤ r ∧ r ≤ 8) ∧ 1 ≤ c ∧ c ≤ 13 := by decide
  rcases all r (by omega) c (by omega) with hw | hin
  · rw [hl] at hw
    exact absurd (Option.some.inj (Option.some.inj hw)) hv
  · omega

theorem Open.inRange_near {row col row' col' : ℤ} (h : Open row col) (hr : |row' - row| ≤ 1)
    (hc : |col' - col| ≤ 1) : InRange row' col' := by
  have hin := h.inside
  rw [abs_le] at hr hc
  unfold InRange
  omega

theorem cell_mono {a b : K} (h : a ≤ b) : cell a ≤ cell b :=
  Int.floor_le_floor (div_le_div_of_nonneg_right h (Nat.cast_nonneg _))

theorem cell_add_tile (a : K) : cell (a + 40) = cell a + 1 := by
  have h : (a + 40) / (tileSize : K) = a / tileSize + 1 := by
    rw [add_div, tileSize]
    norm_num
  rw [cell, h, Int.floor_add_one, cell]

theorem cell_near {a b : K} (h : |b - a| ≤ 40) : |cell b - cell a| ≤ 1 := by
  rw [abs_le] at h ⊢
  have hab : cell b ≤ cell (a + 40) := cell_mono (by linarith)
  have hba : cell a ≤ cell (b + 40) := cell_mono (by linarith)
  rw [cell_add_tile] at hab hba
  omega

/-- Between two points at most a tile apart lie only the cells of these two. -/
theorem cell_between {a b t : K} (h : |b - a| ≤ 40) (h0 : 0 ≤ t) (h1 : t ≤ 1) :
    cell (a + t * (b - a)) = cell a ∨ cell (a + t * (b - a)) = cell b := by
  have hnear := abs_le.mp (cell_near h)
  rcases le_total a b with hab | hba
  · have hlo : cell a ≤ cell (a + t * (b - a)) := cell_mono (by nlinarith)
    have hhi : cell (a + t * (b - a)) ≤ cell b := cell_mono (by nlinarith)
    omega
  · have hlo : cell b ≤ cell (a + t * (b - a)) := cell_mono (by nlinarith)
    have hhi : cell (a + t * (b - a)) ≤ cell a := cell_mono (by nlinarith)
    omega

/-! ## One frame -/

/-- The ball is in an open cell. -/
def Inside (p : Page K) : Prop := Open (cell p.car.y) (cell p.car.x)

/-- The frame looks up a cell of the maze. -/
def Looks (T : Trig K) (p : Page K) (f : Frame) : Prop :=
  p.gameOver = false → InRange (cell ((p.car.push f).nextY T)) (cell ((p.car.push f).nextX T))

/-- The speed the frame moves with is at most a tile. -/
def Slow (p : Page K) (f : Frame) : Prop := p.gameOver = false → |(p.car.push f).speed| ≤ 40

/-- The straight way from `p` to `q`, at `t` from 0 to 1. -/
def wayX (p q : Page K) (t : K) : K := p.car.x + t * (q.car.x - p.car.x)
def wayY (p q : Page K) (t : K) : K := p.car.y + t * (q.car.y - p.car.y)

/-- The straight way meets no wall. -/
def Clear (p q : Page K) : Prop := ∀ t, 0 ≤ t → t ≤ 1 → Open (cell (wayY p q t)) (cell (wayX p q t))

/-- The straight way meets no cell but those in the rows and columns of its ends. -/
structure Near (p q : Page K) : Prop where
  rows : ∀ t, 0 ≤ t → t ≤ 1 →
    cell (wayY p q t) = cell p.car.y ∨ cell (wayY p q t) = cell q.car.y
  cols : ∀ t, 0 ≤ t → t ≤ 1 →
    cell (wayX p q t) = cell p.car.x ∨ cell (wayX p q t) = cell q.car.x

/-- The ball stays, or goes where the frame looked. -/
inductive Moved (T : Trig K) (p : Page K) (f : Frame) (q : Page K) : Prop
  | stays (hx : q.car.x = p.car.x) (hy : q.car.y = p.car.y)
  | goes (hg : p.gameOver = false) (hx : q.car.x = (p.car.push f).nextX T)
      (hy : q.car.y = (p.car.push f).nextY T)

section Frame
variable {T : Trig K} {p q : Page K} {f : Frame}

omit [IsStrictOrderedRing K] in
theorem draw_looks (hin : Inside p) (hl : Looks T p f) :
    ∃ q, draw T p f = some q ∧ Inside q ∧ Moved T p f q := by
  cases hg : p.gameOver
  · obtain ⟨v, hv⟩ := lookup_of_inRange (hl hg)
    have hdraw : draw T p f = match some (some v) with
        | none => none
        | some (some 1) =>
          some { p with car := { p.car.push f with speed := (p.car.push f).speed * -0.5 } }
        | some (some 3) => some { car := p.car.push f, gameOver := true }
        | some _ => some { p with car :=
          { p.car.push f with x := (p.car.push f).nextX T, y := (p.car.push f).nextY T } } := by
      simp only [draw, hg, hv]
      rfl
    by_cases h1 : v = 1
    · subst h1
      exact ⟨_, hdraw, hin, .stays rfl rfl⟩
    · by_cases h3 : v = 3
      · subst h3
        exact ⟨_, hdraw, hin, .stays rfl rfl⟩
      · have hmove : draw T p f = some { p with car :=
            { p.car.push f with x := (p.car.push f).nextX T, y := (p.car.push f).nextY T } } := by
          rw [hdraw]
          split <;> simp_all
        exact ⟨_, hmove, ⟨v, hv, h1⟩, .goes hg rfl rfl⟩
  · exact ⟨p, if_pos hg, hin, .stays rfl rfl⟩

omit [IsStrictOrderedRing K] in
/-- Out of the maze the row is undefined and throws, or the entry is undefined and
the ball leaves. -/
theorem looks_of_draw (hd : draw T p f = some q) (hq : Inside q) : Looks T p f := by
  intro hg
  unfold draw at hd
  dsimp only at hd
  rw [if_neg (by simp [hg])] at hd
  cases hl : lookup (cell ((p.car.push f).nextY T)) (cell ((p.car.push f).nextX T)) with
  | none => rw [hl] at hd; cases hd
  | some o =>
    cases o with
    | some v => exact inRange_of_lookup hl
    | none =>
      rw [hl] at hd
      cases hd
      obtain ⟨v, hv, -⟩ := hq
      exact inRange_of_lookup hv

omit [FloorRing K] in
theorem push_near (c : Car K) (f : Frame) (h : |(c.push f).speed| ≤ 40) :
    |(c.push f).nextX T - c.x| ≤ 40 ∧ |(c.push f).nextY T - c.y| ≤ 40 := by
  have hx : (c.push f).nextX T - c.x = T.cos (c.push f).angle * (c.push f).speed :=
    add_sub_cancel_left _ _
  have hy : (c.push f).nextY T - c.y = T.sin (c.push f).angle * (c.push f).speed :=
    add_sub_cancel_left _ _
  have bound {s : K} (hs : |s| ≤ 1) : |s * (c.push f).speed| ≤ 40 := by
    rw [abs_mul]
    calc |s| * |(c.push f).speed| ≤ 1 * |(c.push f).speed| :=
          mul_le_mul_of_nonneg_right hs (abs_nonneg _)
      _ ≤ 40 := by rwa [one_mul]
  exact ⟨hx ▸ bound (T.abs_cos_le _), hy ▸ bound (T.abs_sin_le _)⟩

theorem Slow.looks (hs : Slow p f) (hin : Inside p) : Looks T p f := fun hg =>
  have hnear := push_near (T := T) p.car f (hs hg)
  hin.inRange_near (cell_near hnear.2) (cell_near hnear.1)

theorem Moved.near (hm : Moved T p f q) (hs : Slow p f) : Near p q := by
  cases hm with
  | stays hx hy =>
    exact ⟨fun _ _ _ => .inl (by rw [wayY, hy, sub_self, mul_zero, add_zero]),
      fun _ _ _ => .inl (by rw [wayX, hx, sub_self, mul_zero, add_zero])⟩
  | goes hg hx hy =>
    have hnear := push_near (T := T) p.car f (hs hg)
    rw [← hx, ← hy] at hnear
    exact ⟨fun _ h0 h1 => cell_between hnear.2 h0 h1, fun _ h0 h1 => cell_between hnear.1 h0 h1⟩

omit [IsStrictOrderedRing K] in
/-- A way that keeps its row or its column lies in its two cells. -/
theorem Near.clear (h : Near p q) (hp : Inside p) (hq : Inside q)
    (hs : cell p.car.y = cell q.car.y ∨ cell p.car.x = cell q.car.x) : Clear p q := by
  intro t h0 h1
  unfold Inside at hp hq
  rcases hs with hs | hs
  · have hrow : cell (wayY p q t) = cell p.car.y :=
      (h.rows t h0 h1).elim id fun h => h.trans hs.symm
    rcases h.cols t h0 h1 with hc | hc <;> rw [hrow, hc]
    · exact hp
    · rwa [hs]
  · have hcol : cell (wayX p q t) = cell p.car.x :=
      (h.cols t h0 h1).elim id fun h => h.trans hs.symm
    rcases h.rows t h0 h1 with hr | hr <;> rw [hcol, hr]
    · exact hp
    · rwa [hs]

theorem draw_slow (hin : Inside p) (hs : Slow p f) :
    ∃ q, draw T p f = some q ∧ Inside q ∧ Looks T p f ∧ Near p q ∧
      (cell p.car.y = cell q.car.y ∨ cell p.car.x = cell q.car.x → Clear p q) := by
  obtain ⟨q, hq, hqin, hm⟩ := draw_looks (T := T) hin (hs.looks hin)
  exact ⟨q, hq, hqin, hs.looks hin, hm.near hs, (hm.near hs).clear hin hqin⟩

end Frame

/-! ## Whole runs -/

/-- Every frame of the run meets `P`. -/
def Throughout (T : Trig K) (P : Page K → Frame → Prop) : Page K → List Frame → Prop
  | _, [] => True
  | p, f :: fs => P p f ∧ ∀ q, draw T p f = some q → Throughout T P q fs

section Runs
variable {T : Trig K} {p q : Page K} {f : Frame} {fs : List Frame}
  {P : Page K → Frame → Prop} {R : Page K → Frame → Page K → Prop}

omit [IsStrictOrderedRing K] in
/-- What a frame does from an open cell, every frame of a run does. -/
theorem Throughout.run
    (step : ∀ p f, Inside p → P p f → ∃ q, draw T p f = some q ∧ Inside q ∧ R p f q)
    (hin : Inside p) (hs : Throughout T P p fs) (pre : List Frame) (f : Frame) (post : List Frame)
    (h : fs = pre ++ f :: post) :
    ∃ q q', pre.foldlM (draw T) p = some q ∧ Inside q ∧
      draw T q f = some q' ∧ Inside q' ∧ R q f q' := by
  induction pre generalizing p fs with
  | nil =>
    subst h
    obtain ⟨q, hq, hk⟩ := step p f hin hs.1
    exact ⟨p, q, rfl, hin, hq, hk⟩
  | cons g pre ih =>
    subst h
    obtain ⟨q, hq, hk⟩ := step p g hin hs.1
    obtain ⟨r, r', hr, hrest⟩ := ih hk.1 (hs.2 q hq) rfl
    refine ⟨r, r', ?_, hrest⟩
    rw [List.foldlM_cons, hq]
    exact hr

/-- Every frame of the run draws, from an open cell into an open one. -/
def Stays (T : Trig K) (p : Page K) (fs : List Frame) : Prop :=
  ∀ pre f post, fs = pre ++ f :: post → ∃ q q', pre.foldlM (draw T) p = some q ∧ Inside q ∧
    draw T q f = some q' ∧ Inside q'

omit [IsStrictOrderedRing K] in
theorem Stays.looks (hs : Stays T p fs) : Throughout T (Looks T) p fs := by
  induction fs generalizing p with
  | nil => trivial
  | cons f fs ih =>
    obtain ⟨q, q', hq, -, hd, hin⟩ := hs [] f fs rfl
    cases hq
    refine ⟨looks_of_draw hd hin, ?_⟩
    intro r hr
    apply ih
    intro pre g post h
    obtain ⟨s, s', hrun, hrest⟩ := hs (f :: pre) g post (by rw [h, List.cons_append])
    rw [List.foldlM_cons, hr] at hrun
    exact ⟨s, s', hrun, hrest⟩

omit [IsStrictOrderedRing K] in
theorem Throughout.stays (hin : Inside p) (hl : Throughout T (Looks T) p fs) : Stays T p fs := by
  intro pre f post h
  obtain ⟨q, q', hq, hqin, hd, hqin', -⟩ :=
    Throughout.run (R := Moved T) (fun p f hp hl => draw_looks hp hl) hin hl pre f post h
  exact ⟨q, q', hq, hqin, hd, hqin'⟩

theorem inside_start : Inside (start : Page K) := by
  have h : cell (50 : K) = 1 := by
    rw [cell, Int.floor_eq_iff, tileSize]
    norm_num
  rw [Inside, start, h]
  exact ⟨2, rfl, by decide⟩

/-- A gas of at most 3333 never makes the ball faster than a tile a frame. -/
theorem slow_of_gentle (hg : |f.gx.toInt| ≤ 3333) (hp : |p.car.speed| ≤ 40) :
    |(p.car.push f).speed| ≤ 40 := by
  have hd : |(deadband f.gx : K)| ≤ 3333 := by
    unfold deadband
    split
    · simp
    · exact_mod_cast hg
  have hdef : (p.car.push f).speed = (p.car.speed + deadband f.gx / 2000) * 0.96 := rfl
  rw [hdef]
  rw [abs_le] at *
  constructor <;> linarith

theorem speed_draw (hq : draw T p f = some q) (hp : |p.car.speed| ≤ 40)
    (hs : |(p.car.push f).speed| ≤ 40) : |q.car.speed| ≤ 40 := by
  unfold draw at hq
  dsimp only at hq
  split at hq
  case isTrue => cases hq; exact hp
  case isFalse =>
    split at hq
    · cases hq
    · cases hq
      rw [abs_le] at *
      constructor <;> linarith
    · cases hq; exact hs
    · cases hq; exact hs

theorem slow_run_of_gentle (hp : |p.car.speed| ≤ 40) (hg : ∀ f ∈ fs, |f.gx.toInt| ≤ 3333) :
    Throughout T Slow p fs := by
  induction fs generalizing p with
  | nil => trivial
  | cons f fs ih =>
    have hs : |(p.car.push f).speed| ≤ 40 := slow_of_gentle (hg f List.mem_cons_self) hp
    refine ⟨fun _ => hs, ?_⟩
    intro q hq
    exact ih (speed_draw hq hp hs) fun g hm => hg g (List.mem_cons_of_mem _ hm)

end Runs

end Draw

/-! ## Results -/

/-- The cosine and sine of `Math`. -/
noncomputable def realTrig : Trig ℝ where
  cos := Real.cos
  sin := Real.sin
  abs_cos_le := Real.abs_cos_le_one
  abs_sin_le := Real.abs_sin_le_one

/-- The ball stays in open cells, and `draw` goes on, exactly as long as every
lookup is in the maze. That holds in every run that never moves faster than a tile
a frame, as one whose gas never exceeds 3333; there no move that keeps its row or
its column meets a wall, and a diagonal one meets at most the two cells beside it. -/
theorem ball_stays_iff (fs : List Frame) :
    (Stays realTrig start fs ↔ Throughout realTrig (Looks realTrig) start fs) ∧
    (Throughout realTrig Slow start fs → ∀ pre f post, fs = pre ++ f :: post →
      ∃ q q', run realTrig pre = some q ∧ Inside q ∧ draw realTrig q f = some q' ∧ Inside q' ∧
        Looks realTrig q f ∧ Near q q' ∧
        (cell q.car.y = cell q'.car.y ∨ cell q.car.x = cell q'.car.x → Clear q q')) ∧
    ((∀ f ∈ fs, |f.gx.toInt| ≤ 3333) → Throughout realTrig Slow start fs) :=
  ⟨⟨Stays.looks, Throughout.stays inside_start⟩,
    Throughout.run (fun _ _ hp hs => draw_slow hp hs) inside_start,
    slow_run_of_gentle (by simp [start])⟩

/-! ## Runs through walls -/

/-- Every frame looks up a cell of the maze and takes the ball into an open cell,
past no wall. -/
def Safe (fs : List Frame) : Prop :=
  ∀ pre f post, fs = pre ++ f :: post → ∃ q q', run realTrig pre = some q ∧
    draw realTrig q f = some q' ∧ Looks realTrig q f ∧ Inside q' ∧ Clear q q'

theorem cell_eq {v : ℝ} {n : ℤ} (h0 : 40 * n ≤ v) (h1 : v < 40 * n + 40) : cell v = n := by
  rw [cell, Int.floor_eq_iff, tileSize]
  constructor <;> push_cast <;> linarith

theorem deadband_eq {v : BitVec 16} {n : ℤ} (hv : v.toInt = n) (hn : 100 ≤ |n|) :
    (deadband v : ℝ) = n := by
  rw [deadband, hv, if_neg (not_lt.mpr hn)]

/-- The ball at distance `d` from the start in the direction `a`. -/
noncomputable def ray (a d angle v : ℝ) : Page ℝ :=
  ⟨⟨50 + d * Real.cos a, 50 + d * Real.sin a, angle, v⟩, false⟩

theorem start_eq_ray (a : ℝ) : (start : Page ℝ) = ray a 0 0 0 := by
  simp [start, ray]

section Ray
variable {a d d' angle v v' : ℝ} {f : Frame} {fs : List Frame} {p q : Page ℝ}

/-- A frame that ends in an empty cell takes the ball on along its ray. -/
theorem draw_ray {row col : ℤ} {n : ℕ} (ha : a = angle + deadband f.gz / 5000)
    (hv : v' = (v + deadband f.gx / 2000) * 0.96) (hd : d' = d + v')
    (hrow : cell (50 + d' * Real.sin a) = row) (hcol : cell (50 + d' * Real.cos a) = col)
    (h : lookup row col = some (some n)) (hn : n = 0 ∨ n = 2) :
    draw realTrig (ray a d angle v) f = some (ray a d' a v') := by
  have hpush : (ray a d angle v).car.push f =
      ⟨50 + d * Real.cos a, 50 + d * Real.sin a, a, v'⟩ := by rw [ha, hv]; rfl
  have hx : ((ray a d angle v).car.push f).nextX realTrig = 50 + d' * Real.cos a := by
    rw [hpush, Car.nextX, realTrig, hd]; ring
  have hy : ((ray a d angle v).car.push f).nextY realTrig = 50 + d' * Real.sin a := by
    rw [hpush, Car.nextY, realTrig, hd]; ring
  unfold draw
  dsimp only
  rw [hx, hy, hrow, hcol, h, hpush]
  rcases hn with rfl | rfl <;> rfl

theorem slow_ray (hv : v' = (v + deadband f.gx / 2000) * 0.96) (h : |v'| ≤ 40) :
    Slow (ray a d angle v) f := by
  intro _
  rwa [hv] at h

theorem run_cons (h : draw realTrig p f = some q) :
    (f :: fs).foldlM (draw realTrig) p = fs.foldlM (draw realTrig) q := by
  rw [List.foldlM_cons, h]
  rfl

theorem throughout_cons {P : Page ℝ → Frame → Prop} (hp : P p f) (h : draw realTrig p f = some q)
    (hs : Throughout realTrig P q fs) : Throughout realTrig P p (f :: fs) := by
  refine ⟨hp, ?_⟩
  intro r hr
  rw [h] at hr
  cases hr
  exact hs

end Ray

def gas (g : BitVec 16) : Frame := ⟨g, 0⟩

theorem deadband_gas_gz (g : BitVec 16) : (deadband (gas g).gz : ℝ) = 0 := by
  have h : |(0 : BitVec 16).toInt| < 100 := by decide
  exact if_pos h

/-- Straight ahead in the first corridor. -/
theorem draw_ahead {d v : ℝ} (d' v' : ℝ) (m col : ℤ) {g : BitVec 16} {n : ℕ} (hg : g.toInt = m)
    (hm : 100 ≤ |m|) (hv : v' = (v + m / 2000) * 0.96 ∧ d' = d + v')
    (hx : 40 * col ≤ 50 + d' ∧ 50 + d' < 40 * col + 40) (h : lookup 1 col = some (some n))
    (hn : n = 0 ∨ n = 2) : draw realTrig (ray 0 d 0 v) (gas g) = some (ray 0 d' 0 v') := by
  refine draw_ray ?_ ?_ hv.2 (cell_eq ?_ ?_) (cell_eq ?_ ?_) h hn
  · rw [deadband_gas_gz, zero_div, add_zero]
  · rw [hv.1, gas, deadband_eq hg hm]
  · norm_num
  · norm_num
  · simpa using hx.1
  · simpa using hx.2

/-- Full gas along the first corridor. -/
def corridor : List Frame := [gas 10000, gas 30400, gas 31600, gas 31800, gas 31960]

theorem run_corridor : run realTrig corridor = some (ray 0 166.08 0 60.96) := by
  have h1 : draw realTrig start (gas 10000) = some (ray 0 4.8 0 4.8) := by
    rw [start_eq_ray 0]
    exact draw_ahead 4.8 4.8 10000 1 rfl (by decide) (by norm_num) (by norm_num) rfl (.inr rfl)
  have h2 : draw realTrig (ray 0 4.8 0 4.8) (gas 30400) = some (ray 0 24 0 19.2) :=
    draw_ahead 24 19.2 30400 1 rfl (by decide) (by norm_num) (by norm_num) rfl (.inr rfl)
  have h3 : draw realTrig (ray 0 24 0 19.2) (gas 31600) = some (ray 0 57.6 0 33.6) :=
    draw_ahead 57.6 33.6 31600 2 rfl (by decide) (by norm_num) (by norm_num) rfl (.inl rfl)
  have h4 : draw realTrig (ray 0 57.6 0 33.6) (gas 31800) = some (ray 0 105.12 0 47.52) :=
    draw_ahead 105.12 47.52 31800 3 rfl (by decide) (by norm_num) (by norm_num) rfl (.inl rfl)
  have h5 : draw realTrig (ray 0 105.12 0 47.52) (gas 31960) = some (ray 0 166.08 0 60.96) :=
    draw_ahead 166.08 60.96 31960 5 rfl (by decide) (by norm_num) (by norm_num) rfl (.inl rfl)
  rw [run, corridor, run_cons h1, run_cons h2, run_cons h3, run_cons h4, run_cons h5]
  rfl

/-- One frame more, and the ball is behind the wall at the end of the corridor. -/
theorem not_safe_ahead : ¬ Safe (corridor ++ [gas 32080]) := by
  intro hs
  obtain ⟨q, q', hq, hd, -, -, hc⟩ := hs corridor (gas 32080) [] rfl
  rw [run_corridor] at hq
  cases hq
  have h6 : draw realTrig (ray 0 166.08 0 60.96) (gas 32080) = some (ray 0 240 0 73.92) :=
    draw_ahead 240 73.92 32080 7 rfl (by decide) (by norm_num) (by norm_num) rfl (.inl rfl)
  rw [h6] at hd
  cases hd
  have hx : cell (wayX (ray 0 166.08 0 60.96) (ray 0 240 0 73.92) 0.5) = 6 :=
    cell_eq (by norm_num [wayX, ray]) (by norm_num [wayX, ray])
  have hy : cell (wayY (ray 0 166.08 0 60.96) (ray 0 240 0 73.92) 0.5) = 1 :=
    cell_eq (by norm_num [wayY, ray]) (by norm_num [wayY, ray])
  have hopen := hc 0.5 (by norm_num) (by norm_num)
  rw [hx, hy] at hopen
  obtain ⟨v, hl, hv⟩ := hopen
  exact hv (Option.some.inj (Option.some.inj hl)).symm

/-- Turned across the corridor, `draw` looks for a row above the maze. -/
theorem not_safe_across : ¬ Safe (corridor ++ [⟨32080, -5000⟩]) := by
  intro hs
  obtain ⟨q, q', hq, -, hl, -⟩ := hs corridor ⟨32080, -5000⟩ [] rfl
  rw [run_corridor] at hq
  cases hq
  have hgx : (deadband (32080 : BitVec 16) : ℝ) = (32080 : ℤ) := deadband_eq rfl (by decide)
  have hgz : (deadband (-5000 : BitVec 16) : ℝ) = (-5000 : ℤ) := deadband_eq rfl (by decide)
  have hy : ((ray 0 166.08 0 60.96).car.push ⟨32080, -5000⟩).nextY realTrig =
      50 + Real.sin (-1) * 73.92 := by
    simp only [ray, Car.push, Car.nextY, realTrig, hgx, hgz, Real.sin_zero]
    norm_num
  have hsin : 3 / 4 < Real.sin 1 := by
    have h := Real.sin_gt_sub_cube one_pos
    linarith
  obtain ⟨⟨hrow, -⟩, -⟩ := hl rfl
  rw [hy, Real.sin_neg] at hrow
  have hneg : cell (50 + -Real.sin 1 * 73.92) < 0 := by
    rw [cell, Int.floor_lt, tileSize]
    push_cast
    linarith
  omega

/-- Slowly in a diagonal. -/
def diagonal : List Frame := [⟨30000, 1000⟩, gas 31200, gas 22400, gas 3200]

theorem sin_bounds : 0.198 < Real.sin 0.2 ∧ Real.sin 0.2 < 0.2 := by
  have h := Real.sin_gt_sub_cube (show (0 : ℝ) < 0.2 by norm_num)
  exact ⟨by norm_num at h ⊢; linarith, Real.sin_lt (by norm_num)⟩

theorem cos_bounds : 0.98 ≤ Real.cos 0.2 ∧ Real.cos 0.2 ≤ 1 := by
  have h := Real.one_sub_sq_div_two_le_cos (x := 0.2)
  exact ⟨by norm_num at h ⊢; linarith, Real.cos_le_one _⟩

theorem draw_diagonal {d angle v : ℝ} (d' v' : ℝ) (m row col : ℤ) {f : Frame} {n : ℕ}
    (ha : 0.2 = angle + deadband f.gz / 5000) (hg : f.gx.toInt = m) (hm : 100 ≤ |m|)
    (hv : v' = (v + m / 2000) * 0.96 ∧ 0 ≤ v' ∧ v' ≤ 40) (hd : d' = d + v' ∧ 0 ≤ d')
    (hy : 40 * row ≤ 50 + d' * 0.198 ∧ 50 + d' * 0.2 < 40 * row + 40)
    (hx : 40 * col ≤ 50 + d' * 0.98 ∧ 50 + d' < 40 * col + 40)
    (h : lookup row col = some (some n)) (hn : n = 0 ∨ n = 2) :
    Slow (ray 0.2 d angle v) f ∧
      draw realTrig (ray 0.2 d angle v) f = some (ray 0.2 d' 0.2 v') := by
  have hgx : v' = (v + deadband f.gx / 2000) * 0.96 := by rw [hv.1, deadband_eq hg hm]
  obtain ⟨hs0, hs1⟩ := sin_bounds
  obtain ⟨hc0, hc1⟩ := cos_bounds
  refine ⟨slow_ray hgx (abs_le.mpr ⟨by linarith, hv.2.2⟩),
    draw_ray ha hgx hd.1 (cell_eq ?_ ?_) (cell_eq ?_ ?_) h hn⟩
  · nlinarith
  · nlinarith
  · nlinarith
  · nlinarith

theorem gas_keeps (g : BitVec 16) : (0.2 : ℝ) = 0.2 + deadband (gas g).gz / 5000 := by
  rw [deadband_gas_gz, zero_div, add_zero]

theorem run_diagonal : Throughout realTrig Slow start (diagonal ++ [gas 3200]) ∧
    run realTrig diagonal = some (ray 0.2 120 0.2 38.4) ∧
    draw realTrig (ray 0.2 120 0.2 38.4) (gas 3200) = some (ray 0.2 158.4 0.2 38.4) := by
  have hgz : (deadband (1000 : BitVec 16) : ℝ) = (1000 : ℤ) := deadband_eq rfl (by decide)
  obtain ⟨s1, h1⟩ : Slow (ray 0.2 0 0 0) ⟨30000, 1000⟩ ∧
      draw realTrig (ray 0.2 0 0 0) ⟨30000, 1000⟩ = some (ray 0.2 14.4 0.2 14.4) :=
    draw_diagonal 14.4 14.4 30000 1 1 (by rw [hgz]; norm_num) rfl (by decide) (by norm_num)
      (by norm_num) (by norm_num) (by norm_num) rfl (.inr rfl)
  rw [← start_eq_ray] at s1 h1
  obtain ⟨s2, h2⟩ : Slow (ray 0.2 14.4 0.2 14.4) (gas 31200) ∧
      draw realTrig (ray 0.2 14.4 0.2 14.4) (gas 31200) = some (ray 0.2 43.2 0.2 28.8) :=
    draw_diagonal 43.2 28.8 31200 1 2 (gas_keeps _) rfl (by decide) (by norm_num) (by norm_num)
      (by norm_num) (by norm_num) rfl (.inl rfl)
  obtain ⟨s3, h3⟩ : Slow (ray 0.2 43.2 0.2 28.8) (gas 22400) ∧
      draw realTrig (ray 0.2 43.2 0.2 28.8) (gas 22400) = some (ray 0.2 81.6 0.2 38.4) :=
    draw_diagonal 81.6 38.4 22400 1 3 (gas_keeps _) rfl (by decide) (by norm_num) (by norm_num)
      (by norm_num) (by norm_num) rfl (.inl rfl)
  obtain ⟨s4, h4⟩ : Slow (ray 0.2 81.6 0.2 38.4) (gas 3200) ∧
      draw realTrig (ray 0.2 81.6 0.2 38.4) (gas 3200) = some (ray 0.2 120 0.2 38.4) :=
    draw_diagonal 120 38.4 3200 1 4 (gas_keeps _) rfl (by decide) (by norm_num) (by norm_num)
      (by norm_num) (by norm_num) rfl (.inl rfl)
  obtain ⟨s5, h5⟩ : Slow (ray 0.2 120 0.2 38.4) (gas 3200) ∧
      draw realTrig (ray 0.2 120 0.2 38.4) (gas 3200) = some (ray 0.2 158.4 0.2 38.4) :=
    draw_diagonal 158.4 38.4 3200 2 5 (gas_keeps _) rfl (by decide) (by norm_num) (by norm_num)
      (by norm_num) (by norm_num) rfl (.inl rfl)
  refine ⟨throughout_cons s1 h1 (throughout_cons s2 h2 (throughout_cons s3 h3
    (throughout_cons s4 h4 (throughout_cons s5 h5 trivial)))), ?_, h5⟩
  rw [run, diagonal, run_cons h1, run_cons h2, run_cons h3, run_cons h4]
  rfl

/-- Its last move cuts the corner of a wall: the way reaches the next row where it
is still in the column of the wall. -/
theorem not_clear_corner : ¬ Clear (ray 0.2 120 0.2 38.4) (ray 0.2 158.4 0.2 38.4) := by
  intro hc
  obtain ⟨hs0, hs1⟩ := sin_bounds
  obtain ⟨hc0, hc1⟩ := cos_bounds
  have hway (d : ℝ) : wayX (ray 0.2 120 0.2 38.4) (ray 0.2 158.4 0.2 38.4) ((d - 120) / 38.4) =
        50 + d * Real.cos 0.2 ∧
      wayY (ray 0.2 120 0.2 38.4) (ray 0.2 158.4 0.2 38.4) ((d - 120) / 38.4) =
        50 + d * Real.sin 0.2 := by
    simp only [wayX, wayY, ray]
    constructor <;> ring
  have hpos : 0 < Real.sin 0.2 := by linarith
  have htan : 0.2 * Real.cos 0.2 < Real.sin 0.2 := by
    have h := Real.lt_tan (show (0 : ℝ) < 0.2 by norm_num) (by linarith [Real.one_le_pi_div_two])
    rwa [Real.tan_eq_sin_div_cos, lt_div_iff₀ (by linarith)] at h
  have hdist : 30 / Real.sin 0.2 * Real.sin 0.2 = 30 := div_mul_cancel₀ _ hpos.ne'
  have hlo : 150 ≤ 30 / Real.sin 0.2 := by rw [le_div_iff₀ hpos]; linarith
  have hhi : 30 / Real.sin 0.2 ≤ 152 := by rw [div_le_iff₀ hpos]; linarith
  have hopen := hc ((30 / Real.sin 0.2 - 120) / 38.4) (by rw [le_div_iff₀ (by norm_num)]; linarith)
    (by rw [div_le_iff₀ (by norm_num)]; linarith)
  have hx : cell (50 + 30 / Real.sin 0.2 * Real.cos 0.2) = 4 := by
    refine cell_eq ?_ ?_
    · push_cast
      nlinarith
    · have hcot : 30 / Real.sin 0.2 * Real.cos 0.2 < 150 := by
        rw [div_mul_eq_mul_div, div_lt_iff₀ hpos]
        linarith
      push_cast
      linarith
  have hy : cell (50 + 30 / Real.sin 0.2 * Real.sin 0.2) = 2 := by
    rw [hdist]
    exact cell_eq (by norm_num) (by norm_num)
  rw [(hway _).1, (hway _).2, hx, hy] at hopen
  obtain ⟨v, hl, hv⟩ := hopen
  exact hv (Option.some.inj (Option.some.inj hl)).symm

theorem not_safe_diagonal : ¬ Safe (diagonal ++ [gas 3200]) := by
  intro hs
  obtain ⟨q, q', hq, hd, -, -, hc⟩ := hs diagonal (gas 3200) [] rfl
  rw [run_diagonal.2.1] at hq
  cases hq
  rw [run_diagonal.2.2] at hd
  cases hd
  exact not_clear_corner hc

/-- A fast ball passes a wall or stops the page, and a slow one can cut a corner. -/
theorem ball_passes_walls :
    ¬ Safe (corridor ++ [gas 32080]) ∧ ¬ Safe (corridor ++ [⟨32080, -5000⟩]) ∧
      Throughout realTrig Slow start (diagonal ++ [gas 3200]) ∧
      ¬ Safe (diagonal ++ [gas 3200]) :=
  ⟨not_safe_ahead, not_safe_across, run_diagonal.1, not_safe_diagonal⟩

end IotController.Game
