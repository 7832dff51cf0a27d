import IotController.Dashboard
import IotController.Game
import IotController.Misread
import Mathlib.Data.Option.NAry

/-! # The page in the browser

The page's variables are set from whatever text an answer has: the CSV line, or the
page itself when the server did not find `GET /data` in what it read. A number may
then be NaN, a frame that computes with it looks for the row NaN, and `draw` throws
before it asks for the next frame. On the data alone the page is the game over the
words of the sensor. -/
namespace IotController.Browser
open IotController.Pipeline (Channel)
open IotController.Report IotController.Response IotController.CString IotController.NumberText
open IotController.Game (Trig Frame)
open IotController.Misread (fetchData_asks fetchData_misread)

/-! ## The page's script -/

section Script
variable {K : Type} [Field K] [LinearOrder K] [FloorRing K]

/-- `car`; `none` is NaN. -/
@[ext] structure Car (K : Type) where
  x : Option K
  y : Option K
  angle : Option K
  speed : Option K

@[ext] structure State (K : Type) where
  /-- `ax` to `temp_raw` -/
  vars : Page
  car : Car K
  gameOver : Bool
  /-- the next frame has been asked for -/
  armed : Bool

def start : State K where
  vars := Dashboard.zeroPage
  car := ⟨some (50 : ℕ), some (50 : ℕ), some 0, some 0⟩
  gameOver := false
  armed := true

/-- `if (Math.abs(v) < 100) v = 0;`, which NaN passes. -/
def deadband (v : Option ℤ) : Option K := v.map fun n : ℤ => if |n| < 100 then 0 else (n : K)

def Car.push (c : Car K) (gx gz : Option ℤ) : Car K :=
  { c with
    angle := Option.map₂ (fun a s => a + s / (5000 : ℕ)) c.angle (deadband gz)
    speed := Option.map₂ (fun v g => (v + g / (2000 : ℕ)) * 0.96) c.speed (deadband gx) }

def Car.nextX (T : Trig K) (c : Car K) : Option K := do
  let x ← c.x
  let a ← c.angle
  let v ← c.speed
  return x + T.cos a * v

def Car.nextY (T : Trig K) (c : Car K) : Option K := do
  let y ← c.y
  let a ← c.angle
  let v ← c.speed
  return y + T.sin a * v

/-- `maze[row][col]`: there is no row NaN, and an entry NaN is undefined. -/
def lookup (row col : Option ℤ) : Option (Option ℕ) := do
  let r ← row
  let l ← Game.index Game.maze r
  return col.bind (Game.index l)

/-- One call of `draw`. An exception leaves what has been assigned before it. -/
def State.draw (T : Trig K) (s : State K) : State K :=
  if s.gameOver then s
  else
    let c := s.car.push s.vars.gx s.vars.gz
    match lookup ((c.nextY T).map Game.cell) ((c.nextX T).map Game.cell) with
    | none => { s with car := c, armed := false }
    | some (some 1) => { s with car := { c with speed := c.speed.map (· * -0.5) } }
    | some (some 3) => { s with car := c, gameOver := true }
    | some _ => { s with car := { c with x := c.nextX T, y := c.nextY T } }

inductive Event where
  /-- the answer to a request of which `read` delivered `bytes` arrives -/
  | answer (g : Channel → BitVec 16) (bytes : List (BitVec 8))
  /-- the browser calls the frame it was asked for -/
  | frame

def step (other : List Char → Char → List Char) (T : Trig K) (s : State K) : Event → State K
  | .answer g bytes => { s with vars := fetchData ((route g bytes).body other) }
  | .frame => if s.armed then s.draw T else s

def run (other : List Char → Char → List Char) (T : Trig K) (s : State K) (evs : List Event) :
    State K := evs.foldl (step other T) s

/-! ## The game behind it -/

/-- What the last answer gave a frame to compute with; nothing if it was the page. -/
def heard (given : Option Frame) : List Event → List (Option Frame)
  | [] => []
  | .answer g bytes :: evs =>
    heard (if getData <:+: cstr 0 bytes then some ⟨g .gx, g .gz⟩ else none) evs
  | .frame :: evs => given :: heard given evs

/-- A frame of the game, which stands still once it is over. -/
def drawFrame (T : Trig K) (p : Game.Page K) : Option Frame → Option (Game.Page K)
  | some f => Game.draw T p f
  | none => if p.gameOver then some p else none

def Car.of (c : Game.Car K) : Car K := ⟨some c.x, some c.y, some c.angle, some c.speed⟩

/-- The script has come as far as the game. -/
def Shows (s : State K) : Option (Game.Page K) → Prop
  | some p => s.armed = true ∧ s.car = .of p.car ∧ s.gameOver = p.gameOver
  | none => s.armed = false

/-- The variables hold what the last answer gave. -/
def Holds (s : State K) : Option Frame → Prop
  | some f => s.vars.gx = some f.gx.toInt ∧ s.vars.gz = some f.gz.toInt
  | none => s.vars.gz = none

omit [LinearOrder K] [FloorRing K] in
theorem push_of (c : Game.Car K) (f : Frame) :
    (Car.of c).push (some f.gx.toInt) (some f.gz.toInt) = .of (c.push f) := rfl

theorem lookup_some (row col : ℤ) : lookup (some row) (some col) = Game.lookup row col := by
  unfold lookup Game.lookup
  cases h : Game.index Game.maze row <;> simp [h]

theorem lookup_of (T : Trig K) (c : Game.Car K) :
    lookup (((Car.of c).nextY T).map Game.cell) (((Car.of c).nextX T).map Game.cell) =
      Game.lookup (Game.cell (c.nextY T)) (Game.cell (c.nextX T)) := lookup_some _ _

/-- With numbers in the variables a frame is a frame of the game. -/
theorem draw_some {T : Trig K} {s : State K} {p : Game.Page K} {f : Frame} (h : Shows s (some p))
    (hv : Holds s (some f)) : Shows (s.draw T) (Game.draw T p f) := by
  obtain ⟨harmed, hcar, hover⟩ := h
  obtain ⟨hgx, hgz⟩ := hv
  unfold State.draw Game.draw
  rw [hover, hcar, hgx, hgz, push_of]
  split
  · exact ⟨harmed, hcar, hover⟩
  · dsimp only
    rw [lookup_of]
    generalize Game.lookup (Game.cell ((p.car.push f).nextY T))
      (Game.cell ((p.car.push f).nextX T)) = entry
    rcases entry with _ | _ | v
    · rfl
    · exact ⟨harmed, rfl, rfl⟩
    · -- the entries that are looked at are 1 and 3
      rcases v with _ | _ | _ | _ | v
      · exact ⟨harmed, rfl, rfl⟩
      · exact ⟨harmed, rfl, rfl⟩
      · exact ⟨harmed, rfl, rfl⟩
      · exact ⟨harmed, rfl, rfl⟩
      · exact ⟨harmed, rfl, rfl⟩

omit [FloorRing K] in
theorem nextY_nan (T : Trig K) (c : Car K) (gx : Option ℤ) : (c.push gx none).nextY T = none := by
  obtain ⟨x, y, angle, speed⟩ := c
  cases y <;> cases angle <;> rfl

/-- With NaN for `gz` the heading is NaN, and so is the row: `draw` throws. -/
theorem draw_nan (T : Trig K) {s : State K} (on : s.gameOver = false) (hv : s.vars.gz = none) :
    s.draw T = { s with car := s.car.push s.vars.gx none, armed := false } := by
  unfold State.draw
  rw [on, hv]
  dsimp only
  rw [nextY_nan]
  rfl

theorem draw_none {T : Trig K} {s : State K} {p : Game.Page K} (h : Shows s (some p))
    (hv : s.vars.gz = none) : Shows (s.draw T) (drawFrame T p none) := by
  obtain ⟨harmed, hcar, hover⟩ := h
  cases on : p.gameOver with
  | true =>
    rw [drawFrame, on, State.draw, hover, on]
    exact ⟨harmed, hcar, hover⟩
  | false =>
    rw [drawFrame, on, draw_nan T (hover.trans on) hv]
    rfl

theorem draw_shows {T : Trig K} {s : State K} {p : Game.Page K} {given : Option Frame}
    (h : Shows s (some p)) (hv : Holds s given) : Shows (s.draw T) (drawFrame T p given) := by
  cases given with
  | none => exact draw_none h hv
  | some f => exact draw_some h hv

theorem draw_vars (T : Trig K) (s : State K) : (s.draw T).vars = s.vars := by
  unfold State.draw
  split
  · rfl
  · dsimp only
    split <;> rfl

omit [Field K] [LinearOrder K] [FloorRing K] in
/-- What an answer leaves in the variables. -/
theorem holds_answer (other : List Char → Char → List Char) (s : State K)
    (g : Channel → BitVec 16) (bytes : List (BitVec 8)) :
    Holds { s with vars := fetchData ((route g bytes).body other) }
      (if getData <:+: cstr 0 bytes then some ⟨g .gx, g .gz⟩ else none) := by
  have hasks := fetchData_asks other (a := ⟨g, bytes⟩)
  have hmisread := fetchData_misread other (a := ⟨g, bytes⟩)
  split
  · next h => exact ⟨congrArg Page.gx (hasks h), congrArg Page.gz (hasks h)⟩
  · next h => exact (hmisread h).gz

/-- A run of the script is a run of the game over what the answers gave. -/
theorem run_shows (other : List Char → Char → List Char) (T : Trig K) {s : State K}
    {r : Option (Game.Page K)} {given : Option Frame} (h : Shows s r) (hv : Holds s given)
    (evs : List Event) : Shows (run other T s evs)
      (r.bind fun p => (heard given evs).foldlM (drawFrame T) p) := by
  induction evs generalizing s r given with
  | nil => cases r <;> exact h
  | cons e evs ih =>
    cases e with
    | answer g bytes =>
      refine ih (s := step other T s (.answer g bytes)) ?_ (holds_answer other s g bytes)
      cases r <;> exact h
    | frame =>
      cases r with
      | none =>
        have hsame : step other T s .frame = s := by
          have harmed : s.armed = false := h
          rw [step, harmed]
          rfl
        have hrun := ih (s := step other T s .frame) (r := none) (by rw [hsame]; exact h)
          (by rw [hsame]; exact hv)
        exact hrun
      | some p =>
        have hstep : step other T s .frame = s.draw T := if_pos h.1
        have hholds : Holds (s.draw T) given := by
          have hvars := draw_vars T s
          cases given with
          | none => exact (congrArg Page.gz hvars).trans hv
          | some f =>
            exact ⟨(congrArg Page.gx hvars).trans hv.1, (congrArg Page.gz hvars).trans hv.2⟩
        have hrun := ih (s := step other T s .frame) (r := drawFrame T p given)
          (hstep ▸ draw_shows h hv) (hstep ▸ hholds)
        rw [heard, Option.bind_some, List.foldlM_cons]
        exact hrun

theorem run_start (other : List Char → Char → List Char) (T : Trig K) (evs : List Event) :
    Shows (run other T start evs)
      ((heard (some ⟨0, 0⟩) evs).foldlM (drawFrame T) Game.start) := by
  have hshows : Shows (start : State K) (some Game.start) := ⟨rfl, rfl, rfl⟩
  have hholds : Holds (start : State K) (some ⟨0, 0⟩) := ⟨rfl, rfl⟩
  exact run_shows other T hshows hholds evs

/-- As long as frames are asked for there is a game. -/
theorem exists_game {other : List Char → Char → List Char} {T : Trig K} {evs : List Event}
    (armed : (run other T start evs).armed = true) :
    ∃ p, (heard (some ⟨0, 0⟩) evs).foldlM (drawFrame T) Game.start = some p ∧
      Shows (run other T start evs) (some p) := by
  have hshows := run_start other T evs
  cases hgame : (heard (some ⟨0, 0⟩) evs).foldlM (drawFrame T) (Game.start (K := K)) with
  | none =>
    rw [hgame] at hshows
    exact absurd (armed.symm.trans hshows) (by decide)
  | some p =>
    rw [hgame] at hshows
    exact ⟨p, rfl, hshows⟩

/-! ## Results -/

/-- For every sequence of answers the server can give, with any words and to any
request, and every time a frame comes: the page shows the game over the words of the
answers, and asks for frames as long as the game has none to compute with NaN and
none that looks for a row that is not there. -/
theorem page_is_game (other : List Char → Char → List Char) (T : Trig K) (evs : List Event) :
    Shows (run other T start evs)
      ((heard (some ⟨0, 0⟩) evs).foldlM (drawFrame T) Game.start) := run_start other T evs

/-- Nothing brings the frames back. -/
theorem run_dead (other : List Char → Char → List Char) (T : Trig K) {s : State K}
    (h : s.armed = false) (evs : List Event) : (run other T s evs).armed = false ∧
      (run other T s evs).car = s.car ∧ (run other T s evs).gameOver = s.gameOver := by
  induction evs generalizing s with
  | nil => exact ⟨h, rfl, rfl⟩
  | cons e evs ih =>
    cases e with
    | answer g bytes => exact ih (s := step other T s (.answer g bytes)) h
    | frame =>
      have hsame : step other T s .frame = s := by
        rw [step, h]
        rfl
      rw [run, List.foldl_cons, hsame]
      exact ih h

/-- The page arrives for data, and a frame is drawn with it. -/
theorem dead_of_misread (other : List Char → Char → List Char) (T : Trig K) {s : State K}
    (on : s.gameOver = false) (g : Channel → BitVec 16) {bytes : List (BitVec 8)}
    (misread : ¬ getData <:+: cstr 0 bytes) :
    let d := step other T (step other T s (.answer g bytes)) .frame
    d.armed = false ∧ d.gameOver = false := by
  intro d
  have hgz := holds_answer other s g bytes
  rw [if_neg misread] at hgz
  cases harmed : s.armed with
  | false =>
    have hd : d = step other T s (.answer g bytes) := if_neg (by simp [step, harmed])
    rw [hd]
    exact ⟨harmed, on⟩
  | true =>
    have hd : d = (step other T s (.answer g bytes)).draw T := if_pos harmed
    rw [hd, draw_nan T (s := step other T s (.answer g bytes)) on hgz]
    exact ⟨rfl, on⟩

/-- One request that is read without `GET /data` in it, answered while the game is
on, and a frame before the next answer: the ball never moves again and the game is
never won, whatever answers follow. -/
theorem misread_request_ends_game (other : List Char → Char → List Char) (T : Trig K)
    (before : List Event) (on : (run other T start before).gameOver = false)
    (g : Channel → BitVec 16) {bytes : List (BitVec 8)} (misread : ¬ getData <:+: cstr 0 bytes)
    (after : List Event) :
    let s := run other T start (before ++ .answer g bytes :: .frame :: after)
    s.armed = false ∧ s.gameOver = false ∧
      ∀ more, (run other T s more).car = s.car ∧ (run other T s more).gameOver = false := by
  intro s
  have hs : s = run other T (step other T (step other T (run other T start before)
      (.answer g bytes)) .frame) after := List.foldl_append
  obtain ⟨harmed, hover⟩ := dead_of_misread other T on g misread
  obtain ⟨h1, -, h3⟩ := run_dead other T harmed after
  rw [← hs] at h1 h3
  refine ⟨h1, h3.trans hover, fun more => ?_⟩
  obtain ⟨-, h2', h3'⟩ := run_dead other T h1 more
  exact ⟨h2', h3'.trans (h3.trans hover)⟩

end Script

/-- A request cut after the method, in the first frame. -/
theorem misread_request_ends_game_method :
    (run verbatim Game.realTrig start [.answer (fun _ => 0) (ascii "GET"), .frame]).armed =
      false := by
  have misread : ¬ getData <:+: cstr 0 (ascii "GET") := by
    rw [← strstr_isSome_iff]
    decide
  exact (misread_request_ends_game verbatim Game.realTrig [] rfl (fun _ => 0) misread []).1

/-! ## Where the ball can be -/

section Ball
variable {K : Type} [Field K] [LinearOrder K] [IsStrictOrderedRing K] [FloorRing K]

/-- The ball is in a row of the maze, in no wall and not in the goal, and it is slower
than full gas for ever would make it. -/
structure Placed (p : Game.Page K) : Prop where
  free : ∃ v, Game.lookup (Game.cell p.car.y) (Game.cell p.car.x) = some v ∧
    v ≠ some 1 ∧ v ≠ some 3
  speed : |p.car.speed| < 393.216

omit [FloorRing K] in
theorem push_speed (c : Game.Car K) (f : Frame) :
    |(c.push f).speed| ≤ (|c.speed| + 16.384) * 0.96 := by
  have hgas : |(Game.deadband f.gx : K)| ≤ 32768 := by
    unfold Game.deadband
    split
    · norm_num
    · exact_mod_cast abs_toInt_le f.gx
  have hdef : (c.push f).speed = (c.speed + Game.deadband f.gx / 2000) * 0.96 := rfl
  have hspeed := abs_le.mp (le_refl |c.speed|)
  rw [abs_le] at hgas
  rw [hdef, abs_le]
  constructor <;> linarith

theorem Placed.draw {T : Trig K} {p q : Game.Page K} {f : Frame} (h : Placed p)
    (hq : Game.draw T p f = some q) : Placed q := by
  have hspeed : |(p.car.push f).speed| < 393.216 := by linarith [push_speed p.car f, h.speed]
  unfold Game.draw at hq
  dsimp only at hq
  split at hq
  case isTrue =>
    cases hq
    exact h
  case isFalse =>
    split at hq
    · cases hq
    · -- off the wall, and back
      cases hq
      refine ⟨h.free, ?_⟩
      rw [abs_lt] at hspeed ⊢
      constructor <;> linarith
    · cases hq
      exact ⟨h.free, hspeed⟩
    · next v h1 h3 hlook =>
      cases hq
      exact ⟨⟨v, hlook, fun hv => h1 (hv ▸ rfl), fun hv => h3 (hv ▸ rfl)⟩, hspeed⟩

theorem Placed.run {T : Trig K} {p q : Game.Page K} (h : Placed p) {given : List (Option Frame)}
    (hq : given.foldlM (drawFrame T) p = some q) : Placed q := by
  induction given generalizing p with
  | nil =>
    cases hq
    exact h
  | cons g given ih =>
    rw [List.foldlM_cons] at hq
    obtain ⟨p', hp', hrest⟩ := Option.bind_eq_some_iff.mp hq
    refine ih ?_ hrest
    cases g with
    | some f => exact h.draw hp'
    | none =>
      rw [drawFrame] at hp'
      split at hp'
      · cases hp'
        exact h
      · cases hp'

theorem Placed.start : Placed (Game.start : Game.Page K) where
  free := by
    have h : Game.cell (50 : K) = 1 := by
      rw [Game.cell, Int.floor_eq_iff, Game.tileSize]
      norm_num
    rw [Game.start, h]
    exact ⟨some 2, rfl, by decide, by decide⟩
  speed := by norm_num [Game.start]

/-- For every sequence of answers and frames, with any words: as long as frames are
asked for, the ball is where the maze has no wall and no goal (beyond its last column
there is neither), and its speed stays below the bound. -/
theorem ball_never_in_wall (other : List Char → Char → List Char) (T : Trig K)
    (evs : List Event) (armed : (Browser.run other T start evs).armed = true) :
    ∃ x y a v : K, (Browser.run other T start evs).car = ⟨some x, some y, some a, some v⟩ ∧
      |v| < 393.216 ∧ ∃ entry, Game.lookup (Game.cell y) (Game.cell x) = some entry ∧
        entry ≠ some 1 ∧ entry ≠ some 3 := by
  obtain ⟨p, hgame, -, hcar, -⟩ := exists_game armed
  have hplaced := Placed.start.run hgame
  exact ⟨_, _, _, _, hcar, hplaced.speed, hplaced.free⟩

end Ball

/-- One answer with gas in it, and a frame that drives with it. -/
def gas : List Event :=
  [.answer (fun c => if c = .gx then 400 else 0) getData, .frame]

theorem gas_armed : (Browser.run verbatim Game.realTrig start gas).armed = true := by
  have hdata : getData <:+: cstr 0 getData := by
    rw [← strstr_isSome_iff]
    decide
  have hx : Game.cell (50.192 : ℝ) = 1 := by
    rw [Game.cell, Int.floor_eq_iff, Game.tileSize]
    norm_num
  have hy : Game.cell (50 : ℝ) = 1 := by
    rw [Game.cell, Int.floor_eq_iff, Game.tileSize]
    norm_num
  have hpush : (Game.start (K := ℝ)).car.push ⟨400, 0⟩ = ⟨50, 50, 0, 0.192⟩ := by
    have hgx : Game.deadband (K := ℝ) 400 = 400 := by simp [Game.deadband]
    have hgz : Game.deadband (K := ℝ) 0 = 0 := by simp [Game.deadband]
    simp only [Game.Car.push, Game.start, hgx, hgz, Game.Car.mk.injEq]
    norm_num
  have hnextX : (⟨50, 50, 0, 0.192⟩ : Game.Car ℝ).nextX Game.realTrig = 50.192 := by
    simp only [Game.Car.nextX, Game.realTrig, Real.cos_zero]
    norm_num
  have hnextY : (⟨50, 50, 0, 0.192⟩ : Game.Car ℝ).nextY Game.realTrig = 50 := by
    simp only [Game.Car.nextY, Game.realTrig, Real.sin_zero]
    norm_num
  have hdraw : Game.draw Game.realTrig Game.start ⟨400, 0⟩ =
      some ⟨⟨50.192, 50, 0, 0.192⟩, false⟩ := by
    unfold Game.draw
    rw [hpush]
    dsimp only
    rw [hnextX, hnextY, hx, hy]
    rfl
  have hshows := run_start verbatim Game.realTrig gas
  rw [gas, heard, heard, if_pos hdata, List.foldlM_cons, drawFrame] at hshows
  exact (hdraw ▸ hshows).1

theorem ball_never_in_wall_gas :
    let s := Browser.run verbatim Game.realTrig start gas
    s.armed = true ∧ ∃ x y a v : ℝ, s.car = ⟨some x, some y, some a, some v⟩ ∧ |v| < 393.216 ∧
      ∃ entry, Game.lookup (Game.cell y) (Game.cell x) = some entry ∧
        entry ≠ some 1 ∧ entry ≠ some 3 :=
  ⟨gas_armed, ball_never_in_wall verbatim Game.realTrig gas gas_armed⟩

end IotController.Browser
