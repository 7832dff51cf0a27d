import IotController.Age
import IotController.Copies
import IotController.Display
import IotController.Winnable

/-! # The game played with the sensor

The whole system with the page's script: between the frames anything may happen from
the sensor to the network. The script sees the answers that are delivered, so it runs
as it does on answers alone, and the game it shows is the game over updates of the
outputs, up to a frame that is drawn with the server's own page; and since the page can
be brought to any registers, whoever holds the sensor can win as long as the page asks
for frames and the HTTP thread goes on. -/
namespace IotController.Play
open IotController.Controller IotController.Report IotController.Gateway
open IotController.Browser (Shows Holds)
open IotController.ClosedLoop (RegFile wordsAt sensorRegs)
open IotController.Pipeline (Channel)
open IotController.Game (Trig Frame)
open IotController.Misread (Answer)
open IotController.Response (getData)

section Script
variable {K : Type} [Field K] [LinearOrder K] [FloorRing K]

/-- The script's variables are those of the system's page. -/
@[ext] structure State (K : Type) where
  system : Gateway.State
  car : Browser.Car K
  gameOver : Bool
  armed : Bool

def State.script (s : State K) : Browser.State K := ⟨s.system.page, s.car, s.gameOver, s.armed⟩

inductive Event where
  | system (e : Gateway.Event)
  /-- the browser calls the frame it was asked for -/
  | frame

def State.draw (T : Trig K) (s : State K) : State K :=
  let d := s.script.draw T
  { s with car := d.car, gameOver := d.gameOver, armed := d.armed }

def step (other : List Char → Char → List Char) (ofst : BitVec 32) (T : Trig K) (s : State K) :
    Event → State K
  | .system e => { s with system := Gateway.step other ofst s.system e }
  | .frame => if s.armed then s.draw T else s

def run (other : List Char → Char → List Char) (ofst : BitVec 32) (T : Trig K) (s : State K)
    (evs : List Event) : State K :=
  Machine.run (step other ofst T) s evs

def initial (c : Regs) (regs : RegFile) (ptr : BitVec 8) : State K where
  system := Gateway.initial c regs ptr
  car := Browser.start.car
  gameOver := false
  armed := true

/-- What happens to the system in a run. -/
def systemEvents (evs : List Event) : List Gateway.Event :=
  evs.flatMap fun
    | .system e => [e]
    | .frame => []

theorem draw_script (T : Trig K) (s : State K) : (s.draw T).script = s.script.draw T :=
  Browser.State.ext (Browser.draw_vars T s.script).symm rfl rfl rfl

section Runs
variable (other : List Char → Char → List Char) (ofst : BitVec 32) (T : Trig K) (s : State K)

theorem run_append (evs evs' : List Event) :
    run other ofst T s (evs ++ evs') = run other ofst T (run other ofst T s evs) evs' :=
  Machine.run_append _ _ _ _

theorem run_system (evs : List Event) :
    (run other ofst T s evs).system = Gateway.run other ofst s.system (systemEvents evs) := by
  induction evs generalizing s with
  | nil => rfl
  | cons e evs ih =>
    cases e with
    | system e => exact ih (step other ofst T s (.system e))
    | frame =>
      have hsame : (step other ofst T s .frame).system = s.system := by
        unfold step
        dsimp only
        split <;> rfl
      exact (ih (step other ofst T s .frame)).trans (by rw [hsame]; rfl)

/-- The script stands still between frames. -/
theorem run_map_system (evs : List Gateway.Event) :
    run other ofst T s (evs.map .system) =
      { s with system := Gateway.run other ofst s.system evs } := by
  induction evs generalizing s with
  | nil => rfl
  | cons e evs ih => exact ih (step other ofst T s (.system e))

end Runs

/-! ## Towards the script -/

/-- What the script sees of a step: an answer that is delivered, and a frame. -/
def visible (s : State K) : Event → List Browser.Event
  | .system (.deliver t) =>
    match s.system.inFlight.find? (·.time = t) with
    | some p => s.system.answers[p.time]?.toList.map fun a => .answer a.words a.request
    | none => []
  | .system _ => []
  | .frame => [.frame]

/-- The answers under way are those the thread has given. -/
structure Answered (other : List Char → Char → List Char) (s : State K) : Prop where
  sound : Polling.Sound (setup other) s.system.net
  waits : Waits s.system

section Answered
variable {other : List Char → Char → List Char} {ofst : BitVec 32} {T : Trig K} {s : State K}

theorem Answered.step (h : Answered other s) (e : Event) :
    Answered other (step other ofst T s e) := by
  cases e with
  | system e =>
    refine ⟨?_, h.waits.step e⟩
    have hnet : Machine.run (Polling.step (setup other)) s.system.net (message s.system e) =
        (Gateway.step other ofst s.system e).net := step_net h.waits e
    have hsound : Polling.Sound (setup other)
        (Machine.run (Polling.step (setup other)) s.system.net (message s.system e)) :=
      Machine.run_keeps (I := Polling.Sound (setup other)) (fun _ e h => h.step e) h.sound _
    rwa [hnet] at hsound
  | frame =>
    unfold Play.step
    dsimp only
    split
    · exact ⟨h.sound, h.waits⟩
    · exact h

theorem step_script (h : Answered other s) (e : Event) :
    Machine.run (Browser.step other T) s.script (visible s e) =
      (step other ofst T s e).script := by
  cases e with
  | frame =>
    rw [visible, Machine.run_cons, Browser.step, step]
    by_cases harmed : s.armed = true
    · rw [if_pos harmed]
      exact (if_pos harmed).trans (draw_script T s).symm
    · rw [if_neg harmed]
      exact if_neg harmed
  | system e =>
    cases e with
    | deliver t =>
      simp only [visible, step, Gateway.step]
      cases hfind : s.system.inFlight.find? (·.time = t) with
      | none => rfl
      | some p =>
        obtain ⟨-, ⟨a, ha, htext⟩, -⟩ := h.sound.inFlight p (List.mem_of_find?_eq_some hfind)
        have ha' : s.system.answers[p.time]? = some a := ha
        have hpage : fetchData (a.text other) = fetchData p.text := congrArg fetchData htext.symm
        dsimp only
        rw [ha']
        exact Browser.State.ext hpage rfl rfl rfl
    | tick =>
      simp only [visible, step, Gateway.step, tickBus]
      split <;> rfl
    | main =>
      simp only [visible, step, Gateway.step, mainStep]
      split
      · rfl
      · split <;> rfl
    | http =>
      simp only [visible, step, Gateway.step, httpStep]
      split
      · split <;> rfl
      · rfl
    | accept r bytes | stall | sigpipe | loseRequest r =>
      simp only [visible, step, Gateway.step]
      split <;> rfl
    | sense f | press | send | loseResponse t => rfl

theorem script_simulation (other : List Char → Char → List Char) (ofst : BitVec 32)
    (T : Trig K) : Machine.Simulation (step other ofst T) (Browser.step other T) State.script
      visible (Answered other) (fun _ => True) where
  keeps := fun _ e h => h.step e
  back := fun _ _ _ => trivial
  simulates := fun _ e h _ => step_script h e

omit [LinearOrder K] [FloorRing K] in
theorem Answered.initial (c : Regs) (regs : RegFile) (ptr : BitVec 8) :
    Answered other (initial c regs ptr : State K) :=
  ⟨Polling.Sound.run [], fun r hr => by cases hr⟩

end Answered

/-- What the script sees of a run. -/
def seen (other : List Char → Char → List Char) (ofst : BitVec 32) (T : Trig K) (s : State K)
    (evs : List Event) : List Browser.Event :=
  Machine.labels (step other ofst T) visible s evs

/-- The script runs as it does on the answers that are delivered. -/
theorem run_script (other : List Char → Char → List Char) (ofst : BitVec 32) (T : Trig K)
    (c : Regs) (regs : RegFile) (ptr : BitVec 8) (evs : List Event) :
    (run other ofst T (initial c regs ptr) evs).script =
      Browser.run other T Browser.start (seen other ofst T (initial c regs ptr) evs) :=
  ((script_simulation other ofst T).run (Answered.initial c regs ptr) trivial).symm

/-! ## The game behind it -/

/-- What has happened to the system before each frame. -/
def beforeFrames : List Event → List (List Gateway.Event)
  | [] => []
  | .system e :: evs => (beforeFrames evs).map (e :: ·)
  | .frame :: evs => [] :: beforeFrames evs

theorem beforeFrames_system (l : List Gateway.Event) (evs : List Event) :
    beforeFrames (l.map .system ++ evs) = (beforeFrames evs).map (l ++ ·) := by
  induction l with
  | nil => exact (List.map_id _).symm
  | cons e l ih =>
    rw [List.map_cons, List.cons_append, beforeFrames, ih, List.map_map]
    rfl

theorem systemEvents_system (l : List Gateway.Event) (evs : List Event) :
    systemEvents (l.map .system ++ evs) = l ++ systemEvents evs := by
  induction l with
  | nil => rfl
  | cons e l ih => exact congrArg (e :: ·) ih

/-- The updates a frame finds on the page, channel by channel; nothing if the page was set
from the server's own. -/
def found (other : List Char → Char → List Char) (ofst : BitVec 32) (s : Gateway.State)
    (pre : List Gateway.Event) : Option (Channel → ℕ) :=
  if ∀ a ∈ (Gateway.run other ofst s pre).lastAnswer, a.Asks then
    some (pageNumbers other ofst s pre)
  else none

section Found
variable {other : List Char → Char → List Char} {ofst : BitVec 32} {s : Gateway.State}
  {pre : List Gateway.Event}

end Found

/-- The frame of the updates with these numbers. -/
def frameOf (updates : List Update) (no : Channel → ℕ) : Frame :=
  ⟨vals updates (no .gx) .gx, vals updates (no .gz) .gz⟩

section Frames
variable {other : List Char → Char → List Char} {ofst : BitVec 32}
  (aligned : ofst &&& hwRegsMask = 0) (c : Regs) (regs : RegFile) (ptr : BitVec 8)
include aligned

omit [Field K] [LinearOrder K] [FloorRing K] in
/-- The page holds what a frame finds on it. -/
theorem page_holds (pre : List Gateway.Event) {H : List Update} {s : State K}
    (hs : s.system = Gateway.run other ofst (Gateway.initial c regs ptr) pre)
    (hH : s.system.updates <+: H) :
    Holds s.script
      ((found other ofst (Gateway.initial c regs ptr) pre).map (frameOf H)) := by
  have hvars : s.script.vars = (Gateway.run other ofst (Gateway.initial c regs ptr) pre).page := by
    rw [← hs]
    rfl
  rw [hs] at hH
  unfold Holds found
  rcases page_cases_data aligned c regs ptr pre hH with ⟨hzero, hnone⟩ | hmisread | ⟨hasks, hpage⟩
  · have hlast : (Gateway.run other ofst (Gateway.initial c regs ptr) pre).lastAnswer = none := by
      rw [State.lastAnswer, hnone]
      rfl
    have hno : pageNumbers other ofst (Gateway.initial c regs ptr) pre = fun _ => 0 := by
      rw [pageNumbers, hnone]
      rfl
    rw [if_pos (by simp [hlast]), Option.map_some, hvars, hzero, hno]
    exact ⟨rfl, rfl⟩
  · obtain ⟨a, ha, hnot⟩ := hmisread.answer
    rw [if_neg fun hasks => hnot (hasks a ha), Option.map_none, hvars]
    exact hmisread.page.gz
  · rw [if_pos hasks, Option.map_some, hvars, hpage]
    exact ⟨rfl, rfl⟩

theorem run_shows (T : Trig K) (pre : List Gateway.Event) {H : List Update} {s : State K}
    {r : Option (Game.Page K)}
    (hs : s.system = Gateway.run other ofst (Gateway.initial c regs ptr) pre)
    (h : Shows s.script r) (evs : List Event)
    (hH : (run other ofst T s evs).system.updates <+: H) :
    Shows (run other ofst T s evs).script (r.bind fun p =>
      ((beforeFrames evs).map fun mid => (found other ofst (Gateway.initial c regs ptr)
        (pre ++ mid)).map (frameOf H)).foldlM (Browser.drawFrame T) p) := by
  induction evs generalizing pre s r with
  | nil => cases r <;> exact h
  | cons e evs ih =>
    cases e with
    | system e =>
      have hrun := ih (pre ++ [e]) (s := step other ofst T s (.system e)) (r := r)
        (by rw [Gateway.run_append, ← hs]; rfl) (by cases r <;> exact h) hH
      rw [beforeFrames, List.map_map]
      simp only [List.append_assoc, List.singleton_append] at hrun
      exact hrun
    | frame =>
      cases r with
      | none =>
        have harmed : s.armed = false := h
        have hsame : step other ofst T s .frame = s := if_neg (by rw [harmed]; decide)
        refine ih pre (s := step other ofst T s .frame) (r := none) ?_ ?_ hH
        · rw [hsame, hs]
        · rw [hsame]
          exact h
      | some p =>
        have hstep : step other ofst T s .frame = s.draw T := if_pos h.1
        have hgrow : s.system.updates <+: H := by
          refine List.IsPrefix.trans ?_ hH
          rw [run_system]
          exact run_updates other ofst s.system _
        have hdraw := Browser.draw_shows (T := T) h (page_holds aligned c regs ptr pre hs hgrow)
        rw [← draw_script, ← hstep] at hdraw
        have hrun := ih pre (s := step other ofst T s .frame) (by rw [hstep]; exact hs) hdraw hH
        rw [beforeFrames, List.map_cons, Option.bind_some, List.foldlM_cons, List.append_nil]
        exact hrun

end Frames

/-! ## Results -/

section Results
variable (other : List Char → Char → List Char) (ofst : BitVec 32)
  (aligned : ofst &&& hwRegsMask = 0) (c : Regs) (regs : RegFile) (ptr : BitVec 8)
include aligned

end Results

end Script

section Gentle
variable {K : Type} [Field K] [LinearOrder K] [IsStrictOrderedRing K] [FloorRing K]

theorem vals_gentle {updates : List Update}
    (gentle : ∀ u ∈ updates, |(shown u.out .gx).toInt| ≤ 3333) (n : ℕ) :
    |(vals updates n .gx).toInt| ≤ 3333 := by
  have hzero : |(0 : BitVec 16).toInt| ≤ 3333 := by decide
  cases n with
  | zero => exact hzero
  | succ n =>
    rw [vals]
    cases hu : updates[n]? with
    | none => exact hzero
    | some u => exact gentle u (List.mem_of_getElem? hu)

/-- Slow frames are drawn to the end, and leave the ball in the maze. -/
theorem exists_inside {T : Trig K} {p : Game.Page K} {fs : List Frame} (hin : Game.Inside p)
    (hs : Game.Throughout T Game.Slow p fs) :
    ∃ q, fs.foldlM (Game.draw T) p = some q ∧ Game.Inside q := by
  induction fs generalizing p with
  | nil => exact ⟨p, rfl, hin⟩
  | cons f fs ih =>
    obtain ⟨q, hq, hinq, -⟩ := Game.draw_slow (T := T) hin hs.1
    obtain ⟨r, hr, hinr⟩ := ih hinq (hs.2 q hq)
    refine ⟨r, ?_, hinr⟩
    rw [List.foldlM_cons, hq]
    exact hr

variable (other : List Char → Char → List Char) (ofst : BitVec 32)
  (aligned : ofst &&& hwRegsMask = 0) (c : Regs) (regs : RegFile) (ptr : BitVec 8)
include aligned

/-- If KEY[0] is not pressed, the sensor never has more than 3333 on its X gyro and no
frame comes while the variables are set from the server's own page, then whatever else
happens the script never stops asking for frames and the ball stays in the cells of the
maze that are open. -/
theorem gentle_keeps_playing (T : Trig K) (evs : List Event) (unpressed : .press ∉ systemEvents evs)
    (gentle : ∀ pre, pre <+: systemEvents evs → |(shown (wordsAt regAddrStart (Gateway.run other
      ofst (Gateway.initial c regs ptr) pre).bus.slave.mem.regs) .gx).toInt| ≤ 3333)
    (asks : ∀ pre ∈ beforeFrames evs,
      ∀ a ∈ (Gateway.run other ofst (Gateway.initial c regs ptr) pre).lastAnswer, a.Asks) :
    ∃ p : Game.Page K, Shows (run other ofst T (initial c regs ptr) evs).script (some p) ∧
      Game.Inside p := by
  let no := pageNumbers other ofst (Gateway.initial c regs ptr)
  let H := (run other ofst T (initial c regs ptr) evs).system.updates
  have hupdates : ∀ u ∈ H, |(shown u.out .gx).toInt| ≤ 3333 := by
    intro u hu
    have hu' : u ∈ (run other ofst T (initial c regs ptr) evs).system.updates := hu
    rw [run_system] at hu'
    obtain ⟨pre, hpre, hout⟩ := (read_of_unpressed c regs ptr unpressed).2 u hu'
    rw [hout]
    exact gentle pre hpre
  have hstart : Shows (initial c regs ptr : State K).script (some Game.start) := ⟨rfl, rfl, rfl⟩
  have hshows : Shows (run other ofst T (initial c regs ptr) evs).script _ :=
    run_shows aligned c regs ptr T [] rfl hstart evs List.prefix_rfl
  have hfound : ((beforeFrames evs).map fun pre =>
      (found other ofst (Gateway.initial c regs ptr) ([] ++ pre)).map (frameOf H)) =
        ((beforeFrames evs).map fun pre => frameOf H (no pre)).map some := by
    rw [List.map_map]
    exact List.map_congr_left fun pre hpre => congrArg _ (if_pos (asks pre hpre))
  have hslow : Game.Throughout T Game.Slow Game.start
      ((beforeFrames evs).map fun pre => frameOf H (no pre)) := by
    refine Game.slow_run_of_gentle (by simp [Game.start]) fun f hf => ?_
    obtain ⟨pre, -, rfl⟩ := List.mem_map.mp hf
    exact vals_gentle hupdates (no pre .gx)
  obtain ⟨p, hp, hin⟩ := exists_inside Game.inside_start hslow
  rw [Option.bind_some, hfound, List.foldlM_map] at hshows
  have hgame : ((beforeFrames evs).map fun pre => frameOf H (no pre)).foldlM
      (fun p f => Browser.drawFrame T p (some f)) Game.start = some p := hp
  rw [hgame] at hshows
  exact ⟨p, hshows, hin⟩

end Gentle

/-! ### Holding it -/

/-- Registers that read as a frame. -/
def held (f : Frame) : RegFile := fun a =>
  if a = 0x43 then f.gx.extractLsb' 8 8
  else if a = 0x44 then f.gx.extractLsb' 0 8
  else if a = 0x47 then f.gz.extractLsb' 8 8
  else if a = 0x48 then f.gz.extractLsb' 0 8
  else 0

theorem bytes (v : BitVec 16) : v.extractLsb' 8 8 ++ v.extractLsb' 0 8 = v := by
  rw [BitVec.extractLsb'_append_extractLsb'_eq_extractLsb' (show 8 = 0 + 8 from rfl)]
  exact BitVec.extractLsb'_eq_self

theorem shown_held (f : Frame) : shown (wordsAt regAddrStart (held f)) .gx = f.gx ∧
    shown (wordsAt regAddrStart (held f)) .gz = f.gz := by
  rw [Display.shown_wordsAt, Display.shown_wordsAt]
  exact ⟨bytes f.gx, bytes f.gz⟩

section Still
variable (other : List Char → Char → List Char) (ofst : BitVec 32)

/-- Left alone, the bus sees ticks only. -/
theorem bus_of_still (s : Gateway.State) {evs : List Gateway.Event}
    (still : ∀ e ∈ evs, Age.disturbs e = false) : (Gateway.run other ofst s evs).bus =
      ClosedLoop.run sensorRegs regAddrStart s.bus (ClosedLoop.ticks (Age.ticksIn evs)) := by
  induction evs using List.reverseRecOn with
  | nil => rfl
  | append_singleton evs e ih =>
    have hbefore := ih fun e he => still e (List.mem_append_left _ he)
    rw [Age.run_snoc, show Age.ticksIn (evs ++ [e]) = _ from List.countP_append]
    have quiet {e : Gateway.Event} (he : e.isBus = false) (htick : Age.isTick e = false) :
        (Gateway.step other ofst (Gateway.run other ofst s evs) e).bus =
          ClosedLoop.run sensorRegs regAddrStart s.bus
            (ClosedLoop.ticks (evs.countP Age.isTick + [e].countP Age.isTick)) := by
      rw [(step_quiet other ofst _ he).1, hbefore, List.countP_cons_of_neg (by simp [htick])]
      rfl
    cases e with
    | tick =>
      rw [Responsive.tick_bus, hbefore]
      exact (Copies.run_ticks_succ _).symm
    | press | sense f => cases still _ (List.mem_append_right evs (List.mem_singleton_self _))
    | main | send | accept r bytes | stall | http | sigpipe | deliver r | loseRequest r
    | loseResponse r => exact quiet rfl rfl

/-- A sensor that is awake and held keeps what it holds. -/
theorem regs_of_still (c : Regs) (ptr : BitVec 8) (f : Frame) {evs : List Gateway.Event}
    (still : ∀ e ∈ evs, Age.disturbs e = false) :
    (Gateway.run other ofst (Gateway.initial c (held f) ptr) evs).bus.slave.mem.regs = held f := by
  obtain ⟨h, hc⟩ := ClosedLoop.Joined.initial (W := sensorRegs) (P := regAddrStart) c (held f) ptr
  rw [bus_of_still other ofst _ still]
  exact Copies.run_ticks_regs h hc (by rfl) _

end Still

/-- Held with 3000 on one gyro and -20000 on the other, the sensor is read twice, and the
page is polled before two frames. -/
theorem gentle_keeps_playing_held :
    let begun := Gateway.initial Samples.blank (held ⟨3000, -20000⟩) 0
    let polled := Age.settling ++ Age.polling
    let asked := Responsive.askNext Response.verbatim bridge
      (Gateway.run Response.verbatim bridge begun polled)
    ∃ p : Game.Page ℝ, Shows (run Response.verbatim bridge Game.realTrig
        (initial Samples.blank (held ⟨3000, -20000⟩) 0)
        ((polled ++ asked).map .system ++ [.frame, .frame])).script (some p) ∧
      Game.Inside p := by
  -- for any number of ticks: none of them is to be computed
  have plays (n : ℕ) :
      let begun := Gateway.initial Samples.blank (held ⟨3000, -20000⟩) 0
      let polled := List.replicate n .tick ++ Age.polling
      let asked := Responsive.askNext Response.verbatim bridge
        (Gateway.run Response.verbatim bridge begun polled)
      ∃ p : Game.Page ℝ, Shows (run Response.verbatim bridge Game.realTrig
          (initial Samples.blank (held ⟨3000, -20000⟩) 0)
          ((polled ++ asked).map .system ++ [.frame, .frame])).script (some p) ∧
        Game.Inside p := by
    intro begun polled asked
    have hpolled : ∀ e ∈ polled, e = .tick ∨ e = .main := fun e he =>
      (List.mem_append.mp he).imp List.eq_of_mem_replicate List.eq_of_mem_replicate
    have still : ∀ e ∈ polled ++ asked, Age.disturbs e = false := Age.still_of_polled hpolled _
    have hsystem : systemEvents ((polled ++ asked).map .system ++ [.frame, .frame]) =
        polled ++ asked := (systemEvents_system _ _).trans (List.append_nil _)
    refine gentle_keeps_playing Response.verbatim bridge (by decide) Samples.blank
      (held ⟨3000, -20000⟩) 0 Game.realTrig ((polled ++ asked).map .system ++ [.frame, .frame])
      ?_ (fun pre hpre => ?_) (fun pre hpre a ha => ?_)
    · rw [hsystem]
      exact Age.not_press_of_still still
    · rw [hsystem] at hpre
      rw [regs_of_still _ _ _ _ _ fun e he => still e (hpre.subset he), (shown_held _).1]
      decide
    · rw [beforeFrames_system, beforeFrames, beforeFrames, beforeFrames, List.map_cons,
        List.map_cons, List.map_nil, List.append_nil] at hpre
      obtain rfl : pre = polled ++ asked := by simpa using hpre
      obtain ⟨-, b, hb, hasks⟩ :=
        Age.asked_of_polled Samples.blank (held ⟨3000, -20000⟩) 0 hpolled
      exact Option.mem_unique hb ha ▸ hasks
  exact plays 111368

/-! ## Winning with the sensor -/

section Winning
variable {other : List Char → Char → List Char} {ofst : BitVec 32}
  (aligned : ofst &&& hwRegsMask = 0) (c : Regs) (regs : RegFile) (ptr : BitVec 8)
include aligned

/-- The page can be brought to any frame, and then the script draws it. -/
theorem can_draw (evs : List Event) {p q : Game.Page ℝ} {f : Frame}
    (up : (run other ofst Game.realTrig (initial c regs ptr) evs).system.Up)
    (h : Shows (run other ofst Game.realTrig (initial c regs ptr) evs).script (some p))
    (hq : Game.draw Game.realTrig p f = some q) :
    ∃ more, (run other ofst Game.realTrig (initial c regs ptr) (evs ++ more)).system.Up ∧
      Shows (run other ofst Game.realTrig (initial c regs ptr) (evs ++ more)).script (some q) := by
  rw [run_system] at up
  obtain ⟨more, -, hup, hpage⟩ :=
    Responsive.page_can_show other ofst aligned c regs ptr (systemEvents evs) up (held f)
  let s := run other ofst Game.realTrig (initial c regs ptr) evs
  let s₁ : State ℝ := { s with system := Gateway.run other ofst s.system more }
  have hsystem : s₁.system = Gateway.run other ofst (Gateway.initial c regs ptr)
      (systemEvents evs ++ more) := by
    rw [Gateway.run_append]
    exact congrArg (Gateway.run other ofst · more)
      (run_system other ofst Game.realTrig (initial c regs ptr) evs)
  have hvars : s₁.script.vars = pageOf (shown (wordsAt regAddrStart (held f))) := by
    rw [← hpage, ← hsystem]
    rfl
  have hholds : Holds s₁.script (some f) := by
    obtain ⟨hgx, hgz⟩ := shown_held f
    unfold Holds
    dsimp only
    rw [hvars, pageOf, hgx, hgz]
    exact ⟨rfl, rfl⟩
  have hshows : Shows s₁.script (some p) := h
  have hdraw := Browser.draw_some (T := Game.realTrig) hshows hholds
  have hframe : step other ofst Game.realTrig s₁ .frame = s₁.draw Game.realTrig := if_pos hshows.1
  have hrun : run other ofst Game.realTrig (initial c regs ptr)
      (evs ++ (more.map .system ++ [.frame])) = s₁.draw Game.realTrig := by
    rw [run_append, run_append, run_map_system]
    exact hframe
  rw [hq, ← draw_script, ← hrun] at hdraw
  refine ⟨more.map .system ++ [.frame], ?_, hdraw⟩
  rw [hrun]
  exact hsystem ▸ hup

theorem can_play (evs : List Event) {p q : Game.Page ℝ} {fs : List Frame}
    (up : (run other ofst Game.realTrig (initial c regs ptr) evs).system.Up)
    (h : Shows (run other ofst Game.realTrig (initial c regs ptr) evs).script (some p))
    (hq : fs.foldlM (Game.draw Game.realTrig) p = some q) :
    ∃ more,
      Shows (run other ofst Game.realTrig (initial c regs ptr) (evs ++ more)).script (some q) := by
  induction fs generalizing evs p with
  | nil =>
    cases hq
    exact ⟨[], by rwa [List.append_nil]⟩
  | cons f fs ih =>
    rw [List.foldlM_cons] at hq
    obtain ⟨p', hp', hrest⟩ := Option.bind_eq_some_iff.mp hq
    obtain ⟨more, hup, hshows⟩ := can_draw aligned c regs ptr evs up h hp'
    obtain ⟨more', hshows'⟩ := ih (evs ++ more) hup hshows hrest
    exact ⟨more ++ more', by rwa [← List.append_assoc]⟩

end Winning

section Results
variable (other : List Char → Char → List Char) (ofst : BitVec 32)
  (aligned : ofst &&& hwRegsMask = 0) (c : Regs) (regs : RegFile) (ptr : BitVec 8)
include aligned

/-- Whatever has happened from the sensor to the script: as long as the page asks for
frames and the HTTP thread goes on, holding the sensor the right way wins the game; once
the page has stopped asking nothing does. -/
theorem sensor_can_win_iff (evs : List Event) :
    let s := run other ofst Game.realTrig (initial c regs ptr) evs
    let wins := ∃ more,
      (run other ofst Game.realTrig (initial c regs ptr) (evs ++ more)).gameOver = true
    (s.system.Up → (wins ↔ s.armed = true)) ∧ (s.armed = false → ¬ wins) := by
  intro s wins
  have hscript (evs : List Event) := run_script other ofst Game.realTrig c regs ptr evs
  have harmed_of_wins : wins → s.armed = true := by
    rintro ⟨more, hover⟩
    have harmed : s.armed = _ := congrArg Browser.State.armed (hscript evs)
    have hover' := congrArg Browser.State.gameOver (hscript (evs ++ more))
    rw [seen, Machine.labels_append] at hover'
    exact harmed.trans (Winnable.armed_of_wins (hover'.symm.trans hover))
  refine ⟨fun up => ⟨harmed_of_wins, fun harmed => ?_⟩, fun dead hwins => ?_⟩
  · have hseen : (Browser.run other Game.realTrig Browser.start
        (seen other ofst Game.realTrig (initial c regs ptr) evs)).armed = true :=
      (congrArg Browser.State.armed (hscript evs)).symm.trans harmed
    obtain ⟨p, fs, q, hshows, hq, hover⟩ := Winnable.exists_winning hseen
    rw [← hscript] at hshows
    obtain ⟨more, -, -, hwon⟩ := can_play aligned c regs ptr evs up hshows hq
    exact ⟨more, hwon.trans hover⟩
  · exact Bool.noConfusion (dead.symm.trans (harmed_of_wins hwins))

end Results

/-- After KEY[0] and a request that is cut behind the method, before the next frame. -/
theorem sensor_can_win_pressed : ∃ more, (run Response.verbatim bridge Game.realTrig
    (initial Samples.blank (fun a => a) 0)
    ((.press :: fetch 0 (Response.ascii "GET")).map .system ++ more)).gameOver = true := by
  have up : (Gateway.run Response.verbatim bridge start
      (.press :: fetch 0 (Response.ascii "GET"))).Up := by decide +kernel
  have hrun := run_map_system Response.verbatim bridge Game.realTrig
    (initial Samples.blank (fun a => a) 0) (.press :: fetch 0 (Response.ascii "GET"))
  have hiff := (sensor_can_win_iff Response.verbatim bridge (by decide) Samples.blank (fun a => a) 0
    ((.press :: fetch 0 (Response.ascii "GET")).map .system)).1
  rw [hrun] at hiff
  exact (hiff up).mpr rfl

end IotController.Play
