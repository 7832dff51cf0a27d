import IotController.Dashboard
import IotController.Freshness
import IotController.Machine
import IotController.Misread
import IotController.Recovery

/-! # The whole system

One state machine from the sensor to the page: a step is a tick of the controller with
the sensor on its bus, a change of the sensor between two transactions, KEY[0], one load
or store of `main`, one copy or the answer of the HTTP thread, or something that the
timer, the network or another client does, in any order. What one `read` delivers of a
request may be anything, so an answer may be the server's page; a client that sends
nothing stalls the thread, and a write to one that is gone may end the process. A read
that fails is a request that is lost; an answer that is cut short, or is for somebody
else, is an answer that is lost. Towards the FPGA the machine is a run of the
three-party pipeline, towards the page a run of a polling client, so what holds of their
runs holds of the whole. -/
namespace IotController.Gateway
open IotController.Controller IotController.I2c IotController.Sequencer IotController.ClosedLoop
open IotController.Pipeline (Channel Party)
open IotController.Report IotController.Recovery IotController.Freshness
open IotController.NumberText IotController.Misread

/-! ## The machine -/

/-- Why the outputs were set. -/
inductive Source where
  /-- KEY[0] -/
  | reset
  /-- the end of a read that found these registers -/
  | read (regs : RegFile)
  /-- the end of the first read after KEY[0] -/
  | firstRead

structure Update where
  out : Outputs
  source : Source

@[ext] structure State where
  bus : Loop
  /-- KEY[0] has been pressed -/
  pressed : Bool
  /-- what the outputs have been set to since power-up -/
  updates : List Update
  /-- where `main` is in its loop, and what it has loaded and not yet stored -/
  ch : Channel
  loaded : Option (BitVec 16)
  /-- `g_ax` to `g_temp` -/
  glob : Channel → BitVec 16
  /-- the request the HTTP thread has read, and the global it copies next -/
  request : Option ℕ
  pos : Option Channel
  /-- what `read` has delivered of the request -/
  recvBuf : List (BitVec 8)
  /-- the thread's locals -/
  locals : Channel → BitVec 16
  /-- the thread is in a `read` that does not return -/
  stalled : Bool
  /-- `SIGPIPE` has ended the process -/
  killed : Bool
  /-- requests sent, and those not yet answered -/
  sent : ℕ
  waiting : List ℕ
  answers : List Answer
  inFlight : List (Polling.Response (List Char))
  page : Page
  /-- the answers the page was set from, in order -/
  shown : List ℕ

inductive Event where
  | tick
  | sense (f : RegFile)
  /-- KEY[0] -/
  | press
  /-- `main` loads a register or stores a global -/
  | main
  /-- the timer calls `fetchData` -/
  | send
  /-- the HTTP thread reads `bytes` from the connection of request `r` -/
  | accept (r : ℕ) (bytes : List (BitVec 8))
  /-- it reads from a client that sends nothing and keeps the connection open -/
  | stall
  /-- the HTTP thread copies a global or answers -/
  | http
  /-- it writes to a client that is gone -/
  | sigpipe
  /-- answer `t` arrives -/
  | deliver (t : ℕ)
  | loseRequest (r : ℕ)
  | loseResponse (t : ℕ)

/-- Out of reset, with an idle sensor and nothing sent. -/
def initial (c : Regs) (regs : RegFile) (ptr : BitVec 8) : State where
  bus := ClosedLoop.initial c regs ptr
  pressed := false
  updates := []
  ch := .ax
  loaded := none
  glob := fun _ => 0
  request := none
  pos := some .ax
  recvBuf := []
  locals := fun _ => 0
  stalled := false
  killed := false
  sent := 0
  waiting := []
  answers := []
  inFlight := []
  page := Dashboard.zeroPage
  shown := []

abbrev regAddrStart : BitVec 8 := FpgaRtl.regAddrStart

/-- The HTTP thread goes on. -/
def State.Up (s : State) : Prop := s.stalled = false ∧ s.killed = false

instance (s : State) : Decidable s.Up := inferInstanceAs (Decidable (_ ∧ _))

/-- It is at `accept`, and then `read` has something to return. -/
def State.Accepts (s : State) (r : ℕ) (bytes : List (BitVec 8)) : Prop :=
  s.request = none ∧ s.Up ∧ r ∈ s.waiting ∧ 0 < bytes.length ∧ bytes.length < 1024

instance (s : State) (r : ℕ) (bytes : List (BitVec 8)) : Decidable (s.Accepts r bytes) :=
  inferInstanceAs (Decidable (_ ∧ _ ∧ _ ∧ _ ∧ _))

section Step
variable (other : List Char → Char → List Char) (ofst : BitVec 32) (s : State)

def tickBus : State :=
  let bus := s.bus.tick regAddrStart
  if s.bus.ctl.Commits then
    { s with
      bus := bus
      updates := s.updates ++ [⟨bus.ctl.out,
        if s.pressed ∧ s.bus.ended = 1 then .firstRead else .read s.bus.slave.mem.regs⟩] }
  else { s with bus := bus }

def press : State :=
  { s with
    bus := s.bus.reset
    pressed := true
    updates := s.updates ++ [⟨s.bus.reset.ctl.out, .reset⟩] }

def mainStep : State :=
  match s.loaded with
  | none => { s with loaded := some (readGlobal ofst s.bus.ctl.out s.ch) }
  | some v =>
    { s with glob := Function.update s.glob s.ch v, loaded := none, ch := following s.ch }

def httpStep : State :=
  match s.request, s.pos with
  | none, _ => s
  | some _, some c =>
    { s with locals := Function.update s.locals c (s.glob c), pos := c.next }
  | some r, none =>
    { s with
      request := none
      pos := some .ax
      waiting := s.waiting.filter (· ≠ r)
      answers := s.answers ++ [⟨s.locals, s.recvBuf⟩]
      inFlight :=
        s.inFlight ++ [⟨s.answers.length, Answer.text other ⟨s.locals, s.recvBuf⟩⟩] }

def step (s : State) : Event → State
  | .tick => tickBus s
  | .sense f => { s with bus := s.bus.sense sensorRegs f }
  | .press => press s
  | .main => if s.killed then s else mainStep ofst s
  | .send => { s with sent := s.sent + 1, waiting := s.waiting ++ [s.sent] }
  | .accept r bytes =>
    if s.Accepts r bytes then { s with request := some r, recvBuf := bytes } else s
  | .stall => if s.request = none ∧ s.Up then { s with stalled := true } else s
  | .http => if s.Up then httpStep other s else s
  | .sigpipe => if s.request ≠ none ∧ s.pos = none then { s with killed := true } else s
  | .deliver t =>
    match s.inFlight.find? (·.time = t) with
    | some p =>
      { s with
        inFlight := s.inFlight.filter (·.time ≠ t)
        page := fetchData p.text
        shown := s.shown ++ [t] }
    | none => s
  | .loseRequest r =>
    -- what the thread has read is not lost any more
    if s.request = some r then s else { s with waiting := s.waiting.filter (· ≠ r) }
  | .loseResponse t => { s with inFlight := s.inFlight.filter (·.time ≠ t) }

def run (s : State) (evs : List Event) : State := Machine.run (step other ofst) s evs

end Step

/-- What happens to the controller or the sensor. -/
def Event.isBus : Event → Bool
  | .tick | .press | .sense _ => true
  | _ => false

/-- Everything else leaves the bus and the outputs alone. -/
theorem step_quiet (other : List Char → Char → List Char) (ofst : BitVec 32) (s : State)
    {e : Event} (he : e.isBus = false) :
    (step other ofst s e).bus = s.bus ∧ (step other ofst s e).pressed = s.pressed ∧
      (step other ofst s e).updates = s.updates := by
  cases e with
  | tick | press | sense f => cases he
  | main =>
    simp only [step, mainStep]
    split
    · exact ⟨rfl, rfl, rfl⟩
    · split <;> exact ⟨rfl, rfl, rfl⟩
  | http =>
    simp only [step, httpStep]
    split
    · split <;> exact ⟨rfl, rfl, rfl⟩
    · exact ⟨rfl, rfl, rfl⟩
  | accept r bytes | stall | sigpipe | deliver t | loseRequest r =>
    simp only [step]
    split <;> exact ⟨rfl, rfl, rfl⟩
  | send | loseResponse t => exact ⟨rfl, rfl, rfl⟩

/-! ## What the outputs have held -/

/-- A reset clears the outputs, a read sets them to the registers it found; of the
first read after KEY[0] nothing is said. -/
def Update.Honest (u : Update) : Prop :=
  match u.source with
  | .reset => u.out = Outputs.zero
  | .read regs => u.out = wordsAt regAddrStart regs
  | .firstRead => True

/-- The bus is as after a reset, and a lost sensor has met KEY[0]. -/
structure Sound (s : State) : Prop where
  bus : ∃ lost, (lost = true → s.pressed = true) ∧ Tracked regAddrStart lost s.bus
  honest : ∀ u ∈ s.updates, u.Honest

section Sound
variable {other : List Char → Char → List Char} {ofst : BitVec 32} {s : State}

theorem Sound.initial (c : Regs) (regs : RegFile) (ptr : BitVec 8) :
    Sound (initial c regs ptr) where
  bus := ⟨false, fun h => absurd h (by decide), Tracked.initial c regs ptr⟩
  honest := by simp [Gateway.initial]

theorem Sound.ended_pos (h : Sound s) (hcm : s.bus.ctl.Commits) : 0 < s.bus.ended := by
  obtain ⟨lost, -, ht⟩ := h.bus
  exact ht.counts.mpr (configDone_of_commits ht.sequenced hcm)

/-- A read that is not the first after KEY[0] finds the sensor in step. -/
theorem Sound.words (h : Sound s) (hcm : s.bus.ctl.Commits)
    (hread : ¬ (s.pressed = true ∧ s.bus.ended = 1)) :
    mapOutputs s.bus.ctl.rx = wordsAt regAddrStart s.bus.slave.mem.regs := by
  have hpos := h.ended_pos hcm
  obtain ⟨lost, hlost, ht⟩ := h.bus
  refine (ht.commit ?_ hcm.1).2
  cases lost with
  | false => exact hpos
  | true =>
    have hne : s.bus.ended ≠ 1 := fun he => hread ⟨hlost rfl, he⟩
    change 2 ≤ s.bus.ended
    omega

theorem Sound.commit (h : Sound s) (hcm : s.bus.ctl.Commits)
    (hread : ¬ (s.pressed = true ∧ s.bus.ended = 1)) :
    (s.bus.tick regAddrStart).ctl.out = wordsAt regAddrStart s.bus.slave.mem.regs := by
  have hout := tick_out s.bus.ctl (wires s.bus.ctl s.bus.slave).sda regAddrStart
  rw [if_pos hcm, h.words hcm hread] at hout
  exact hout

theorem Sound.tickBus (h : Sound s) : Sound (tickBus s) := by
  have hbus : ∃ lost, (lost = true → s.pressed = true) ∧
      Tracked regAddrStart lost (s.bus.tick regAddrStart) := by
    obtain ⟨lost, hlost, ht⟩ := h.bus
    exact ⟨lost, hlost, ht.tick⟩
  unfold Gateway.tickBus
  split
  case isFalse => exact ⟨hbus, h.honest⟩
  case isTrue hcm =>
    refine ⟨hbus, ?_⟩
    intro u hu
    rcases List.mem_append.mp hu with hu | hu
    · exact h.honest u hu
    · obtain rfl := List.mem_singleton.mp hu
      by_cases hread : s.pressed = true ∧ s.bus.ended = 1
      · simp [Update.Honest, hread]
      · simp only [Update.Honest, hread, if_false]
        exact h.commit hcm hread

theorem Sound.quiet {s' : State} (h : Sound s) (hbus : s'.bus = s.bus)
    (hpressed : s'.pressed = s.pressed) (hupdates : s'.updates = s.updates) : Sound s' := by
  refine ⟨?_, ?_⟩
  · rw [hbus, hpressed]
    exact h.bus
  · rw [hupdates]
    exact h.honest

theorem Sound.step (h : Sound s) (e : Event) : Sound (step other ofst s e) := by
  have quiet {e : Event} (he : e.isBus = false) : Sound (Gateway.step other ofst s e) := by
    obtain ⟨hbus, hpressed, hupdates⟩ := step_quiet other ofst s he
    exact h.quiet hbus hpressed hupdates
  cases e with
  | tick => exact h.tickBus
  | sense f =>
    obtain ⟨lost, hlost, ht⟩ := h.bus
    exact ⟨⟨lost, hlost, ht.sense (by decide) f⟩, h.honest⟩
  | press =>
    refine ⟨⟨Lost s.bus.slave, fun _ => rfl, Tracked.of_reset s.bus⟩, ?_⟩
    intro u hu
    rcases List.mem_append.mp hu with hu | hu
    · exact h.honest u hu
    · obtain rfl := List.mem_singleton.mp hu
      rfl
  | main | send | accept r bytes | stall | http | sigpipe | deliver t | loseRequest r
  | loseResponse t => exact quiet rfl

theorem Sound.run (h : Sound s) (evs : List Event) : Sound (run other ofst s evs) :=
  Machine.run_keeps (fun _ e h => h.step e) h evs

/-- Without KEY[0] the outputs are only ever set to registers of the sensor. -/
theorem read_of_unpressed (c : Regs) (regs : RegFile) (ptr : BitVec 8) {evs : List Event}
    (unpressed : .press ∉ evs) :
    (run other ofst (initial c regs ptr) evs).pressed = false ∧
      ∀ u ∈ (run other ofst (initial c regs ptr) evs).updates, ∃ pre, pre <+: evs ∧
        u.out = wordsAt regAddrStart
          (run other ofst (initial c regs ptr) pre).bus.slave.mem.regs := by
  induction evs using List.reverseRecOn with
  | nil => exact ⟨rfl, fun u hu => by cases hu⟩
  | append_singleton evs e ih =>
    rw [List.mem_append, not_or, List.mem_singleton] at unpressed
    obtain ⟨hpressed, hread⟩ := ih unpressed.1
    have hstep : run other ofst (initial c regs ptr) (evs ++ [e]) =
        Gateway.step other ofst (run other ofst (initial c regs ptr) evs) e :=
      Machine.run_append _ _ _ _
    have earlier (u : Update) (hu : u ∈ (run other ofst (initial c regs ptr) evs).updates) :
        ∃ pre, pre <+: evs ++ [e] ∧
          u.out = wordsAt regAddrStart
            (run other ofst (initial c regs ptr) pre).bus.slave.mem.regs := by
      obtain ⟨pre, hpre, hout⟩ := hread u hu
      exact ⟨pre, hpre.trans (List.prefix_append _ _), hout⟩
    rw [hstep]
    cases he : e.isBus with
    | false =>
      obtain ⟨-, hpressed', hupdates⟩ :=
        step_quiet other ofst (run other ofst (initial c regs ptr) evs) he
      rw [hpressed', hupdates]
      exact ⟨hpressed, earlier⟩
    | true =>
      cases e with
      | press => exact absurd rfl unpressed.2
      | sense f => exact ⟨hpressed, earlier⟩
      | tick =>
        have hsound : Sound (run other ofst (initial c regs ptr) evs) :=
          (Sound.initial c regs ptr).run evs
        simp only [Gateway.step, Gateway.tickBus]
        split
        case isFalse => exact ⟨hpressed, earlier⟩
        case isTrue hcm =>
          refine ⟨hpressed, fun u hu => ?_⟩
          rcases List.mem_append.mp hu with hu | hu
          · exact earlier u hu
          · obtain rfl := List.mem_singleton.mp hu
            refine ⟨evs, List.prefix_append _ _, hsound.commit hcm fun hfirst => ?_⟩
            exact Bool.noConfusion (hpressed.symm.trans hfirst.1)
      | main | send | accept r bytes | stall | http | sigpipe | deliver t | loseRequest r
      | loseResponse t => cases he

end Sound

/-! ## Towards the FPGA: the pipeline -/

/-- What update `n` put on a channel; zero before the first. -/
def vals (updates : List Update) : ℕ → Channel → BitVec 16
  | 0, _ => 0
  | n + 1, c => (updates[n]?).elim 0 fun u => shown u.out c

/-- The state of the three parties. -/
def State.pipeline (s : State) : Pipeline.State (BitVec 16) where
  commits := s.updates.length
  pio := Report.shown s.bus.ctl.out
  ch := s.ch
  loaded := s.loaded
  glob := s.glob
  pos := s.pos
  locals := s.locals
  responses := s.answers.map Answer.words

/-- The party that moves. -/
def party (s : State) : Event → List Party
  | .tick => if s.bus.ctl.Commits then [.fpga] else []
  | .press => [.fpga]
  | .main => if s.killed then [] else [.main]
  | .http => if s.Up ∧ s.request ≠ none then [.http] else []
  | .sense _ | .send | .accept _ _ | .stall | .sigpipe | .deliver _ | .loseRequest _
  | .loseResponse _ => []

theorem vals_update {updates H : List Update} {u : Update} (h : updates ++ [u] <+: H) :
    vals H (updates.length + 1) = shown u.out := by
  obtain ⟨rest, rfl⟩ := h
  funext c
  simp [vals]

theorem updates_grow (other : List Char → Char → List Char) (ofst : BitVec 32) (s : State)
    (e : Event) :
    s.updates <+: (step other ofst s e).updates := by
  have quiet {e : Event} (he : e.isBus = false) : s.updates <+: (step other ofst s e).updates := by
    rw [(step_quiet other ofst s he).2.2]
  cases e with
  | tick =>
    simp only [step, tickBus]
    split
    · exact List.prefix_append _ _
    · exact List.prefix_rfl
  | press => exact List.prefix_append _ _
  | sense f => exact List.prefix_rfl
  | main | send | accept r bytes | stall | http | sigpipe | deliver t | loseRequest r
  | loseResponse t => exact quiet rfl

theorem step_pipeline {other : List Char → Char → List Char} {ofst : BitVec 32}
    (aligned : ofst &&& hwRegsMask = 0) {H : List Update}
    (s : State) (e : Event) (hH : (step other ofst s e).updates <+: H) :
    Machine.run (Pipeline.step (vals H)) s.pipeline (party s e) =
      (step other ofst s e).pipeline := by
  cases e with
  | tick =>
    have hout := tick_out s.bus.ctl (wires s.bus.ctl s.bus.slave).sda regAddrStart
    by_cases hcm : s.bus.ctl.Commits
    · simp only [step, tickBus, if_pos hcm] at hH
      have hval := vals_update hH
      simp [party, step, tickBus, if_pos hcm, Machine.run, Pipeline.step, Pipeline.fpgaStep,
        State.pipeline, hval]
    · have hsame : (s.bus.tick regAddrStart).ctl.out = s.bus.ctl.out := by
        rw [if_neg hcm] at hout
        exact hout
      simp only [party, step, tickBus, if_neg hcm, Machine.run, List.foldl_nil, State.pipeline]
      rw [hsame]
  | press =>
    have hval := vals_update hH
    simp [party, step, press, Machine.run, Pipeline.step, Pipeline.fpgaStep, State.pipeline, hval]
  | main =>
    by_cases hkilled : s.killed = true
    · simp [party, step, hkilled, Machine.run]
    cases hld : s.loaded with
    | none =>
      simp [party, step, hkilled, mainStep, hld, Machine.run, Pipeline.step, Pipeline.mainStep,
        State.pipeline, readGlobal_eq aligned]
    | some v =>
      simp [party, step, hkilled, mainStep, hld, Machine.run, Pipeline.step, Pipeline.mainStep,
        State.pipeline, following]
  | http =>
    by_cases hup : s.Up
    · cases hreq : s.request with
      | none => simp [party, step, httpStep, hup, hreq, Machine.run]
      | some r =>
        cases hpos : s.pos <;>
          simp [party, step, httpStep, hup, hreq, hpos, Machine.run, Pipeline.step,
            Pipeline.httpStep, State.pipeline]
    · simp [party, step, hup, Machine.run]
  | sense f => simp [party, step, Machine.run, State.pipeline, Loop.sense_ctl]
  | send | loseResponse t => rfl
  | accept r bytes | stall | sigpipe | deliver t | loseRequest r =>
    simp only [party, step, Machine.run, List.foldl_nil]
    split <;> rfl

theorem pipeline_simulation {other : List Char → Char → List Char} {ofst : BitVec 32}
    (aligned : ofst &&& hwRegsMask = 0)
    (H : List Update) :
    Machine.Simulation (step other ofst) (Pipeline.step (vals H)) State.pipeline party
      (fun _ => True) (fun s => s.updates <+: H) where
  keeps := fun _ _ _ => trivial
  back := fun s e h => (updates_grow other ofst s e).trans h
  simulates := fun s e _ h => step_pipeline aligned s e h

/-! ## Towards the page: a polling client -/

/-- The snapshot, with what was read of the request, is in store; the page is the view. -/
def setup (other : List Char → Char → List Char) : Polling.Setup Answer (List Char) Page where
  render := Answer.text other
  read := fetchData
  stored := ⟨fun _ => 0, []⟩
  view := Dashboard.zeroPage

/-- The requests, the responses and the page. -/
def State.net (s : State) : Polling.State Answer (List Char) Page where
  sent := s.sent
  waiting := s.waiting
  stored := ⟨s.locals, s.recvBuf⟩
  computed := s.answers
  inFlight := s.inFlight
  view := s.page
  shown := s.shown

/-- What the network sees of a step. -/
def message (s : State) : Event → List (Polling.Event Answer)
  | .send => [.send]
  | .accept r bytes => if s.Accepts r bytes then [.store ⟨s.locals, bytes⟩] else []
  | .http =>
    if s.Up then
      match s.request, s.pos with
      | none, _ => []
      | some _, some c => [.store ⟨Function.update s.locals c (s.glob c), s.recvBuf⟩]
      | some r, none => [.answer r]
    else []
  | .deliver t => [.deliver t]
  | .loseRequest r => if s.request = some r then [] else [.loseRequest r]
  | .loseResponse t => [.loseResponse t]
  | .tick | .sense _ | .press | .main | .stall | .sigpipe => []

/-- The request that has been read is not answered yet. -/
def Waits (s : State) : Prop := ∀ r ∈ s.request, r ∈ s.waiting

theorem Waits.step {other : List Char → Char → List Char} {ofst : BitVec 32} {s : State}
    (h : Waits s) (e : Event) : Waits (step other ofst s e) := by
  cases e with
  | tick =>
    simp only [Gateway.step, tickBus]
    split <;> exact h
  | main =>
    simp only [Gateway.step, mainStep]
    split
    · exact h
    · split <;> exact h
  | send => exact fun r hr => List.mem_append_left _ (h r hr)
  | accept r bytes =>
    simp only [Gateway.step]
    split
    · next hr =>
      intro r' hr'
      obtain rfl : r = r' := Option.some.inj hr'
      exact hr.2.2.1
    · exact h
  | http =>
    simp only [Gateway.step, httpStep]
    split
    · split
      · exact h
      · exact h
      · intro r' hr'
        cases hr'
    · exact h
  | loseRequest r =>
    simp only [Gateway.step]
    split
    · exact h
    · next hne =>
      intro r' hr'
      refine List.mem_filter.mpr ⟨h r' hr', ?_⟩
      have hr'' : s.request = some r' := hr'
      simp only [decide_eq_true_eq]
      rintro rfl
      exact hne hr''
  | stall | sigpipe | deliver t =>
    simp only [Gateway.step]
    split <;> exact h
  | sense f | press | loseResponse t => exact h

theorem step_net {other : List Char → Char → List Char} {ofst : BitVec 32} {s : State}
    (h : Waits s) (e : Event) : Machine.run (Polling.step (setup other)) s.net (message s e) =
      (step other ofst s e).net := by
  cases e with
  | tick =>
    simp only [message, step, tickBus, Machine.run, List.foldl_nil]
    split <;> rfl
  | main =>
    simp only [message, step, mainStep, Machine.run, List.foldl_nil]
    split
    · rfl
    · split <;> rfl
  | sense f | press | send | loseResponse t => rfl
  | accept r bytes =>
    simp only [message, step]
    split <;> rfl
  | stall | sigpipe =>
    simp only [message, step, Machine.run, List.foldl_nil]
    split <;> rfl
  | http =>
    by_cases hup : s.Up
    · cases hreq : s.request with
      | none => simp [message, step, httpStep, hup, hreq, Machine.run]
      | some r =>
        have hr : r ∈ s.net.waiting := h r hreq
        cases hpos : s.pos with
        | some c =>
          simp [message, step, httpStep, hup, hreq, hpos, Machine.run, Polling.step, State.net]
        | none =>
          simp only [message, hup, hreq, hpos, Machine.run, List.foldl_cons, List.foldl_nil,
            Polling.step, if_pos hr, step, httpStep, if_true]
          rfl
    · simp [message, step, hup, Machine.run]
  | deliver t =>
    simp only [message, Machine.run, List.foldl_cons, List.foldl_nil, Polling.step, step]
    cases hfind : s.inFlight.find? (·.time = t) with
    | none =>
      have hfind' : s.net.inFlight.find? (·.time = t) = none := hfind
      rw [hfind']
    | some p =>
      have hfind' : s.net.inFlight.find? (·.time = t) = some p := hfind
      rw [hfind']
      rfl
  | loseRequest r =>
    by_cases hreq : s.request = some r
    · simp [message, step, hreq, Machine.run]
    · simp only [message, step, if_neg hreq]
      rfl

theorem net_simulation (other : List Char → Char → List Char) (ofst : BitVec 32) :
    Machine.Simulation (step other ofst) (Polling.step (setup other)) State.net message Waits
      (fun _ => True) where
  keeps := fun _ e h => h.step e
  back := fun _ _ _ => trivial
  simulates := fun _ e h _ => step_net h e

/-! ## Runs -/

/-- The steps of the three parties in a run, and the messages of the network. -/
def schedule (other : List Char → Char → List Char) (ofst : BitVec 32) (s : State)
    (evs : List Event) : List Party :=
  Machine.labels (step other ofst) party s evs

def messages (other : List Char → Char → List Char) (ofst : BitVec 32) (s : State)
    (evs : List Event) : List (Polling.Event Answer) :=
  Machine.labels (step other ofst) message s evs

/-- The updates each answer is made of, channel by channel. -/
def numbers (other : List Char → Char → List Char) (ofst : BitVec 32) (s : State)
    (evs : List Event) : List (Channel → ℕ) :=
  (Pipeline.run Pipeline.number (schedule other ofst s evs)).responses

section Runs
variable {other : List Char → Char → List Char} {ofst : BitVec 32} (c : Regs) (regs : RegFile)
  (ptr : BitVec 8)

theorem run_pipeline (aligned : ofst &&& hwRegsMask = 0) (evs : List Event) {H : List Update}
    (hH : (run other ofst (initial c regs ptr) evs).updates <+: H) :
    (run other ofst (initial c regs ptr) evs).pipeline =
      Pipeline.run (vals H) (schedule other ofst (initial c regs ptr) evs) := by
  have hinit : (initial c regs ptr).pipeline = Pipeline.initial (vals H) := by
    have hzero : Report.shown Outputs.zero = vals H 0 := by
      funext ch
      cases ch <;> rfl
    simp only [State.pipeline, Pipeline.initial, Pipeline.State.mk.injEq]
    exact ⟨rfl, hzero, rfl, rfl, rfl, rfl, rfl, rfl⟩
  have hrun := (pipeline_simulation aligned H).run (s := initial c regs ptr) trivial hH
  rw [hinit] at hrun
  exact hrun.symm

theorem run_net (evs : List Event) : (run other ofst (initial c regs ptr) evs).net =
    Polling.run (setup other) (messages other ofst (initial c regs ptr) evs) := by
  have hwaits : Waits (initial c regs ptr) := fun r hr => by cases hr
  exact ((net_simulation other ofst).run hwaits trivial).symm

/-- The three parties move the updates about by number. -/
theorem run_numbers (aligned : ofst &&& hwRegsMask = 0) (evs : List Event) {H : List Update}
    (hH : (run other ofst (initial c regs ptr) evs).updates <+: H) :
    (run other ofst (initial c regs ptr) evs).pipeline =
      (Pipeline.run Pipeline.number (schedule other ofst (initial c regs ptr) evs)).map
        fun ch n => vals H n ch :=
  (run_pipeline c regs ptr aligned evs hH).trans
    (Pipeline.run_map Pipeline.number (fun ch n => vals H n ch) _)

theorem run_commits (aligned : ofst &&& hwRegsMask = 0) (evs : List Event) :
    (run other ofst (initial c regs ptr) evs).updates.length =
      (Pipeline.run Pipeline.number (schedule other ofst (initial c regs ptr) evs)).commits :=
  congrArg Pipeline.State.commits (run_numbers c regs ptr aligned evs List.prefix_rfl)

/-- The answers are made of the updates their numbers name. -/
theorem run_answers (aligned : ofst &&& hwRegsMask = 0) (evs : List Event) {H : List Update}
    (hH : (run other ofst (initial c regs ptr) evs).updates <+: H) :
    (run other ofst (initial c regs ptr) evs).answers.map Answer.words =
      (numbers other ofst (initial c regs ptr) evs).map fun no ch => vals H (no ch) ch :=
  congrArg Pipeline.State.responses (run_numbers c regs ptr aligned evs hH)

theorem run_nextSnapshot (aligned : ofst &&& hwRegsMask = 0) (evs : List Event) :
    nextSnapshot (Pipeline.run Pipeline.number (schedule other ofst (initial c regs ptr) evs)) =
      (run other ofst (initial c regs ptr) evs).answers.length +
        if (run other ofst (initial c regs ptr) evs).pos = some .ax then 0 else 1 := by
  have hpos : (run other ofst (initial c regs ptr) evs).pos = _ :=
    congrArg Pipeline.State.pos (run_numbers c regs ptr aligned evs List.prefix_rfl)
  have hmade : (run other ofst (initial c regs ptr) evs).answers.map Answer.words = _ :=
    run_answers c regs ptr aligned evs List.prefix_rfl
  have hanswers := congrArg List.length hmade
  rw [List.length_map, List.length_map] at hanswers
  rw [hanswers, hpos]
  rfl

end Runs

/-- The answer that the page was last set from. -/
def State.lastAnswer (s : State) : Option Answer := s.shown.getLast?.bind fun t => s.answers[t]?

/-- The page was last set from the server's own page, by a request that was not read as one
for the data. -/
structure State.Misread (s : State) : Prop where
  answer : ∃ a ∈ s.lastAnswer, ¬ a.Asks
  page : Garbled s.page

theorem State.Misread.not_asks {s : State} (h : s.Misread) {a : Answer} (ha : a ∈ s.lastAnswer) :
    ¬ a.Asks := by
  obtain ⟨b, hb, hnot⟩ := h.answer
  obtain rfl : a = b := Option.some.inj (ha.symm.trans hb)
  exact hnot

/-- The updates the last answer is made of, channel by channel; 0 before the first. -/
def pageNumbers (other : List Char → Char → List Char) (ofst : BitVec 32) (s : State)
    (evs : List Event) : Channel → ℕ :=
  ((run other ofst s evs).shown.getLast?.bind fun t => (numbers other ofst s evs)[t]?).getD
    fun _ => 0

/-- The page shows the zeros it began with or the answer delivered last. -/
theorem page_cases {other : List Char → Char → List Char} {ofst : BitVec 32}
    (aligned : ofst &&& hwRegsMask = 0) (c : Regs) (regs : RegFile) (ptr : BitVec 8)
    (evs : List Event) {H : List Update}
    (hH : (run other ofst (initial c regs ptr) evs).updates <+: H) :
    let s := run other ofst (initial c regs ptr) evs
    let no := pageNumbers other ofst (initial c regs ptr) evs
    s.page = Dashboard.zeroPage ∧ s.shown = [] ∨
      ∃ t ∈ s.shown.getLast?, no ∈ (numbers other ofst (initial c regs ptr) evs)[t]? ∧
        ∃ a ∈ s.answers[t]?, (a.words = fun ch => vals H (no ch) ch) ∧
          s.page = fetchData (a.text other) := by
  intro s no
  have hnet : s.net = Polling.run (setup other) (messages other ofst (initial c regs ptr) evs) :=
    run_net c regs ptr evs
  have hsound : Polling.Sound (setup other) s.net := hnet ▸ .run _
  have hanswers : s.answers.map Answer.words = _ := run_answers c regs ptr aligned evs hH
  cases hlast : s.shown.getLast? with
  | none =>
    have hnil : s.shown = [] := List.getLast?_eq_none_iff.mp hlast
    exact .inl ⟨hsound.untouched hnil, hnil⟩
  | some t =>
    obtain ⟨a, ha, hpage⟩ := hsound.view t hlast
    have ha' : s.answers[t]? = some a := ha
    have hwords : (s.answers.map Answer.words)[t]? = some a.words := by
      rw [List.getElem?_map, ha', Option.map_some]
    rw [hanswers, List.getElem?_map, Option.map_eq_some_iff] at hwords
    obtain ⟨no', hno', hmade⟩ := hwords
    have hno : no = no' := by
      have hbind : no = (s.shown.getLast?.bind fun t =>
        (numbers other ofst (initial c regs ptr) evs)[t]?).getD fun _ => 0 := rfl
      rw [hbind, hlast, Option.bind_some, hno', Option.getD_some]
    exact .inr ⟨t, rfl, hno ▸ hno', a, ha', hno ▸ hmade.symm, hpage⟩

/-- It shows updates, unless the answer was the server's own page. -/
theorem page_cases_data {other : List Char → Char → List Char} {ofst : BitVec 32}
    (aligned : ofst &&& hwRegsMask = 0) (c : Regs) (regs : RegFile) (ptr : BitVec 8)
    (evs : List Event) {H : List Update}
    (hH : (run other ofst (initial c regs ptr) evs).updates <+: H) :
    let s := run other ofst (initial c regs ptr) evs
    let no := pageNumbers other ofst (initial c regs ptr) evs
    s.page = Dashboard.zeroPage ∧ s.shown = [] ∨ s.Misread ∨
      (∀ a ∈ s.lastAnswer, a.Asks) ∧ s.page = pageOf fun ch => vals H (no ch) ch := by
  intro s no
  rcases page_cases aligned c regs ptr evs hH with hzero | ⟨t, ht, -, a, ha, hwords, hpage⟩
  · exact .inl hzero
  have hlast : s.lastAnswer = some a := by
    have ht' : s.shown.getLast? = some t := ht
    rw [State.lastAnswer, ht', Option.bind_some]
    exact ha
  by_cases hasks : a.Asks
  · refine .inr (.inr ⟨fun b hb => ?_, ?_⟩)
    · obtain rfl : a = b := Option.some.inj (hlast.symm.trans hb)
      exact hasks
    · have hpage' : s.page = _ := hpage
      rw [hpage', fetchData_asks other hasks, hwords]
  · refine .inr (.inl ⟨⟨a, hlast, hasks⟩, ?_⟩)
    have hpage' : s.page = _ := hpage
    rw [hpage']
    exact fetchData_misread other hasks

/-! ## Order and age -/

section Order
variable (other : List Char → Char → List Char) (ofst : BitVec 32)

theorem run_append (s : State) (pre post : List Event) :
    run other ofst s (pre ++ post) = run other ofst (run other ofst s pre) post :=
  Machine.run_append _ _ _ _

theorem run_updates (s : State) (evs : List Event) : s.updates <+: (run other ofst s evs).updates :=
  Machine.run_keeps (I := fun s' => s.updates <+: s'.updates)
    (fun s' e h => h.trans (updates_grow other ofst s' e)) List.prefix_rfl evs

theorem numbers_grow (s : State) (pre post : List Event) :
    numbers other ofst s pre <+: numbers other ofst s (pre ++ post) := by
  rw [numbers, numbers, schedule, schedule, Machine.labels_append]
  exact Pipeline.responses_grow _ _ _

theorem shown_grow (c : Regs) (regs : RegFile) (ptr : BitVec 8) (pre post : List Event) :
    (run other ofst (initial c regs ptr) pre).shown <+:
      (run other ofst (initial c regs ptr) (pre ++ post)).shown := by
  have hshown (evs : List Event) : (run other ofst (initial c regs ptr) evs).shown =
      (Polling.run (setup other) (messages other ofst (initial c regs ptr) evs)).shown :=
    congrArg Polling.State.shown (run_net c regs ptr evs)
  rw [hshown, hshown, messages, messages, Machine.labels_append]
  exact Polling.shown_grows _ _ _

variable {other ofst} in
theorem shown_sorted (c : Regs) (regs : RegFile) (ptr : BitVec 8) {evs : List Event}
    (inOrder : Polling.NoneOvertaken (setup other)
      (messages other ofst (initial c regs ptr) evs)) :
    (run other ofst (initial c regs ptr) evs).shown.Pairwise (· < ·) := by
  have hshown : (run other ofst (initial c regs ptr) evs).shown = _ :=
    congrArg Polling.State.shown (run_net c regs ptr evs)
  rw [hshown]
  exact inOrder.sorted

/-- An answer that is shown has been given. -/
theorem shown_lt (c : Regs) (regs : RegFile) (ptr : BitVec 8) (evs : List Event) {t : ℕ}
    (ht : t ∈ (run other ofst (initial c regs ptr) evs).shown) :
    t < (run other ofst (initial c regs ptr) evs).answers.length := by
  have hnet : (run other ofst (initial c regs ptr) evs).net = _ := run_net c regs ptr evs
  have hsound : Polling.Sound (setup other) (run other ofst (initial c regs ptr) evs).net :=
    hnet ▸ .run _
  exact hsound.shown t ht

end Order

/-! ## A process that has been killed, or a thread that is stalled -/

section Down
variable {other : List Char → Char → List Char} {ofst : BitVec 32} {s : State}

/-- The thread is stalled, or killed with the process, by these events only. -/
def Event.downs : Event → Bool
  | .stall | .sigpipe => true
  | _ => false

theorem step_flags {e : Event} (he : e.downs = false) :
    (step other ofst s e).stalled = s.stalled ∧ (step other ofst s e).killed = s.killed := by
  cases e with
  | stall | sigpipe => cases he
  | tick =>
    simp only [step, tickBus]
    split <;> exact ⟨rfl, rfl⟩
  | main =>
    simp only [step, mainStep]
    split
    · exact ⟨rfl, rfl⟩
    · split <;> exact ⟨rfl, rfl⟩
  | http =>
    simp only [step, httpStep]
    split
    · split <;> exact ⟨rfl, rfl⟩
    · exact ⟨rfl, rfl⟩
  | accept r bytes | deliver t | loseRequest r =>
    simp only [step]
    split <;> exact ⟨rfl, rfl⟩
  | sense f | press | send | loseResponse t => exact ⟨rfl, rfl⟩

theorem up_step_iff {e : Event} (he : e.downs = false) : (step other ofst s e).Up ↔ s.Up := by
  rw [State.Up, (step_flags he).1, (step_flags he).2, State.Up]

theorem down_step (h : ¬ s.Up) (e : Event) :
    ¬ (step other ofst s e).Up ∧ (step other ofst s e).answers = s.answers := by
  refine ⟨?_, ?_⟩
  · cases he : e.downs with
    | false => rwa [up_step_iff he]
    | true =>
      cases e with
      | stall => rwa [step, if_neg fun hr => h hr.2]
      | sigpipe =>
        simp only [step]
        split
        · exact fun hup => Bool.noConfusion hup.2
        · exact h
      | _ => cases he
  · cases e with
    | tick =>
      simp only [step, tickBus]
      split <;> rfl
    | main =>
      simp only [step, mainStep]
      split
      · rfl
      · split <;> rfl
    | http => rw [step, if_neg h]
    | accept r bytes | stall | sigpipe | deliver t | loseRequest r =>
      simp only [step]
      split <;> rfl
    | sense f | press | send | loseResponse t => rfl

/-- Nobody is answered any more. -/
theorem down_run (h : ¬ s.Up) (evs : List Event) :
    ¬ (run other ofst s evs).Up ∧ (run other ofst s evs).answers = s.answers :=
  Machine.run_keeps (I := fun s' : State => ¬ s'.Up ∧ s'.answers = s.answers)
    (fun _ e hs => ⟨(down_step hs.1 e).1, (down_step hs.1 e).2.trans hs.2⟩) ⟨h, rfl⟩ evs

/-- A process that is alive has been so. -/
theorem alive_back (e : Event) (h : (step other ofst s e).killed = false) : s.killed = false := by
  cases he : e.downs with
  | false => rwa [(step_flags he).2] at h
  | true =>
    cases e with
    | stall =>
      simp only [step] at h
      split at h <;> exact h
    | sigpipe =>
      simp only [step] at h
      split at h
      · cases h
      · exact h
    | _ => cases he

end Down

def Event.isMain : Event → Bool
  | .main => true
  | _ => false

/-- As long as the process is alive `main` steps. -/
theorem schedule_count (other : List Char → Char → List Char) (ofst : BitVec 32) (s : State)
    {evs : List Event} (alive : (run other ofst s evs).killed = false) :
    (schedule other ofst s evs).count .main = evs.countP Event.isMain := by
  induction evs generalizing s with
  | nil => rfl
  | cons e evs ih =>
    have halive : s.killed = false :=
      Machine.run_back (I := fun s : State => s.killed = false) (fun _ e h => alive_back e h) alive
    have hparty : (party s e).count .main = if e.isMain then 1 else 0 := by
      cases e with
      | main =>
        simp only [party, halive]
        rfl
      | tick | http =>
        simp only [party]
        split <;> rfl
      | _ => rfl
    rw [schedule, Machine.labels, List.count_append, hparty, List.countP_cons, Nat.add_comm]
    exact congrArg (· + _) (ih (step other ofst s e) alive)

theorem le_getLast? {l : List ℕ} (h : l.Pairwise (· < ·)) {t t' : ℕ} (ht : t ∈ l)
    (ht' : t' ∈ l.getLast?) : t ≤ t' := by
  obtain ⟨init, rfl⟩ := List.getLast?_eq_some_iff.mp ht'
  rcases List.mem_append.mp ht with hmem | hmem
  · exact Nat.le_of_lt ((List.pairwise_append.mp h).2.2 t hmem t' (List.mem_singleton_self t'))
  · exact Nat.le_of_eq (List.mem_singleton.mp hmem)

theorem mem_drop_of_getElem? {α : Type} {l : List α} {n t : ℕ} {a : α} (hle : n ≤ t)
    (h : a ∈ l[t]?) : a ∈ l.drop n := by
  refine List.mem_of_getElem? (i := t - n) ?_
  rw [List.getElem?_drop, Nat.add_sub_cancel' hle]
  exact h

theorem mem_getElem?_of_grown {α : Type} {l l' : List α} (h : l <+: l') {t : ℕ} {a : α}
    (ha : a ∈ l[t]?) : a ∈ l'[t]? := by
  obtain ⟨rest, rfl⟩ := h
  exact Polling.mem_getElem?_append ha

section Numbers
variable {other : List Char → Char → List Char} {ofst : BitVec 32}
  (aligned : ofst &&& hwRegsMask = 0) (c : Regs) (regs : RegFile) (ptr : BitVec 8)
include aligned

theorem pageNumbers_le (evs : List Event) (ch : Channel) :
    pageNumbers other ofst (initial c regs ptr) evs ch ≤
      (run other ofst (initial c regs ptr) evs).updates.length := by
  rcases page_cases aligned c regs ptr evs List.prefix_rfl with ⟨-, hnone⟩ | ⟨t, -, hno, -⟩
  · rw [pageNumbers, hnone]
    exact Nat.zero_le _
  · have hle := (Pipeline.Bounded.run (schedule other ofst (initial c regs ptr) evs)).responses _
      (List.mem_of_getElem? hno)
    rw [← run_commits c regs ptr aligned evs] at hle
    exact hle ch

/-- Shown in order, the answers take the page to later updates. -/
theorem pageNumbers_mono (pre post : List Event)
    (sorted : (run other ofst (initial c regs ptr) (pre ++ post)).shown.Pairwise (· < ·))
    (ch : Channel) : pageNumbers other ofst (initial c regs ptr) pre ch ≤
      pageNumbers other ofst (initial c regs ptr) (pre ++ post) ch := by
  rcases page_cases aligned c regs ptr pre List.prefix_rfl with ⟨-, hnone⟩ | ⟨t, ht, hno, -⟩
  · rw [pageNumbers, hnone]
    exact Nat.zero_le _
  have hmem := (shown_grow other ofst c regs ptr pre post).subset (List.mem_of_getLast? ht)
  rcases page_cases aligned c regs ptr (pre ++ post) List.prefix_rfl with
    ⟨-, hnone⟩ | ⟨t', ht', hno', -⟩
  · rw [hnone] at hmem
    cases hmem
  have hno₁ := mem_getElem?_of_grown (numbers_grow other ofst _ pre post) hno
  rcases Nat.lt_or_eq_of_le (le_getLast? sorted hmem ht') with hlt | rfl
  · have hord :=
      (Pipeline.Ordered.run (schedule other ofst (initial c regs ptr) (pre ++ post))).inOrder
    obtain ⟨hin, hget⟩ := List.getElem?_eq_some_iff.mp hno₁
    obtain ⟨hin', hget'⟩ := List.getElem?_eq_some_iff.mp hno'
    have hpair := List.pairwise_iff_getElem.mp hord t t' hin hin' hlt ch
    rwa [← hget, ← hget']
  · exact Nat.le_of_eq (congrFun (Option.some.inj (hno₁.symm.trans hno')) ch)

/-- After fifteen steps of `main` every snapshot begun from then on is made of the
updates there were before them, or later ones. -/
theorem pageNumbers_fresh (pre mid post : List Event) (steps : 15 ≤ mid.countP Event.isMain) :
    let s₀ := run other ofst (initial c regs ptr) pre
    let s₁ := run other ofst (initial c regs ptr) (pre ++ mid)
    ∀ t ∈ (run other ofst (initial c regs ptr) (pre ++ mid ++ post)).shown.getLast?,
      s₁.answers.length + (if s₁.pos = some .ax then 0 else 1) ≤ t → ∀ ch,
        s₀.updates.length ≤
          pageNumbers other ofst (initial c regs ptr) (pre ++ mid ++ post) ch := by
  intro s₀ s₁ t ht hle
  rcases page_cases aligned c regs ptr (pre ++ mid ++ post) List.prefix_rfl with
    ⟨-, hnone⟩ | ⟨t', ht', hno, -⟩
  · rw [hnone] at ht
    cases ht
  obtain rfl : t' = t := Option.some.inj (ht'.symm.trans ht)
  have alive : s₁.killed = false := by
    -- otherwise the answer would have been given before
    by_contra hkilled
    have hdown : ¬ s₁.Up := fun hup => hkilled hup.2
    have hlt := shown_lt other ofst c regs ptr (pre ++ mid ++ post) (List.mem_of_getLast? ht)
    rw [run_append, (down_run hdown post).2] at hlt
    omega
  have hs₁ : s₁ = run other ofst s₀ mid := run_append other ofst _ pre mid
  rw [hs₁] at alive
  rw [← run_nextSnapshot c regs ptr aligned] at hle
  have hsched (evs evs' : List Event) : schedule other ofst (initial c regs ptr) (evs ++ evs') =
      schedule other ofst (initial c regs ptr) evs ++
        schedule other ofst (run other ofst (initial c regs ptr) evs) evs' :=
    Machine.labels_append _ _ _ _ _
  have hglob : ∀ ch, s₀.updates.length ≤
      (Pipeline.run Pipeline.number
        (schedule other ofst (initial c regs ptr) (pre ++ mid))).glob ch := by
    rw [run_commits c regs ptr aligned, hsched]
    exact glob_fresh _ (by rwa [schedule_count other ofst _ alive])
  rw [numbers, hsched (pre ++ mid)] at hno
  exact responses_fresh _ _ hglob _ (mem_drop_of_getElem? hle hno)

/-- It is then the page of these updates, or the server's own page. -/
theorem page_of_fresh (pre mid post : List Event) (steps : 15 ≤ mid.countP Event.isMain) :
    let s₀ := run other ofst (initial c regs ptr) pre
    let s₁ := run other ofst (initial c regs ptr) (pre ++ mid)
    let s := run other ofst (initial c regs ptr) (pre ++ mid ++ post)
    let no := pageNumbers other ofst (initial c regs ptr) (pre ++ mid ++ post)
    ∀ t ∈ s.shown.getLast?, s₁.answers.length + (if s₁.pos = some .ax then 0 else 1) ≤ t →
      (s.Misread ∨
        (∀ a ∈ s.lastAnswer, a.Asks) ∧ s.page = pageOf fun ch => vals s.updates (no ch) ch) ∧
      ∀ ch, s₀.updates.length ≤ no ch ∧ no ch ≤ s.updates.length := by
  intro s₀ s₁ s no t ht hle
  refine ⟨?_, fun ch => ⟨pageNumbers_fresh aligned c regs ptr pre mid post steps t ht hle ch,
    pageNumbers_le aligned c regs ptr (pre ++ mid ++ post) ch⟩⟩
  rcases page_cases_data aligned c regs ptr (pre ++ mid ++ post) List.prefix_rfl with
    ⟨-, hnone⟩ | hdata
  · have hnil : s.shown = [] := hnone
    rw [hnil] at ht
    cases ht
  · exact hdata

end Numbers

/-! ## Results -/

section Results
variable (other : List Char → Char → List Char) (ofst : BitVec 32)
  (aligned : ofst &&& hwRegsMask = 0) (c : Regs) (regs : RegFile) (ptr : BitVec 8)
include aligned

/-- Every run of the whole is a run of the three-party pipeline over what the outputs were
set to, and a run of a polling client with the same answers. -/
theorem gateway_refines (evs : List Event) :
    let s := run other ofst (initial c regs ptr) evs
    s.pipeline = Pipeline.run (vals s.updates) (schedule other ofst (initial c regs ptr) evs) ∧
      s.net = Polling.run (setup other) (messages other ofst (initial c regs ptr) evs) :=
  ⟨run_pipeline c regs ptr aligned evs List.prefix_rfl, run_net c regs ptr evs⟩

end Results

/-- The lightweight bridge of the Cyclone V. -/
abbrev bridge : BitVec 32 := 0xFF200000

/-- A sensor with its own address in every register, before the first event. -/
abbrev start : State := initial Samples.blank (fun a => a) 0

/-- The timer fires once, what is read of the request is answered and the answer arrives. -/
def fetch (r : ℕ) (bytes : List (BitVec 8)) : List Event :=
  [.send, .accept r bytes] ++ List.replicate 8 .http ++ [.deliver r]

/-- A read of the sensor, a round of `main` and a little more, and a request; then KEY[0],
a request that is cut behind the method, and a client that stalls the thread. -/
def busy : List Event :=
  List.replicate 60743 .tick ++ List.replicate 15 .main ++ fetch 0 Response.getData ++
    .press :: fetch 1 (Response.ascii "GET") ++ [.stall, .main]

theorem gateway_refines_busy :
    let s := run Response.verbatim bridge start busy
    s.pipeline = Pipeline.run (vals s.updates) (schedule Response.verbatim bridge start busy) ∧
      s.net = Polling.run (setup Response.verbatim)
        (messages Response.verbatim bridge start busy) :=
  gateway_refines Response.verbatim bridge (by decide) Samples.blank (fun a => a) 0 busy

section Results
variable (other : List Char → Char → List Char) (ofst : BitVec 32)
  (aligned : ofst &&& hwRegsMask = 0) (c : Regs) (regs : RegFile) (ptr : BitVec 8)
include aligned

/-- In every run, with KEY[0] pressed at any moment: unless the last answer was the
server's own page, what the page shows was on the outputs, channel by channel, and the
outputs were only ever set to zeros by KEY[0], to the sensor's registers by a read, or to
something else by the first read after KEY[0]. -/
theorem page_shows_updates (evs : List Event) :
    let s := run other ofst (initial c regs ptr) evs
    (∀ u ∈ s.updates, u.Honest) ∧
      (s.page = Dashboard.zeroPage ∨ s.Misread ∨ ∃ no : Channel → ℕ,
        (∀ ch, no ch ≤ s.updates.length) ∧
          s.page = pageOf fun ch => vals s.updates (no ch) ch) := by
  intro s
  refine ⟨((Sound.initial c regs ptr).run evs).honest, ?_⟩
  rcases page_cases_data aligned c regs ptr evs List.prefix_rfl with
    ⟨hzero, -⟩ | hmisread | ⟨-, hpage⟩
  · exact .inl hzero
  · exact .inr (.inl hmisread)
  · exact .inr (.inr ⟨_, pageNumbers_le aligned c regs ptr evs, hpage⟩)

end Results

theorem page_shows_updates_busy :
    let s := run Response.verbatim bridge start busy
    (∀ u ∈ s.updates, u.Honest) ∧
      (s.page = Dashboard.zeroPage ∨ s.Misread ∨ ∃ no : Channel → ℕ,
        (∀ ch, no ch ≤ s.updates.length) ∧
          s.page = pageOf fun ch => vals s.updates (no ch) ch) :=
  page_shows_updates Response.verbatim bridge (by decide) Samples.blank (fun a => a) 0 busy

section Results
variable (other : List Char → Char → List Char) (ofst : BitVec 32)
  (aligned : ofst &&& hwRegsMask = 0) (c : Regs) (regs : RegFile) (ptr : BitVec 8)
include aligned

/-- The page never goes back: if no answer that has been overtaken is delivered, every
word on it comes from the update of an earlier page or from a later one. -/
theorem page_never_goes_back (pre post : List Event)
    (inOrder : Polling.NoneOvertaken (setup other)
      (messages other ofst (initial c regs ptr) (pre ++ post))) :
    let s := run other ofst (initial c regs ptr) pre
    let s' := run other ofst (initial c regs ptr) (pre ++ post)
    s.page = Dashboard.zeroPage ∨ s.Misread ∨ s'.Misread ∨ ∃ no no' : Channel → ℕ,
      (∀ ch, no ch ≤ s.updates.length ∧ no ch ≤ no' ch ∧ no' ch ≤ s'.updates.length) ∧
      s.page = pageOf (fun ch => vals s.updates (no ch) ch) ∧
      s'.page = pageOf fun ch => vals s'.updates (no' ch) ch := by
  intro s s'
  rcases page_cases_data aligned c regs ptr pre List.prefix_rfl with
    ⟨hzero, -⟩ | hmisread | ⟨hasks, hpage⟩
  · exact .inl hzero
  · exact .inr (.inl hmisread)
  rcases page_cases_data aligned c regs ptr (pre ++ post) List.prefix_rfl with
    ⟨hzero', hnone⟩ | hmisread' | ⟨-, hpage'⟩
  · -- no answer has been shown, so the page is the first one still
    refine .inl ?_
    have hnil := (shown_grow other ofst c regs ptr pre post)
    rw [hnone, List.prefix_nil] at hnil
    rcases page_cases aligned c regs ptr pre List.prefix_rfl with ⟨hzero, -⟩ | ⟨t, ht, -⟩
    · exact hzero
    · rw [hnil] at ht
      cases ht
  · exact .inr (.inr (.inl hmisread'))
  · have hmono :=
      pageNumbers_mono aligned c regs ptr pre post (shown_sorted c regs ptr inOrder)
    exact .inr (.inr (.inr ⟨_, _, fun ch => ⟨pageNumbers_le aligned c regs ptr pre ch, hmono ch,
      pageNumbers_le aligned c regs ptr (pre ++ post) ch⟩, hpage, hpage'⟩))

end Results

/-- Two requests, one after the other, with KEY[0] between them. -/
theorem page_never_goes_back_twice :
    let pre := List.replicate 15 .main ++ fetch 0 Response.getData
    let post := .press :: fetch 1 Response.getData
    let s := run Response.verbatim bridge start pre
    let s' := run Response.verbatim bridge start (pre ++ post)
    Polling.NoneOvertaken (setup Response.verbatim)
        (messages Response.verbatim bridge start (pre ++ post)) ∧
      (s.page = Dashboard.zeroPage ∨ s.Misread ∨ s'.Misread ∨ ∃ no no' : Channel → ℕ,
        (∀ ch, no ch ≤ s.updates.length ∧ no ch ≤ no' ch ∧ no' ch ≤ s'.updates.length) ∧
        s.page = pageOf (fun ch => vals s.updates (no ch) ch) ∧
        s'.page = pageOf fun ch => vals s'.updates (no' ch) ch) := by
  intro pre post s s'
  have inOrder : Polling.NoneOvertaken (setup Response.verbatim)
      (messages Response.verbatim bridge start (pre ++ post)) :=
    Polling.NoneOvertaken.of_sorted (by decide +kernel)
  exact ⟨inOrder, page_never_goes_back Response.verbatim bridge (by decide) Samples.blank
    (fun a => a) 0 pre post inOrder⟩

section Results
variable (other : List Char → Char → List Char) (ofst : BitVec 32)
  (aligned : ofst &&& hwRegsMask = 0) (c : Regs) (regs : RegFile) (ptr : BitVec 8)
include aligned

/-- The page is fresh: after fifteen steps of `main` every snapshot begun from then on
is made of the updates the outputs had reached before them, or later ones. -/
theorem page_fresh (pre mid post : List Event) (steps : 15 ≤ mid.countP Event.isMain) :
    let s₀ := run other ofst (initial c regs ptr) pre
    let s₁ := run other ofst (initial c regs ptr) (pre ++ mid)
    let s := run other ofst (initial c regs ptr) (pre ++ mid ++ post)
    ∀ t ∈ s.shown.getLast?, s₁.answers.length + (if s₁.pos = some .ax then 0 else 1) ≤ t →
      s.Misread ∨ ∃ no : Channel → ℕ,
        (∀ ch, s₀.updates.length ≤ no ch ∧ no ch ≤ s.updates.length) ∧
        s.page = pageOf fun ch => vals s.updates (no ch) ch := by
  intro s₀ s₁ s t ht hle
  obtain ⟨hmisread | ⟨-, hpage⟩, hbounds⟩ :=
    page_of_fresh aligned c regs ptr pre mid post steps t ht hle
  · exact .inl hmisread
  · exact .inr ⟨_, hbounds, hpage⟩

end Results

/-- KEY[0], one round of `main` and a little more, and a request. -/
theorem page_fresh_pressed :
    let s := run Response.verbatim bridge start
      ([.press] ++ List.replicate 15 .main ++ fetch 0 Response.getData)
    15 ≤ (List.replicate 15 Event.main).countP Event.isMain ∧
      (s.Misread ∨ ∃ no : Channel → ℕ,
        (∀ ch, (run Response.verbatim bridge start [.press]).updates.length ≤ no ch ∧
          no ch ≤ s.updates.length) ∧
        s.page = pageOf fun ch => vals s.updates (no ch) ch) := by
  have steps : 15 ≤ (List.replicate 15 Event.main).countP Event.isMain := by decide
  exact ⟨steps, page_fresh Response.verbatim bridge (by decide) Samples.blank (fun a => a) 0
    [.press] _ (fetch 0 Response.getData) steps 0 (by decide +kernel) (by decide +kernel)⟩

end IotController.Gateway
