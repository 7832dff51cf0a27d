import IotController.Gateway
import IotController.Timing

/-! # The whole system answers

From every state the system can get into with the HTTP thread going there is a way on to
a page with whatever the sensor holds: the controller commits again and again, the second
commit finds the sensor in step, `main` and the HTTP thread get round their loops, and
nothing that is under way or lost keeps a new request from its answer. A thread that is
stalled, or killed with the process, answers nobody. -/
namespace IotController.Responsive
open IotController.Controller IotController.Sequencer IotController.Timing
open IotController.Recovery IotController.Gateway
open IotController.ClosedLoop (Loop RegFile Within sensorRegs wires wordsAt waiting_slave
  waiting_tick)
open IotController.Pipeline (Channel)
open IotController.Report (Page hwRegsMask pageOf shown)
open IotController.Response (getData)
open IotController.Machine (Reaches)

/-- Some events lead from `s` to a state with `Q`. -/
abbrev Can (other : List Char → Char → List Char) (ofst : BitVec 32) (s : State)
    (Q : State → Prop) : Prop :=
  Reaches (fun s e => some (step other ofst s e)) s Q

/-! ## A read that finds certain registers -/

/-- The outputs are made of the registers that are kept between the reads. -/
theorem wordsAt_congr {f g : RegFile} (h : ∀ a, sensorRegs a = true → f a = g a) :
    wordsAt regAddrStart f = wordsAt regAddrStart g := by
  rw [← ClosedLoop.mapOutputs_burst, ← ClosedLoop.mapOutputs_burst]
  refine mapOutputs_congr fun m hm => h _ ?_
  have all : ∀ m < 14, sensorRegs (regAddrStart + BitVec.ofNat 8 m) = true := by decide
  exact all m hm

/-- The controller reads, in step with the sensor, which holds `f`. -/
structure Found (f : RegFile) (l : Loop) : Prop where
  configDone : l.ctl.configDone = true
  inStep : InStep regAddrStart l
  regs : ∀ a, sensorRegs a = true → l.slave.mem.regs a = f a

section Found
variable {f : RegFile} {l : Loop}

/-- In a read the memory is that of the session. -/
theorem regs_of_read {w : Follow.Session} {s : Slot} (h : Within w s l) (hm : w.missed = none)
    (hcw : w.cw = false) : l.slave.mem.regs = w.mem.regs := by
  have hregs := (h.follows.mem hm h.place.allowed).1
  have hallowed := h.place.allowed
  have hwritten : w.written s = false := by
    cases s with
    | ack f =>
      cases f with
      | regData =>
        rw [hcw] at hallowed
        cases hallowed
      | devAddr | regAddr | rdDevAddr => rfl
    | stop => exact hcw
    | start | bit f k | restart | recv n k | reply n => rfl
  rwa [hwritten] at hregs

theorem Found.tick (h : Found f l) : Found f (l.tick regAddrStart) := by
  obtain ⟨hd, hin, hregs⟩ := h
  have hin' := hin.tick
  rcases hin with ⟨hw, hm⟩ | ⟨w, s, hP, hm, hl⟩
  · refine ⟨?_, hin', by rwa [waiting_slave hw]⟩
    rcases waiting_tick (P := regAddrStart) hw hm (by simp) with ⟨-, hd'⟩ | hl
    · exact hd'.trans hd
    · have hd' := hl.place.configDone
      rwa [Bool.not_not, hd] at hd'
  · have hcw : w.cw = false := by
      have hd' := hl.place.configDone
      rw [hd] at hd'
      simpa using hd'.symm
    by_cases he : l.ctl.Ends
    · obtain ⟨hsl, hsl', -, hd'⟩ := hl.tick_end he
      rw [hP] at hsl' hd'
      exact ⟨hd', hin', by rwa [hsl', ← hsl]⟩
    · have hl' := hl.tick he
      have hsame := regs_of_read hl' hm hcw
      rw [hP, ← regs_of_read hl hm hcw] at hsame
      refine ⟨?_, hin', by rwa [hsame]⟩
      have hd' := hl'.place.configDone
      rw [hP, hcw] at hd'
      exact hd'

/-- Its commit puts them on the outputs. -/
theorem Found.commit (h : Found f l) (hc : l.ctl.Commits) :
    (l.tick regAddrStart).ctl.out = wordsAt regAddrStart f := by
  have hout : (l.tick regAddrStart).ctl.out = _ :=
    tick_out l.ctl (wires l.ctl l.slave).sda regAddrStart
  rw [if_pos hc, h.inStep.words hc] at hout
  exact hout.trans (wordsAt_congr h.regs)

end Found

/-! ## States on the way -/

/-- What holds in every run. -/
structure Live (s : State) : Prop where
  sound : Sound s
  elapsed : ∃ t, Elapsed regAddrStart s.bus.ctl t
  ready : s.request = none → s.pos = some .ax

section Live
variable {other : List Char → Char → List Char} {ofst : BitVec 32} {s : State}

theorem tick_bus (other : List Char → Char → List Char) (ofst : BitVec 32) (s : State) :
    (step other ofst s .tick).bus = s.bus.tick regAddrStart := by
  simp only [step, tickBus]
  split <;> rfl

theorem Live.initial (c : Regs) (regs : RegFile) (ptr : BitVec 8) :
    Live (initial c regs ptr) where
  sound := .initial c regs ptr
  elapsed := ⟨0, .of_reset c⟩
  ready := fun _ => rfl

theorem Live.step (h : Live s) (e : Event) : Live (step other ofst s e) := by
  refine ⟨h.sound.step e, ?_, ?_⟩
  · obtain ⟨t, ht⟩ := h.elapsed
    have quiet {e : Event} (he : e.isBus = false) :
        ∃ t, Elapsed regAddrStart (Gateway.step other ofst s e).bus.ctl t := by
      rw [(step_quiet other ofst s he).1]
      exact ⟨t, ht⟩
    cases e with
    | tick =>
      rw [tick_bus]
      exact ⟨succ t, ht.tick _⟩
    | sense f =>
      have hctl : (Gateway.step other ofst s (.sense f)).bus.ctl = s.bus.ctl :=
        s.bus.sense_ctl sensorRegs f
      exact ⟨t, hctl ▸ ht⟩
    | press => exact ⟨0, .of_reset s.bus.ctl⟩
    | main | send | accept r bytes | stall | http | sigpipe | deliver r | loseRequest r
    | loseResponse r => exact quiet rfl
  · cases e with
    | tick =>
      simp only [Gateway.step, tickBus]
      split <;> exact h.ready
    | main =>
      simp only [Gateway.step, mainStep]
      split
      · exact h.ready
      · split <;> exact h.ready
    | http =>
      simp only [Gateway.step, httpStep]
      split
      · split
        · exact h.ready
        · next r c hr _ =>
          intro hnone
          rw [show s.request = none from hnone] at hr
          cases hr
        · exact fun _ => rfl
      · exact h.ready
    | accept r bytes =>
      simp only [Gateway.step]
      split
      · intro hnone
        cases hnone
      · exact h.ready
    | stall | sigpipe | deliver r | loseRequest r =>
      simp only [Gateway.step]
      split <;> exact h.ready
    | sense f | press | send | loseResponse r => exact h.ready

theorem Live.run (h : Live s) (evs : List Event) : Live (run other ofst s evs) :=
  Machine.run_keeps (fun _ e h => h.step e) h evs

theorem up_run (h : s.Up) {evs : List Event} (hevs : ∀ e ∈ evs, e.downs = false) :
    (Gateway.run other ofst s evs).Up := by
  induction evs generalizing s with
  | nil => exact h
  | cons e evs ih =>
    exact ih ((up_step_iff (hevs e List.mem_cons_self)).mpr h)
      fun e' he' => hevs e' (List.mem_cons_of_mem e he')

/-- A state of a run with the HTTP thread going. -/
structure Going (s : State) : Prop extends Live s where
  up : s.Up

theorem Going.step (h : Going s) {e : Event} (he : e.downs = false) :
    Going (Gateway.step other ofst s e) :=
  ⟨h.toLive.step e, (up_step_iff he).mpr h.up⟩

/-! ## To the outputs -/

/-- The controller gets to a commit, and what a tick keeps is kept until then. -/
theorem Going.wait {K : State → Prop}
    (keeps : ∀ s, K s → K (Gateway.step other ofst s .tick)) (h : Going s) (hk : K s) :
    Can other ofst s fun s' => Going s' ∧ K s' ∧ s'.bus.ctl.Commits := by
  obtain ⟨t, ht⟩ := h.elapsed
  refine Reaches.of_variant (I := fun n s => Going s ∧ K s ∧
    ∃ t, Elapsed regAddrStart s.bus.ctl t ∧ 60742 - t = n) ?_ ⟨h, hk, t, ht, rfl⟩
  rintro _ s ⟨h, hk, t, ht, rfl⟩
  by_cases hlast : t = 60742
  · exact .now (.inl ⟨h, hk, ht.commits_iff.mpr hlast⟩)
  · refine .after .tick (.now (.inr
      ⟨60742 - succ t, ?_, h.step rfl, keeps s hk, succ t, ?_, rfl⟩))
    · have hle := ht.le
      rw [succ, if_neg hlast]
      omega
    · rw [tick_bus]
      exact ht.tick _

/-- After the tick of a commit the controller waits, one more transaction behind it. -/
theorem Going.round (h : Going s) : Can other ofst s fun s' => Going s' ∧
    s.bus.ended < s'.bus.ended ∧ Waiting s'.bus.ctl ∧ s'.bus.ctl.configDone = true := by
  have keeps (s' : State) (hle : s.bus.ended ≤ s'.bus.ended) :
      s.bus.ended ≤ (Gateway.step other ofst s' .tick).bus.ended := by
    rw [tick_bus, ended_tick]
    split <;> omega
  refine (h.wait keeps le_rfl).trans ?_
  rintro s' ⟨h', hle, hcm⟩
  refine .after .tick (.now ⟨h'.step rfl, ?_, ?_⟩)
  · rw [tick_bus, ended_tick, if_pos hcm.1]
    omega
  · rw [tick_bus]
    obtain ⟨lost, -, htracked⟩ := h'.sound.bus
    rcases htracked.sequenced with hw | ⟨cw, slot, hat⟩
    · exact absurd hcm.1 hw.not_ends
    · obtain rfl := hat.stop_of_ends hcm.1
      exact hat.tick_stop hcm.1.2 _

/-- The sensor can be read with any registers. -/
theorem Going.found (h : Going s) (f : RegFile) :
    Can other ofst s fun s' => Going s' ∧ Found f s'.bus := by
  refine h.round.trans ?_
  rintro s₁ ⟨h₁, hone, -⟩
  refine h₁.round.trans ?_
  rintro s₂ ⟨h₂, htwo, hw, hd⟩
  have hin : InStep regAddrStart s₂.bus := by
    obtain ⟨lost, -, htracked⟩ := h₂.sound.bus
    exact htracked.link.inStep_of_ended htracked.counts (by split <;> omega)
  have hbetween : s₂.bus.Between := hw.state.imp id And.left
  have hsense : (s₂.bus.sense sensorRegs f) = { s₂.bus with
      slave.mem.regs := fun a => if sensorRegs a then f a else s₂.bus.slave.mem.regs a } :=
    if_pos hbetween
  refine .after (.sense f) (.now ⟨h₂.step rfl, ?_, hin.sense f, fun a ha => ?_⟩)
  · have hctl := s₂.bus.sense_ctl sensorRegs f
    exact (congrArg Regs.configDone hctl).trans hd
  · have hregs : (Gateway.step other ofst s₂ (.sense f)).bus.slave.mem.regs a =
        (s₂.bus.sense sensorRegs f).slave.mem.regs a := rfl
    rw [hregs, hsense]
    exact if_pos ha

/-- The outputs can be brought to hold any registers, and that is then the last update. -/
theorem Going.outputs (h : Going s) (f : RegFile) :
    Can other ofst s fun s' => Going s' ∧ ∃ ups u, s'.updates = ups ++ [u] ∧
      u.out = wordsAt regAddrStart f := by
  refine (h.found f).trans ?_
  rintro s₁ ⟨h₁, hfound⟩
  refine (h₁.wait (K := fun s => Found f s.bus) (fun s hf => ?_) hfound).trans ?_
  · rw [tick_bus]
    exact hf.tick
  · rintro s₂ ⟨h₂, hfound₂, hcm⟩
    obtain ⟨source, hupdates⟩ : ∃ source, (Gateway.step other ofst s₂ .tick).updates =
        s₂.updates ++ [⟨(s₂.bus.tick regAddrStart).ctl.out, source⟩] := by
      simp only [Gateway.step, tickBus, if_pos hcm]
      exact ⟨_, rfl⟩
    exact .after .tick (.now ⟨h₂.step rfl, s₂.updates, _, hupdates, hfound₂.commit hcm⟩)

end Live

/-! ## To the page -/

section Answers
variable (other : List Char → Char → List Char) (ofst : BitVec 32) {s : State}

/-- Nothing else sets the outputs. -/
theorem run_quiet {evs : List Event} (h : ∀ e ∈ evs, e.isBus = false) :
    (run other ofst s evs).updates = s.updates := by
  induction evs generalizing s with
  | nil => rfl
  | cons e evs ih =>
    have hstep := (step_quiet other ofst s (h e List.mem_cons_self)).2.2
    exact (ih fun e' he' => h e' (List.mem_cons_of_mem e he')).trans hstep

/-- The HTTP thread does not go down by itself. -/
theorem run_http_eq (up : s.Up) (n : ℕ) :
    run other ofst s (List.replicate n .http) = (httpStep other)^[n] s := by
  induction n generalizing s with
  | zero => rfl
  | succ n ih =>
    have hstep : Gateway.step other ofst s .http = httpStep other s := if_pos up
    have hup : (httpStep other s).Up := by
      rw [← hstep]
      exact (up_step_iff rfl).mpr up
    rw [Function.iterate_succ_apply, ← ih hup, ← hstep]
    rfl

/-- Eight steps of the HTTP thread end the answer under way. -/
theorem run_http (up : s.Up) (ready : s.request = none → s.pos = some .ax) :
    let s' := run other ofst s (List.replicate 8 .http)
    s'.request = none ∧ s'.pos = some .ax ∧
      s.answers.length + (if s.pos = some .ax then 0 else 1) ≤ s'.answers.length := by
  rw [run_http_eq other ofst up]
  obtain ⟨bus, pressed, updates, ch, loaded, glob, request, pos, recvBuf, locals, stalled, killed,
    sent, waiting, answers, inFlight, page, shown⟩ := s
  cases request with
  | none =>
    obtain rfl : pos = some .ax := ready rfl
    exact ⟨rfl, rfl, le_rfl⟩
  | some r =>
    -- the answer after `temp`, and then nothing
    have hanswers (a : Misread.Answer) : answers.length + 1 ≤ (answers ++ [a]).length := by
      rw [List.length_append, List.length_singleton]
    rcases pos with _ | _ | _ | _ | _ | _ | _ | _
    case some.ax => exact ⟨rfl, rfl, (Nat.le_succ _).trans (hanswers _)⟩
    all_goals exact ⟨rfl, rfl, hanswers _⟩

/-- From the request read to the answer on its way. -/
theorem run_answer (up : s.Up) {r : ℕ} (hr : s.request = some r) (hp : s.pos = some .ax) :
    let s' := run other ofst s (List.replicate 8 .http)
    (∃ p ∈ s'.inFlight, p.time = s.answers.length) ∧
      ∃ a ∈ s'.answers[s.answers.length]?, a.request = s.recvBuf := by
  rw [run_http_eq other ofst up]
  obtain ⟨bus, pressed, updates, ch, loaded, glob, request, pos, recvBuf, locals, stalled, killed,
    sent, waiting, answers, inFlight, page, shown⟩ := s
  obtain rfl : request = some r := hr
  obtain rfl : pos = some .ax := hp
  exact ⟨⟨_, List.mem_append_right _ (List.mem_singleton_self _), rfl⟩, _,
    List.getElem?_concat_length, rfl⟩

/-- A request goes out, is read whole, answered and shown. -/
def ask (s : State) : List Event :=
  [.send, .accept s.sent getData] ++ List.replicate 8 .http ++ [.deliver s.answers.length]

theorem run_ask (up : s.Up) (hr : s.request = none) (hp : s.pos = some .ax) :
    let s' := run other ofst s (ask s)
    s'.shown.getLast? = some s.answers.length ∧ ∃ a ∈ s'.lastAnswer, a.Asks := by
  have haccept : run other ofst s [.send, .accept s.sent getData] =
      { s with
        sent := s.sent + 1
        waiting := s.waiting ++ [s.sent]
        request := some s.sent
        recvBuf := getData } :=
    if_pos ⟨hr, up, List.mem_append_right _ (List.mem_singleton_self _), by decide, by decide⟩
  obtain ⟨⟨p, hmem, htime⟩, a, ha, hrequest⟩ := run_answer other ofst
    (s := run other ofst s [.send, .accept s.sent getData])
    (by rw [haccept]; exact up) (by rw [haccept]) (by rw [haccept]; exact hp)
  intro s'
  have hs' : s' = run other ofst (run other ofst s
      [.send, .accept s.sent getData]) (List.replicate 8 .http ++ [.deliver s.answers.length]) :=
    rfl
  rw [run_append] at hs'
  generalize run other ofst (run other ofst s [.send, .accept s.sent getData])
    (List.replicate 8 .http) = s₁ at hmem ha hs'
  rw [haccept] at htime ha hrequest
  have hs'' : s' = Gateway.step other ofst s₁ (.deliver s.answers.length) := hs'
  have hfound : ∃ q, s₁.inFlight.find? (·.time = s.answers.length) = some q := by
    rw [← Option.isSome_iff_exists, List.find?_isSome]
    exact ⟨p, hmem, decide_eq_true htime⟩
  obtain ⟨q, hq⟩ := hfound
  have hshown : s'.shown.getLast? = some s.answers.length := by
    rw [hs'']
    simp only [Gateway.step, hq, List.getLast?_append, List.getLast?_singleton, Option.some_or]
  have hanswers : s'.answers = s₁.answers := by
    rw [hs'']
    simp only [Gateway.step, hq]
  refine ⟨hshown, a, ?_, ?_⟩
  · rw [State.lastAnswer, hshown, Option.bind_some, hanswers]
    exact ha
  · have hasks : getData <:+: CString.cstr 0 getData := by
      rw [← CString.strstr_isSome_iff]
      decide
    rw [Misread.Answer.Asks, hrequest]
    exact hasks

/-- The answer under way is ended, and a new request answered. -/
def askNext (s : State) : List Event :=
  List.replicate 8 .http ++ ask (run other ofst s (List.replicate 8 .http))

theorem run_askNext (up : s.Up) (ready : s.request = none → s.pos = some .ax) :
    let s' := run other ofst s (askNext other ofst s)
    (∃ t ∈ s'.shown.getLast?, s.answers.length + (if s.pos = some .ax then 0 else 1) ≤ t) ∧
      ∃ a ∈ s'.lastAnswer, a.Asks := by
  obtain ⟨hrequest, hpos, hbegun⟩ := run_http other ofst up ready
  have hup : (run other ofst s (List.replicate 8 .http)).Up :=
    up_run up fun e he => by rw [List.eq_of_mem_replicate he]; rfl
  intro s'
  have hs' : s' = run other ofst (run other ofst s (List.replicate 8 .http))
      (ask (run other ofst s (List.replicate 8 .http))) := run_append other ofst _ _ _
  obtain ⟨hshown, hasks⟩ := run_ask other ofst hup hrequest hpos
  rw [← hs'] at hshown hasks
  exact ⟨⟨_, hshown, hbegun⟩, hasks⟩

theorem askNext_quiet {e : Event} (he : e ∈ askNext other ofst s) :
    e.isBus = false ∧ e.downs = false := by
  simp only [askNext, ask, List.mem_append, List.mem_replicate, List.mem_cons, List.not_mem_nil,
    or_false] at he
  rcases he with ⟨-, rfl⟩ | ((rfl | rfl) | ⟨-, rfl⟩) | rfl <;> exact ⟨rfl, rfl⟩

/-- The pages there are, one after each event. -/
def pages (s : State) : List Event → List Page
  | [] => []
  | e :: evs => (Gateway.step other ofst s e).page :: pages (Gateway.step other ofst s e) evs

theorem pages_append (evs evs' : List Event) :
    pages other ofst s (evs ++ evs') =
      pages other ofst s evs ++ pages other ofst (run other ofst s evs) evs' := by
  induction evs generalizing s with
  | nil => rfl
  | cons e evs ih => exact congrArg (_ :: ·) (ih (s := Gateway.step other ofst s e))

theorem page_mem_pages {evs : List Event} (h : evs ≠ []) :
    (run other ofst s evs).page ∈ pages other ofst s evs := by
  obtain ⟨init, e, rfl⟩ := List.eq_nil_or_concat' evs |>.resolve_left h
  rw [pages_append, run_append]
  exact List.mem_append_right _ (List.mem_singleton_self _)

end Answers

section Last
variable (other : List Char → Char → List Char) (ofst : BitVec 32)
  (aligned : ofst &&& hwRegsMask = 0) (c : Regs) (regs : RegFile) (ptr : BitVec 8)
include aligned

/-- The page can be brought to show the last update. -/
theorem page_can_show_last (pre : List Event)
    (up : (run other ofst (initial c regs ptr) pre).Up) {ups : List Update} {u : Update}
    (hlast : (run other ofst (initial c regs ptr) pre).updates = ups ++ [u]) :
    ∃ more, more ≠ [] ∧ (run other ofst (initial c regs ptr) (pre ++ more)).Up ∧
      (run other ofst (initial c regs ptr) (pre ++ more)).page = pageOf (shown u.out) := by
  let mid : List Event := List.replicate 15 .main
  let s₁ := run other ofst (initial c regs ptr) (pre ++ mid)
  have hlive : Live s₁ := (Live.initial c regs ptr).run (pre ++ mid)
  have hup : s₁.Up := by
    have hrun : s₁ = run other ofst (run other ofst (initial c regs ptr) pre) mid :=
      run_append other ofst _ pre mid
    rw [hrun]
    exact up_run up fun e he => by rw [List.eq_of_mem_replicate he]; rfl
  obtain ⟨⟨t, ht, hbegun⟩, a, ha, hasks⟩ := run_askNext other ofst hup hlive.ready
  have hquiet : (run other ofst (initial c regs ptr)
      (pre ++ mid ++ askNext other ofst s₁)).updates = ups ++ [u] := by
    rw [List.append_assoc, run_append, run_quiet, hlast]
    intro e he
    rcases List.mem_append.mp he with hmain | hask
    · rw [List.eq_of_mem_replicate hmain]
      rfl
    · exact (askNext_quiet other ofst hask).1
  refine ⟨mid ++ askNext other ofst s₁, List.cons_ne_nil _ _, ?_⟩
  rw [← List.append_assoc]
  rw [← run_append] at ht ha
  refine ⟨?_, ?_⟩
  · rw [run_append]
    exact up_run hup fun e he => (askNext_quiet other ofst he).2
  obtain ⟨hmisread | ⟨-, hpage⟩, hbounds⟩ :=
    page_of_fresh aligned c regs ptr pre mid (askNext other ofst s₁) (by decide) t ht hbegun
  · exact absurd hasks (hmisread.not_asks ha)
  refine hpage.trans (congrArg pageOf (funext fun ch => ?_))
  obtain ⟨hge, hle⟩ := hbounds ch
  rw [hquiet, List.length_append, List.length_singleton] at hle
  rw [hlast, List.length_append, List.length_singleton] at hge
  rw [Nat.le_antisymm hle hge, hquiet, vals_update List.prefix_rfl]

/-- The page can be brought to show any registers. -/
theorem page_can_show (evs : List Event) (up : (run other ofst (initial c regs ptr) evs).Up)
    (f : RegFile) : ∃ more, more ≠ [] ∧
      (run other ofst (initial c regs ptr) (evs ++ more)).Up ∧
      (run other ofst (initial c regs ptr) (evs ++ more)).page =
        pageOf (shown (wordsAt regAddrStart f)) := by
  have hgoing : Going (run other ofst (initial c regs ptr) evs) :=
    ⟨(Live.initial c regs ptr).run evs, up⟩
  obtain ⟨more, hgoing', ups, u, hlast, hout⟩ := (hgoing.outputs f).exists_run
  have hrun : run other ofst (initial c regs ptr) (evs ++ more) =
      Machine.run (step other ofst) (run other ofst (initial c regs ptr) evs) more :=
    run_append other ofst _ evs more
  rw [← hrun] at hgoing' hlast
  obtain ⟨more', hne, hup, hpage⟩ :=
    page_can_show_last other ofst aligned c regs ptr (evs ++ more) hgoing'.up hlast
  refine ⟨more ++ more', List.append_ne_nil_of_right_ne_nil more hne, ?_⟩
  rw [← List.append_assoc, hpage, hout]
  exact ⟨hup, rfl⟩

/-- The page can be brought to show any registers, one after the other. -/
theorem page_can_follow_up (evs : List Event)
    (up : (run other ofst (initial c regs ptr) evs).Up) (fs : List RegFile) :
    ∃ more, (fs.map fun f => pageOf (shown (wordsAt regAddrStart f))).Sublist
      (pages other ofst (run other ofst (initial c regs ptr) evs) more) := by
  induction fs generalizing evs with
  | nil => exact ⟨[], .slnil⟩
  | cons f fs ih =>
    obtain ⟨more, hne, hup, hpage⟩ := page_can_show other ofst aligned c regs ptr evs up f
    obtain ⟨more', hrest⟩ := ih (evs ++ more) hup
    refine ⟨more ++ more', ?_⟩
    rw [pages_append, ← run_append, List.map_cons, ← List.singleton_append]
    refine .append (List.singleton_sublist.mpr ?_) hrest
    rw [← hpage, run_append]
    exact page_mem_pages other ofst hne

end Last

/-! ## Result -/

section Result
variable (other : List Char → Char → List Char) (ofst : BitVec 32)
  (aligned : ofst &&& hwRegsMask = 0) (c : Regs) (regs : RegFile) (ptr : BitVec 8)
include aligned

/-- Whatever has happened, with KEY[0] pressed, and requests and answers on their way, cut
or lost: if the HTTP thread is going, there is a way on along which the page shows any
registers that the sensor is made to hold, one after the other; if a client has stalled
it, or ended the process, nobody is ever answered again. -/
theorem page_can_follow (evs : List Event) :
    let s := run other ofst (initial c regs ptr) evs
    (s.Up → ∀ fs : List RegFile, ∃ more,
      (fs.map fun f => pageOf (shown (wordsAt regAddrStart f))).Sublist
        (pages other ofst s more)) ∧
    (¬ s.Up → ∀ more, (run other ofst s more).answers = s.answers) :=
  ⟨page_can_follow_up other ofst aligned c regs ptr evs, fun down more => (down_run down more).2⟩

end Result

/-- After KEY[0] and a request that is cut behind the method, to the highest words and on to
the lowest. -/
theorem page_can_follow_pressed :
    let s := run Response.verbatim bridge start (.press :: fetch 0 (Response.ascii "GET"))
    s.Up ∧ ∃ more,
      ([fun _ => 0x7F, fun _ => 0x80].map fun f => pageOf (shown (wordsAt regAddrStart f))).Sublist
        (pages Response.verbatim bridge s more) := by
  intro s
  have up : s.Up := by decide +kernel
  exact ⟨up, (page_can_follow Response.verbatim bridge (by decide) Samples.blank (fun a => a) 0
    (.press :: fetch 0 (Response.ascii "GET"))).1 up [fun _ => 0x7F, fun _ => 0x80]⟩

end IotController.Responsive
