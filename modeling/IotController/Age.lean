import IotController.Responsive

/-! # The age of the page

The outputs are set anew every 50625 ticks, to registers the sensor has at that time,
and after a round of `main` the page is made of outputs there have been since the
round began. So a word on the page is as old as the round and the request, and 50625
ticks; and if the sensor keeps still for that long, the page shows what it holds. -/
namespace IotController.Age
open IotController.Controller IotController.Sequencer IotController.Timing
open IotController.Recovery IotController.Gateway IotController.Responsive
open IotController.ClosedLoop (Loop RegFile wordsAt sensorRegs)
open IotController.Pipeline (Channel)
open IotController.Report (hwRegsMask pageOf shown)

/-! ## Ticks -/

def isTick : Event → Bool
  | .tick => true
  | _ => false

def ticksIn (evs : List Event) : ℕ := evs.countP isTick

/-- The ticks since KEY[0], or since power-up. -/
def sinceReset (evs : List Event) : ℕ :=
  evs.foldl (fun n e => match e with
    | .press => 0
    | .tick => n + 1
    | _ => n) 0

theorem sinceReset_snoc (evs : List Event) (e : Event) : sinceReset (evs ++ [e]) = match e with
    | .press => 0
    | .tick => sinceReset evs + 1
    | _ => sinceReset evs := by
  rw [sinceReset, List.foldl_append]
  rfl

theorem sinceReset_ticks (n : ℕ) : sinceReset (List.replicate n .tick) = n := by
  induction n with
  | zero => rfl
  | succ n ih => rw [List.replicate_succ', sinceReset_snoc, ih]

theorem sinceReset_mono (evs : List Event) {rest : List Event} (unpressed : .press ∉ rest) :
    sinceReset evs ≤ sinceReset (evs ++ rest) := by
  induction rest using List.reverseRecOn with
  | nil => rw [List.append_nil]
  | append_singleton rest e ih =>
    rw [List.mem_append, not_or, List.mem_singleton] at unpressed
    refine (ih unpressed.1).trans ?_
    rw [← List.append_assoc, sinceReset_snoc]
    cases e with
    | press => exact absurd rfl unpressed.2
    | tick => exact Nat.le_succ _
    | sense f | main | send | accept r bytes | stall | http | sigpipe | deliver r | loseRequest r
    | loseResponse r => exact le_rfl

/-! ## The last read -/

/-- `n` reads since KEY[0], the last one `t - 10118` ticks ago. -/
structure Dated (other : List Char → Char → List Char) (ofst : BitVec 32) (s₀ : State)
    (evs : List Event) (n t : ℕ) : Prop where
  elapsed : Elapsed regAddrStart (run other ofst s₀ evs).bus.ctl t
  since : sinceReset evs = t + n * 50625
  ended : 0 < n → n < (run other ofst s₀ evs).bus.ended
  read : 0 < n → ∃ before after, evs = before ++ .tick :: after ∧ ticksIn after + 10118 = t ∧
    (run other ofst s₀ before).bus.ctl.Commits ∧ n ≤ (run other ofst s₀ before).bus.ended ∧
      (run other ofst s₀ evs).bus.ctl.out = (run other ofst s₀ (before ++ [.tick])).bus.ctl.out

section Dated
variable {other : List Char → Char → List Char} {ofst : BitVec 32} {s₀ : State}

theorem run_snoc (other : List Char → Char → List Char) (ofst : BitVec 32) (s : State)
    (evs : List Event) (e : Event) :
    run other ofst s (evs ++ [e]) = step other ofst (run other ofst s evs) e :=
  run_append other ofst s evs [e]

theorem Dated.quiet {evs : List Event} {n t : ℕ} (h : Dated other ofst s₀ evs n t) {e : Event}
    (hctl : (step other ofst (run other ofst s₀ evs) e).bus.ctl = (run other ofst s₀ evs).bus.ctl)
    (hended :
      (step other ofst (run other ofst s₀ evs) e).bus.ended = (run other ofst s₀ evs).bus.ended)
    (hsince : sinceReset (evs ++ [e]) = sinceReset evs) (hticks : ticksIn [e] = 0) :
    Dated other ofst s₀ (evs ++ [e]) n t := by
  refine ⟨?_, hsince.trans h.since, ?_, ?_⟩
  · rw [run_snoc, hctl]
    exact h.elapsed
  · rw [run_snoc, hended]
    exact h.ended
  · intro hn
    obtain ⟨before, after, hevs, hage, hcm, hle, hout⟩ := h.read hn
    refine ⟨before, after ++ [e], ?_, ?_, hcm, hle, ?_⟩
    · rw [hevs, List.append_assoc, List.cons_append]
    · rw [ticksIn, List.countP_append] at *
      omega
    · rw [run_snoc, hctl, hout]

theorem Dated.tick {evs : List Event} {n t : ℕ} (h : Dated other ofst s₀ evs n t)
    (hsound : Sound (run other ofst s₀ evs)) :
    ∃ n' t', Dated other ofst s₀ (evs ++ [.tick]) n' t' := by
  have hbus : (run other ofst s₀ (evs ++ [.tick])).bus =
      (run other ofst s₀ evs).bus.tick regAddrStart := by
    rw [run_snoc, tick_bus]
  have helapsed : Elapsed regAddrStart (run other ofst s₀ (evs ++ [.tick])).bus.ctl (succ t) := by
    rw [hbus]
    exact h.elapsed.tick _
  have hsince : sinceReset (evs ++ [.tick]) = sinceReset evs + 1 := sinceReset_snoc evs .tick
  have hle := h.elapsed.le
  have hmono : (run other ofst s₀ evs).bus.ended ≤
      (run other ofst s₀ (evs ++ [.tick])).bus.ended := by
    rw [hbus, ended_tick]
    split <;> omega
  by_cases hcm : (run other ofst s₀ evs).bus.ctl.Commits
  · have hlast := h.elapsed.commits_iff.mp hcm
    have hone : (run other ofst s₀ (evs ++ [.tick])).bus.ended =
        (run other ofst s₀ evs).bus.ended + 1 := by
      rw [hbus, ended_tick, if_pos hcm.1]
    have hcount : n + 1 ≤ (run other ofst s₀ evs).bus.ended := by
      rcases Nat.eq_zero_or_pos n with rfl | hn
      · exact hsound.ended_pos hcm
      · exact h.ended hn
    refine ⟨n + 1, 10118, ?_, ?_, fun _ => by omega, fun _ => ?_⟩
    · rwa [succ, if_pos hlast] at helapsed
    · rw [hsince, h.since]
      omega
    · exact ⟨evs, [], rfl, rfl, hcm, hcount, rfl⟩
  · have hnot : t ≠ 60742 := fun ht => hcm (h.elapsed.commits_iff.mpr ht)
    rw [succ, if_neg hnot] at helapsed
    refine ⟨n, t + 1, helapsed, ?_, fun hn => (h.ended hn).trans_le hmono, fun hn => ?_⟩
    · rw [hsince, h.since]
      omega
    · obtain ⟨before, after, hevs, hage, hcm', hcount, hout⟩ := h.read hn
      have hsame : ((run other ofst s₀ evs).bus.tick regAddrStart).ctl.out =
          (run other ofst s₀ evs).bus.ctl.out := by
        have htick := tick_out (run other ofst s₀ evs).bus.ctl
          (ClosedLoop.wires (run other ofst s₀ evs).bus.ctl (run other ofst s₀ evs).bus.slave).sda
          regAddrStart
        rwa [if_neg hcm] at htick
      refine ⟨before, after ++ [.tick], ?_, ?_, hcm', hcount, ?_⟩
      · rw [hevs, List.append_assoc, List.cons_append]
      · have hmore : ticksIn (after ++ [.tick]) = ticksIn after + 1 := List.countP_append
        omega
      · rw [hbus, hsame, hout]

theorem Dated.step {evs : List Event} {n t : ℕ} (h : Dated other ofst s₀ evs n t)
    (hsound : Sound (run other ofst s₀ evs)) (e : Event) :
    ∃ n' t', Dated other ofst s₀ (evs ++ [e]) n' t' := by
  have hbus {e : Event} (he : e.isBus = false) :=
    (step_quiet other ofst (Gateway.run other ofst s₀ evs) he).1
  cases e with
  | tick => exact h.tick hsound
  | press =>
    refine ⟨0, 0, ?_, sinceReset_snoc evs .press, fun hn => absurd hn (Nat.lt_irrefl 0),
      fun hn => absurd hn (Nat.lt_irrefl 0)⟩
    rw [run_snoc]
    exact .of_reset (Gateway.run other ofst s₀ evs).bus.ctl
  | sense f =>
    have hended : (Gateway.run other ofst s₀ evs).bus.ended =
        ((Gateway.run other ofst s₀ evs).bus.sense sensorRegs f).ended := by
      rw [Loop.sense]
      split <;> rfl
    exact ⟨n, t, h.quiet (Loop.sense_ctl _ _ f) hended.symm (sinceReset_snoc evs _) rfl⟩
  | main | send | accept r bytes | stall | http | sigpipe | deliver r | loseRequest r
    | loseResponse r =>
    exact ⟨n, t, h.quiet (congrArg Loop.ctl (hbus rfl)) (congrArg Loop.ended (hbus rfl))
      (sinceReset_snoc evs _) rfl⟩

end Dated

section Reads
variable (other : List Char → Char → List Char) (ofst : BitVec 32) (c : Regs) (regs : RegFile)
  (ptr : BitVec 8)

theorem exists_dated (evs : List Event) :
    ∃ n t, Dated other ofst (initial c regs ptr) evs n t := by
  induction evs using List.reverseRecOn with
  | nil =>
    exact ⟨0, 0, .of_reset c, rfl, fun hn => absurd hn (Nat.lt_irrefl 0),
      fun hn => absurd hn (Nat.lt_irrefl 0)⟩
  | append_singleton evs e ih =>
    obtain ⟨n, t, h⟩ := ih
    exact h.step ((Sound.initial c regs ptr).run evs) e

/-- After two reads the outputs are registers of the last 50625 ticks. -/
theorem exists_read {evs : List Event} (settled : 111368 ≤ sinceReset evs) :
    ∃ before after, evs = before ++ .tick :: after ∧ ticksIn after < 50625 ∧
      (run other ofst (initial c regs ptr) evs).bus.ctl.out =
        wordsAt regAddrStart (run other ofst (initial c regs ptr) before).bus.slave.mem.regs := by
  obtain ⟨n, t, h⟩ := exists_dated other ofst c regs ptr evs
  have hle := h.elapsed.le
  have hsince := h.since
  obtain ⟨before, after, hevs, hage, hcm, hcount, hout⟩ := h.read (by omega)
  refine ⟨before, after, hevs, by omega, ?_⟩
  have hsound : Sound (run other ofst (initial c regs ptr) before) :=
    (Sound.initial c regs ptr).run before
  rw [hout, run_snoc, tick_bus]
  exact hsound.commit hcm fun hfirst => by omega

end Reads

/-! ## The outputs of an update -/

theorem updates_step (other : List Char → Char → List Char) (ofst : BitVec 32) (s : State)
    (e : Event) :
    (step other ofst s e).updates.length ≤ s.updates.length + 1 := by
  have quiet {e : Event} (he : e.isBus = false) :
      (step other ofst s e).updates.length ≤ s.updates.length + 1 := by
    rw [(step_quiet other ofst s he).2.2]
    exact Nat.le_succ _
  cases e with
  | tick =>
    simp only [step, tickBus]
    split
    · exact List.length_append.le
    · exact Nat.le_succ _
  | press => exact List.length_append.le
  | sense f => exact Nat.le_succ _
  | main | send | accept r bytes | stall | http | sigpipe | deliver r | loseRequest r
    | loseResponse r => exact quiet rfl

section Moments
variable {other : List Char → Char → List Char} {ofst : BitVec 32}
  (aligned : ofst &&& hwRegsMask = 0) (c : Regs) (regs : RegFile) (ptr : BitVec 8)
include aligned

/-- The outputs show the last update. -/
theorem shown_out (evs : List Event) {H : List Update}
    (hH : (run other ofst (initial c regs ptr) evs).updates <+: H) :
    shown (run other ofst (initial c regs ptr) evs).bus.ctl.out =
      vals H (run other ofst (initial c regs ptr) evs).updates.length := by
  have hpio : shown (run other ofst (initial c regs ptr) evs).bus.ctl.out = _ :=
    congrArg Pipeline.State.pio (run_numbers c regs ptr aligned evs hH)
  have hbounded := Pipeline.Bounded.run (schedule other ofst (initial c regs ptr) evs)
  rw [hpio, run_commits c regs ptr aligned evs]
  funext ch
  exact congrArg (fun n => vals H n ch) (hbounded.pio ch)

/-- A word of an update there was at the end of `pre`, or made since, is one of
registers that the sensor had at most 50625 ticks before that, or has had since. -/
theorem word_of_update {pre rest : List Event} (settled : 111368 ≤ sinceReset pre)
    (unpressed : .press ∉ rest) {k : ℕ}
    (hlo : (run other ofst (initial c regs ptr) pre).updates.length ≤ k)
    (hhi : k ≤ (run other ofst (initial c regs ptr) (pre ++ rest)).updates.length) :
    ∃ before, before <+: pre ++ rest ∧ ticksIn (pre.drop before.length) ≤ 50625 ∧
      vals (run other ofst (initial c regs ptr) (pre ++ rest)).updates k =
        shown (wordsAt regAddrStart
          (run other ofst (initial c regs ptr) before).bus.slave.mem.regs) := by
  rw [run_append] at hhi
  obtain ⟨mid, post, rfl, hk⟩ := Machine.exists_split_eq (f := fun s : State => s.updates.length)
    (updates_step other ofst) hlo hhi
  have hmid : run other ofst (initial c regs ptr) (pre ++ mid) =
      Machine.run (step other ofst) (run other ofst (initial c regs ptr) pre) mid :=
    run_append other ofst _ pre mid
  have hgrow : (run other ofst (initial c regs ptr) (pre ++ mid)).updates <+:
      (run other ofst (initial c regs ptr) (pre ++ (mid ++ post))).updates := by
    rw [← List.append_assoc, run_append other ofst _ (pre ++ mid)]
    exact run_updates other ofst _ post
  have hshown := shown_out aligned c regs ptr (pre ++ mid) hgrow
  rw [hmid, hk, ← hmid] at hshown
  have hsettled := settled.trans
    (sinceReset_mono pre fun hmem => unpressed (List.mem_append_left post hmem))
  obtain ⟨before, after, hevs, hage, hout⟩ := exists_read other ofst c regs ptr hsettled
  refine ⟨before, ?_, ?_, ?_⟩
  · rw [← List.append_assoc, hevs, List.append_assoc]
    exact List.prefix_append _ _
  · have hdrop : pre.drop before.length ++ mid.drop (before.length - pre.length) =
        .tick :: after := by
      rw [← List.drop_append, hevs, List.drop_left]
    have hticks := congrArg ticksIn hdrop
    have hcons : ticksIn (.tick :: after) = ticksIn after + 1 := List.countP_cons_of_pos rfl
    rw [ticksIn, List.countP_append] at hticks
    change List.countP isTick (pre.drop before.length) ≤ 50625
    omega
  · rw [← hshown, hout]

end Moments

/-! ## A sensor that keeps still -/

/-- KEY[0], or the sensor changes. -/
def disturbs : Event → Bool
  | .press | .sense _ => true
  | _ => false

section Still
variable {other : List Char → Char → List Char} {ofst : BitVec 32}

theorem Found.step {f : RegFile} {s : State} (h : Found f s.bus) {e : Event}
    (still : disturbs e = false) : Found f (step other ofst s e).bus := by
  have quiet {e : Event} (he : e.isBus = false) : Found f (Gateway.step other ofst s e).bus := by
    rwa [(step_quiet other ofst s he).1]
  cases e with
  | tick =>
    rw [tick_bus]
    exact h.tick
  | press | sense g => cases still
  | main | send | accept r bytes | stall | http | sigpipe | deliver r | loseRequest r
    | loseResponse r => exact quiet rfl

theorem Found.run {f : RegFile} {s : State} (h : Found f s.bus) {evs : List Event}
    (still : ∀ e ∈ evs, disturbs e = false) : Found f (run other ofst s evs).bus := by
  induction evs generalizing s with
  | nil => exact h
  | cons e evs ih =>
    exact ih (Found.step h (still e List.mem_cons_self))
      fun e' he' => still e' (List.mem_cons_of_mem e he')

theorem not_press_of_still {evs : List Event} (still : ∀ e ∈ evs, disturbs e = false) :
    .press ∉ evs := fun hmem => Bool.noConfusion (still .press hmem)

variable (c : Regs) (regs : RegFile) (ptr : BitVec 8)

/-- After two reads the sensor is in step. -/
theorem found_of_settled {pre : List Event} (settled : 111368 ≤ sinceReset pre) :
    Found (run other ofst (initial c regs ptr) pre).bus.slave.mem.regs
      (run other ofst (initial c regs ptr) pre).bus := by
  obtain ⟨n, t, h⟩ := exists_dated other ofst c regs ptr pre
  have hle := h.elapsed.le
  have hsince := h.since
  have hended := h.ended (by omega)
  have hsound : Sound (run other ofst (initial c regs ptr) pre) :=
    (Sound.initial c regs ptr).run pre
  obtain ⟨lost, -, htracked⟩ := hsound.bus
  exact ⟨htracked.counts.mp (by omega),
    htracked.link.inStep_of_ended htracked.counts (by split <;> omega), fun _ _ => rfl⟩

/-- What was read when the sensor had kept still for a round is what it holds. -/
theorem words_of_still {pre held rest before : List Event} (settled : 111368 ≤ sinceReset pre)
    (long : 50625 < ticksIn held) (still : ∀ e ∈ held ++ rest, disturbs e = false)
    (hbefore : before <+: pre ++ held ++ rest)
    (hticks : ticksIn ((pre ++ held).drop before.length) ≤ 50625) :
    wordsAt regAddrStart (run other ofst (initial c regs ptr) before).bus.slave.mem.regs =
      wordsAt regAddrStart (run other ofst (initial c regs ptr) pre).bus.slave.mem.regs := by
  have hlen : pre.length ≤ before.length := by
    by_contra hshort
    rw [List.drop_append_of_le_length (by omega), ticksIn, List.countP_append] at hticks
    change 50625 < List.countP isTick held at long
    omega
  rw [List.append_assoc] at hbefore
  obtain ⟨mid, rfl⟩ := List.prefix_of_prefix_length_le (List.prefix_append _ _) hbefore hlen
  have hmid := (List.prefix_append_right_inj pre).mp hbefore
  have hfound : Found _ (run other ofst (run other ofst (initial c regs ptr) pre) mid).bus :=
    Found.run (found_of_settled c regs ptr settled) fun e he => still e (hmid.subset he)
  rw [run_append]
  exact wordsAt_congr hfound.regs

end Still

/-! ## Results -/

section Results
variable (other : List Char → Char → List Char) (ofst : BitVec 32)
  (aligned : ofst &&& hwRegsMask = 0) (c : Regs) (regs : RegFile) (ptr : BitVec 8)
include aligned

/-- The age of the page. Two reads after KEY[0], and once `main` has made fifteen steps
after `pre`, every word on a page whose snapshot was begun from then on is made of
registers that the sensor had at most 50625 ticks before the end of `pre`, or later;
unless the request was not read as one for the data. -/
theorem page_age (pre mid post : List Event) (steps : 15 ≤ mid.countP Event.isMain)
    (settled : 111368 ≤ sinceReset pre) (unpressed : .press ∉ mid ++ post) :
    let s₁ := run other ofst (initial c regs ptr) (pre ++ mid)
    let s := run other ofst (initial c regs ptr) (pre ++ mid ++ post)
    ∀ t ∈ s.shown.getLast?, s₁.answers.length + (if s₁.pos = some .ax then 0 else 1) ≤ t →
      s.Misread ∨ ∃ read : Channel → List Event,
        (∀ ch, read ch <+: pre ++ mid ++ post ∧ ticksIn (pre.drop (read ch).length) ≤ 50625) ∧
          s.page = pageOf fun ch => shown (wordsAt regAddrStart
            (run other ofst (initial c regs ptr) (read ch)).bus.slave.mem.regs) ch := by
  intro s₁ s t ht hle
  obtain ⟨hmisread | ⟨-, hpage⟩, hbounds⟩ :=
    page_of_fresh aligned c regs ptr pre mid post steps t ht hle
  · exact .inl hmisread
  have hs : s = run other ofst (initial c regs ptr) (pre ++ (mid ++ post)) :=
    congrArg _ (List.append_assoc pre mid post)
  rw [List.append_assoc] at hpage hbounds ⊢
  choose read hbefore hticks hword using fun ch => word_of_update aligned c regs ptr settled
    unpressed (hbounds ch).1 (hbounds ch).2
  refine .inr ⟨read, fun ch => ⟨hbefore ch, hticks ch⟩, ?_⟩
  rw [hs, hpage]
  exact congrArg pageOf (funext fun ch => congrFun (hword ch) ch)

end Results

/-- Ticks for two reads. -/
def settling : List Event := List.replicate 111368 .tick

theorem settled_settling : 111368 ≤ sinceReset settling := (sinceReset_ticks 111368).ge

/-- A round of `main` and a little more. -/
def polling : List Event := List.replicate 15 .main

section Polled
variable (c : Regs) (regs : RegFile) (ptr : BitVec 8) {evs : List Event}
  (polled : ∀ e ∈ evs, e = .tick ∨ e = .main)
include polled

/-- Ticks of the controller and rounds of `main` stall nobody, so the next request is
answered, and with the data. -/
theorem asked_of_polled :
    let s₁ := run Response.verbatim bridge (initial c regs ptr) evs
    let s := run Response.verbatim bridge (initial c regs ptr)
      (evs ++ askNext Response.verbatim bridge s₁)
    (∃ t ∈ s.shown.getLast?, s₁.answers.length + (if s₁.pos = some .ax then 0 else 1) ≤ t) ∧
      ∃ a ∈ s.lastAnswer, a.Asks := by
  intro s₁ s
  have hlive : Live s₁ := (Live.initial c regs ptr).run evs
  have hup : s₁.Up := up_run ⟨rfl, rfl⟩ fun e he => by rcases polled e he with rfl | rfl <;> rfl
  have hs : s = run Response.verbatim bridge s₁ (askNext Response.verbatim bridge s₁) :=
    run_append _ _ _ _ _
  rw [hs]
  exact run_askNext Response.verbatim bridge hup hlive.ready

theorem still_of_polled (s : State) :
    ∀ e ∈ evs ++ askNext Response.verbatim bridge s, disturbs e = false := by
  intro e he
  rcases List.mem_append.mp he with hmem | hask
  · rcases polled e hmem with rfl | rfl <;> rfl
  · cases e <;> first | rfl | cases (askNext_quiet Response.verbatim bridge hask).1

end Polled

/-- A page of two reads and a round of `main`. -/
theorem page_age_polled :
    let s₁ := run Response.verbatim bridge start (settling ++ polling)
    let rest := askNext Response.verbatim bridge s₁
    ∃ read : Channel → List Event,
      (∀ ch, read ch <+: settling ++ polling ++ rest ∧
        ticksIn (settling.drop (read ch).length) ≤ 50625) ∧
        (run Response.verbatim bridge start (settling ++ polling ++ rest)).page =
          pageOf fun ch => shown (wordsAt regAddrStart
            (run Response.verbatim bridge start (read ch)).bus.slave.mem.regs) ch := by
  -- for any beginning: none of the ticks is to be computed
  have aged (pre : List Event) (settled : 111368 ≤ sinceReset pre) (ticks : ∀ e ∈ pre, e = .tick) :
      let s₁ := run Response.verbatim bridge start (pre ++ polling)
      let rest := askNext Response.verbatim bridge s₁
      ∃ read : Channel → List Event,
        (∀ ch, read ch <+: pre ++ polling ++ rest ∧
          ticksIn (pre.drop (read ch).length) ≤ 50625) ∧
          (run Response.verbatim bridge start (pre ++ polling ++ rest)).page =
            pageOf fun ch => shown (wordsAt regAddrStart
              (run Response.verbatim bridge start (read ch)).bus.slave.mem.regs) ch := by
    intro s₁ rest
    have polled : ∀ e ∈ pre ++ polling, e = .tick ∨ e = .main := fun e he =>
      (List.mem_append.mp he).imp (ticks e) List.eq_of_mem_replicate
    obtain ⟨⟨t, ht, hbegun⟩, a, ha, hasks⟩ :=
      asked_of_polled Samples.blank (fun a => a) 0 polled
    have unpressed : .press ∉ polling ++ rest := fun hmem => by
      refine not_press_of_still (still_of_polled polled s₁) ?_
      rw [List.append_assoc]
      exact List.mem_append_right pre hmem
    refine (page_age Response.verbatim bridge (by decide) Samples.blank (fun a => a) 0 pre polling
      rest (by decide) settled unpressed t ht hbegun).resolve_left fun hmisread => ?_
    exact hmisread.not_asks ha hasks
  exact aged settling settled_settling fun e he => List.eq_of_mem_replicate he

section Results
variable (other : List Char → Char → List Char) (ofst : BitVec 32)
  (aligned : ofst &&& hwRegsMask = 0) (c : Regs) (regs : RegFile) (ptr : BitVec 8)
include aligned

/-- The page settles. If the sensor keeps still and KEY[0] is not pressed from the end
of `pre` on, then after 50626 ticks and fifteen steps of `main` every page whose
snapshot is begun from then on shows what the sensor holds, unless the request was not
read as one for the data. -/
theorem page_settles (pre held mid post : List Event) (settled : 111368 ≤ sinceReset pre)
    (long : 50625 < ticksIn held) (steps : 15 ≤ mid.countP Event.isMain)
    (still : ∀ e ∈ held ++ (mid ++ post), disturbs e = false) :
    let s₁ := run other ofst (initial c regs ptr) (pre ++ held ++ mid)
    let s := run other ofst (initial c regs ptr) (pre ++ held ++ mid ++ post)
    ∀ t ∈ s.shown.getLast?, s₁.answers.length + (if s₁.pos = some .ax then 0 else 1) ≤ t →
      s.Misread ∨ s.page = pageOf (shown (wordsAt regAddrStart
        (run other ofst (initial c regs ptr) pre).bus.slave.mem.regs)) := by
  intro s₁ s t ht hle
  obtain ⟨hmisread | ⟨-, hpage⟩, hbounds⟩ :=
    page_of_fresh aligned c regs ptr (pre ++ held) mid post steps t ht hle
  · exact .inl hmisread
  rw [List.append_assoc (pre ++ held)] at hpage hbounds
  have hs : s = run other ofst (initial c regs ptr) (pre ++ held ++ (mid ++ post)) :=
    congrArg _ (List.append_assoc (pre ++ held) mid post)
  have hsettled := settled.trans (sinceReset_mono pre
    (not_press_of_still fun e he => still e (List.mem_append_left _ he)))
  have unpressed := not_press_of_still fun e he => still e (List.mem_append_right held he)
  rw [hs, hpage]
  refine .inr (congrArg pageOf (funext fun ch => ?_))
  obtain ⟨before, hbefore, hticks, hword⟩ :=
    word_of_update aligned c regs ptr hsettled unpressed (hbounds ch).1 (hbounds ch).2
  rw [hword, words_of_still c regs ptr settled long still hbefore hticks]

end Results

/-- Ticks for a read and one more. -/
def waiting : List Event := List.replicate 50626 .tick

/-- The sensor keeps still for a read, after two others. -/
theorem page_settles_waited :
    let s₁ := run Response.verbatim bridge start (settling ++ waiting ++ polling)
    let rest := askNext Response.verbatim bridge s₁
    (run Response.verbatim bridge start (settling ++ waiting ++ polling ++ rest)).page =
      pageOf (shown (wordsAt regAddrStart
        (run Response.verbatim bridge start settling).bus.slave.mem.regs)) := by
  have ends (pre : List Event) {held : List Event} (settled : 111368 ≤ sinceReset pre)
      (long : 50625 < ticksIn held) (ticks : ∀ e ∈ pre ++ held, e = .tick) :
      let s₁ := run Response.verbatim bridge start (pre ++ held ++ polling)
      let rest := askNext Response.verbatim bridge s₁
      (run Response.verbatim bridge start (pre ++ held ++ polling ++ rest)).page =
        pageOf (shown (wordsAt regAddrStart
          (run Response.verbatim bridge start pre).bus.slave.mem.regs)) := by
    intro s₁ rest
    have polled : ∀ e ∈ pre ++ held ++ polling, e = .tick ∨ e = .main := fun e he =>
      (List.mem_append.mp he).imp (ticks e) List.eq_of_mem_replicate
    obtain ⟨⟨t, ht, hbegun⟩, a, ha, hasks⟩ :=
      asked_of_polled Samples.blank (fun a => a) 0 polled
    have still : ∀ e ∈ held ++ (polling ++ rest), disturbs e = false := fun e he => by
      refine still_of_polled polled s₁ e ?_
      rw [List.append_assoc, List.append_assoc]
      exact List.mem_append_right pre he
    refine (page_settles Response.verbatim bridge (by decide) Samples.blank (fun a => a) 0 pre held
      polling rest settled long (by decide) still t ht hbegun).resolve_left fun hmisread => ?_
    exact hmisread.not_asks ha hasks
  have long : 50625 < ticksIn waiting := by
    have hcount : ticksIn waiting = 50626 := List.countP_replicate
    rw [hcount]
    decide
  refine ends settling settled_settling long fun e he => ?_
  rcases List.mem_append.mp he with hmem | hmem <;> exact List.eq_of_mem_replicate hmem

end IotController.Age
