import Mathlib.Data.List.Induction
import Mathlib.Data.List.TakeWhile

/-! # The HTTP thread and its clients

One turn of the loop in `http_server_thread` against one client. What a client
does is a list of actions at each of three points: before `read` returns, between
`read` and the first `write`, and between the two writes. The sockets block and
nothing sets a timeout; `SIGPIPE` keeps its default action, so a write to a
connection the peer has reset ends the process, and with it the sensor loop. A peer
that has closed answers what is written to it with a reset. -/
namespace IotController.Server

/-! ## Connections -/

inductive Action where
  | send (bytes : List (BitVec 8))
  | close
  | reset
deriving DecidableEq, Repr

/-- The server's end of a connection. -/
structure Conn where
  inbox : List (BitVec 8)
  closed : Bool
  wasReset : Bool
deriving DecidableEq, Repr

def Conn.fresh : Conn := ⟨[], false, false⟩

/-- Nothing arrives after a close or a reset; a reset may also throw away what
is still unread (`keeps = false`). -/
def Conn.hear (keeps : Bool) (k : Conn) (a : Action) : Conn :=
  if k.wasReset then k
  else match a with
    | .send bytes => if k.closed then k else { k with inbox := k.inbox ++ bytes }
    | .close => { k with closed := true }
    | .reset => { k with wasReset := true, inbox := if keeps then k.inbox else [] }

def Conn.hears (keeps : Bool) (k : Conn) (as : List Action) : Conn := as.foldl (Conn.hear keeps) k

/-- The outcomes of `read` on a blocking socket. -/
inductive ReadResult where
  | data (bytes : List (BitVec 8))
  | eof
  | error
  | blocks
deriving DecidableEq, Repr

/-- `read(client_fd, recv_buf, sizeof(recv_buf) - 1)`. -/
def Conn.read (k : Conn) : ReadResult :=
  if k.inbox ≠ [] then .data (k.inbox.take 1023)
  else if k.wasReset then .error
  else if k.closed then .eof
  else .blocks

inductive WriteResult where
  | sent
  | connReset
  | sigpipe
deriving DecidableEq, Repr

/-- `write`. With `reports` the system first says `ECONNRESET` of a reset, once; it does
not if the reset came after a close. -/
def Conn.write (k : Conn) (reports : Bool) : WriteResult :=
  if !k.wasReset then .sent
  else if reports && !k.closed then .connReset
  else .sigpipe

/-- What has been written to a peer that has closed comes back as a reset, `prompt`ly or
when the thread is through. -/
def Conn.rebound (k : Conn) (prompt : Bool) : Conn :=
  if prompt && k.closed then { k with wasReset := true } else k

/-! ## The loop body -/

/-- One client: what it does before `read` returns, before the header is written and
before the body is; whether its reset keeps what it has sent, whether the reset that the
header draws is back before the body is written, and whether the system reports a
reset. -/
inductive Client where
  | acceptFails
  | connects (early mid late : List Action) (keeps prompt reports : Bool)
deriving DecidableEq, Repr

/-- What becomes of a client, and of the thread. -/
inductive Outcome where
  /-- the descriptor is closed without a response having gone out in full -/
  | dropped
  | answered (request : List (BitVec 8))
  | killed
  | blocked
deriving DecidableEq, Repr

/-- The two writes, `k₁` and `k₂` being the connection when each is made. Their results
are not looked at. -/
def respond (reports : Bool) (k₁ k₂ : Conn) (request : List (BitVec 8)) : Outcome :=
  if k₁.write reports = .sigpipe then .killed
  else if k₂.write (reports && !k₁.wasReset) = .sigpipe then .killed
  else if k₂.closed || k₂.wasReset then .dropped
  else .answered request

def Client.outcome : Client → Outcome
  | .acceptFails => .dropped
  | .connects early mid late keeps prompt reports =>
    let k := Conn.fresh.hears keeps early
    match k.read with
    | .data request =>
      let k₁ := k.hears keeps mid
      respond reports k₁ ((k₁.rebound prompt).hears keeps late) request
    | .eof | .error => .dropped
    | .blocks => .blocked

structure Process where
  alive : Bool
  /-- the HTTP thread sits in a `read` that never returns -/
  blocked : Bool
  /-- client descriptors not closed -/
  openFds : Nat
  /-- the requests answered, in order -/
  answered : List (List (BitVec 8))
deriving DecidableEq, Repr

def Process.start : Process := ⟨true, false, 0, []⟩

/-- Waiting in `accept` with nothing left open. -/
def Process.Ready (p : Process) : Prop := p.alive = true ∧ p.blocked = false ∧ p.openFds = 0

instance (p : Process) : Decidable p.Ready := inferInstanceAs (Decidable (_ ∧ _ ∧ _))

def Process.turn (p : Process) (c : Client) : Process :=
  match c.outcome with
  | .dropped => p
  | .answered request => { p with answered := p.answered ++ [request] }
  | .killed => { p with alive := false, openFds := 0 }
  | .blocked => { p with blocked := true, openFds := p.openFds + 1 }

/-- A thread that is blocked, or gone, accepts nobody. -/
def Process.step (p : Process) (c : Client) : Process :=
  if p.alive = true ∧ p.blocked = false then p.turn c else p

def run (cs : List Client) : Process := cs.foldl Process.step .start

/-! ## Kinds of clients -/

/-- The connection when `read` returns, or blocks. -/
def Client.conn : Client → Conn
  | .acceptFails => .fresh
  | .connects early _ _ keeps _ _ => Conn.fresh.hears keeps early

/-- It sends nothing and keeps the connection open. -/
def Client.Stalls (c : Client) : Prop := c ≠ .acceptFails ∧ c.conn = .fresh

/-- It resets before the header is written; or closes before that, and its reset is back
before the body is written; or resets between the two writes, and that write is not told
so but ends the process. -/
def Client.Gone : Client → Prop
  | .acceptFails => False
  | .connects early mid late _ prompt reports =>
    .reset ∈ early ++ mid ∨
    .close ∈ early ++ mid ∧ (prompt = true ∨ .reset ∈ late) ∨
    .reset ∈ late ∧ (reports = false ∨ .close ∈ late.takeWhile (· ≠ .reset))

/-- Something it sent is read, and it is gone when it is written to. -/
def Client.Kills (c : Client) : Prop := c.conn.inbox ≠ [] ∧ c.Gone

/-- It is there until the response has been written. -/
def Client.Stays : Client → Prop
  | .acceptFails => True
  | .connects early mid late _ _ _ =>
    .close ∉ early ++ mid ++ late ∧ .reset ∉ early ++ mid ++ late

/-- Something it sent is read, and it is there until the response has been written. -/
def Client.WellBehaved (c : Client) : Prop := c.conn.inbox ≠ [] ∧ c.Stays

/-- What the thread finds in `recv_buf`. -/
def Client.request (c : Client) : List (BitVec 8) := c.conn.inbox.take 1023

section Hears
variable (keeps : Bool) (k : Conn) (as : List Action)

theorem hears_cons (a : Action) : k.hears keeps (a :: as) = (k.hear keeps a).hears keeps as := rfl

theorem hears_wasReset :
    (k.hears keeps as).wasReset = true ↔ k.wasReset = true ∨ .reset ∈ as := by
  induction as generalizing k with
  | nil => simp [Conn.hears]
  | cons a as ih =>
    have hstep : (k.hear keeps a).wasReset = true ↔ k.wasReset = true ∨ a = .reset := by
      by_cases hr : k.wasReset = true
      · simp [Conn.hear, hr]
      · cases a with
        | send bytes => by_cases hc : k.closed = true <;> simp [Conn.hear, hr, hc]
        | close => simp [Conn.hear, hr]
        | reset => simp [Conn.hear, hr]
    rw [hears_cons, ih, hstep, List.mem_cons, or_assoc, eq_comm (a := a)]

/-- Only what comes before a reset closes. -/
theorem hears_closed : (k.hears keeps as).closed = true ↔
    k.closed = true ∨ k.wasReset = false ∧ .close ∈ as.takeWhile (· ≠ .reset) := by
  induction as generalizing k with
  | nil => simp [Conn.hears]
  | cons a as ih =>
    rw [hears_cons, ih]
    cases hr : k.wasReset with
    | true => simp [Conn.hear, hr]
    | false =>
      cases a with
      | send bytes => by_cases hc : k.closed = true <;> simp [Conn.hear, hr, hc]
      | close => simp [Conn.hear, hr]
      | reset => simp [Conn.hear, hr]

end Hears

theorem fresh_iff (k : Conn) :
    k = .fresh ↔ k.inbox = [] ∧ k.closed = false ∧ k.wasReset = false := by
  obtain ⟨inbox, closed, wasReset⟩ := k
  simp [Conn.fresh]

/-! ## One turn -/

section Turn
variable {p : Process} {c : Client}

theorem write_sigpipe (k : Conn) (reports : Bool) : k.write reports = .sigpipe ↔
    k.wasReset = true ∧ (reports = false ∨ k.closed = true) := by
  unfold Conn.write
  cases k.wasReset <;> cases reports <;> cases k.closed <;> decide

theorem rebound_wasReset (k : Conn) (prompt : Bool) : (k.rebound prompt).wasReset = true ↔
    k.wasReset = true ∨ prompt = true ∧ k.closed = true := by
  unfold Conn.rebound
  cases prompt <;> cases hc : k.closed <;> simp

theorem rebound_closed (k : Conn) (prompt : Bool) : (k.rebound prompt).closed = k.closed := by
  unfold Conn.rebound
  split <;> rfl

/-- Without a reset all closes count. -/
theorem takeWhile_of_no_reset {as : List Action} (h : .reset ∉ as) :
    as.takeWhile (· ≠ .reset) = as := by
  refine List.takeWhile_eq_self_iff.mpr fun a ha => decide_eq_true ?_
  rintro rfl
  exact h ha

section Respond
variable (late : List Action) (keeps prompt reports : Bool) (request : List (BitVec 8)) {k : Conn}

/-- After a reset one of the two writes ends the process. -/
theorem respond_of_reset (h : k.wasReset = true) :
    respond reports k ((k.rebound prompt).hears keeps late) request = .killed := by
  have hlater : ((k.rebound prompt).hears keeps late).wasReset = true :=
    (hears_wasReset ..).mpr (.inl ((rebound_wasReset ..).mpr (.inl h)))
  simp only [respond, write_sigpipe, h, hlater]
  split <;> simp

/-- The peer that has closed is written the header, and its reset may meet the body. -/
theorem respond_of_closed (h : k.wasReset = false) (hc : k.closed = true) :
    respond reports k ((k.rebound prompt).hears keeps late) request =
      if prompt = true ∨ .reset ∈ late then .killed else .dropped := by
  have hreset := hears_wasReset keeps (k.rebound prompt) late
  have hclosed : ((k.rebound prompt).hears keeps late).closed = true :=
    (hears_closed ..).mpr (.inl (by rw [rebound_closed, hc]))
  rw [rebound_wasReset, h, hc] at hreset
  simp only [Bool.false_eq_true, false_or, and_true] at hreset
  simp [respond, write_sigpipe, h, hclosed, hreset]

/-- The peer that is there when the header is written may be gone before the body. -/
theorem respond_of_open (h : k.wasReset = false) (hc : k.closed = false) :
    respond reports k ((k.rebound prompt).hears keeps late) request =
      if .reset ∈ late ∧ (reports = false ∨ .close ∈ late.takeWhile (· ≠ .reset)) then .killed
      else if .close ∈ late ∨ .reset ∈ late then .dropped
      else .answered request := by
  have hsame : k.rebound prompt = k := if_neg (by simp [hc])
  have hreset := hears_wasReset keeps k late
  have hclosed := hears_closed keeps k late
  rw [h] at hreset hclosed
  rw [hc] at hclosed
  simp only [Bool.false_eq_true, false_or, true_and] at hreset hclosed
  rw [hsame]
  simp only [respond, write_sigpipe, h, hreset, hclosed, Bool.not_false, Bool.and_true,
    Bool.false_eq_true, false_and, if_false, Bool.or_eq_true]
  by_cases hl : .reset ∈ late
  · simp only [hl, or_true]
  · rw [takeWhile_of_no_reset hl]

end Respond

/-- The end of a turn in which something was read, by where the closes and the resets
are. -/
theorem respond_cases (early mid late : List Action) (keeps prompt reports : Bool)
    (request : List (BitVec 8)) :
    let c : Client := .connects early mid late keeps prompt reports
    let k₁ := c.conn.hears keeps mid
    let o := respond reports k₁ ((k₁.rebound prompt).hears keeps late) request
    c.Gone ∧ o = .killed ∨ c.Stays ∧ ¬ c.Gone ∧ o = .answered request ∨
      ¬ c.Stays ∧ ¬ c.Gone ∧ o = .dropped := by
  intro c k₁ o
  have hk₁ : k₁ = Conn.fresh.hears keeps (early ++ mid) := List.foldl_append.symm
  have hstays : c.Stays ↔ (.close ∉ early ++ mid ∧ .close ∉ late) ∧
      .reset ∉ early ++ mid ∧ .reset ∉ late := by
    rw [← not_or, ← not_or, ← List.mem_append, ← List.mem_append]
    exact Iff.rfl
  have hreset : k₁.wasReset = true ↔ .reset ∈ early ++ mid := by
    rw [hk₁, hears_wasReset]
    simp [Conn.fresh]
  by_cases hr : .reset ∈ early ++ mid
  · exact .inl ⟨.inl hr, respond_of_reset late keeps prompt reports request (hreset.mpr hr)⟩
  have hclosed : k₁.closed = true ↔ .close ∈ early ++ mid := by
    rw [hk₁, hears_closed, takeWhile_of_no_reset hr]
    simp [Conn.fresh]
  have h₁ := Bool.eq_false_iff.mpr (mt hreset.mp hr)
  by_cases hc : .close ∈ early ++ mid
  · have ho : o = _ := respond_of_closed late keeps prompt reports request h₁ (hclosed.mpr hc)
    have hleft : ¬ c.Stays := fun hs => (hstays.mp hs).1.1 hc
    split at ho
    · next hback => exact .inl ⟨.inr (.inl ⟨hc, hback⟩), ho⟩
    · next hback =>
      refine .inr (.inr ⟨hleft, ?_, ho⟩)
      rintro (hreset | ⟨-, hback'⟩ | ⟨hreset, -⟩)
      · exact hr hreset
      · exact hback hback'
      · exact hback (.inr hreset)
  · have hc₁ := Bool.eq_false_iff.mpr (mt hclosed.mp hc)
    have ho : o = _ := respond_of_open late keeps prompt reports request h₁ hc₁
    split at ho
    · next htold => exact .inl ⟨.inr (.inr htold), ho⟩
    · next htold =>
      have hnot : ¬ c.Gone := by
        rintro (hreset | ⟨hclose, -⟩ | htold')
        · exact hr hreset
        · exact hc hclose
        · exact htold htold'
      split at ho
      · next hleft =>
        exact .inr (.inr ⟨fun hs => hleft.elim (hstays.mp hs).1.2 (hstays.mp hs).2.2, hnot, ho⟩)
      · next hleft =>
        obtain ⟨hcl, hl⟩ := not_or.mp hleft
        exact .inr (.inl ⟨hstays.mpr ⟨⟨hc, hcl⟩, hr, hl⟩, hnot, ho⟩)

/-- The four ways a turn can end. -/
theorem outcome_cases (c : Client) :
    c.Stalls ∧ c.outcome = .blocked ∨ c.Kills ∧ c.outcome = .killed ∨
    c.WellBehaved ∧ ¬ c.Kills ∧ c.outcome = .answered c.request ∨
    ¬ c.Stalls ∧ ¬ c.Kills ∧ ¬ c.WellBehaved ∧ c.outcome = .dropped := by
  cases c with
  | acceptFails =>
    exact .inr (.inr (.inr ⟨fun h => h.1 rfl, fun h => h.1 rfl, fun h => h.1 rfl, rfl⟩))
  | connects early mid late keeps prompt reports =>
    let c : Client := .connects early mid late keeps prompt reports
    have houtcome : c.outcome = match c.conn.read with
        | .data request => respond reports (c.conn.hears keeps mid)
            (((c.conn.hears keeps mid).rebound prompt).hears keeps late) request
        | .eof | .error => .dropped
        | .blocks => .blocked := rfl
    have hin_iff : c.conn.inbox = [] ∨ c.conn.inbox ≠ [] := em _
    rcases hin_iff with hin | hin
    · have hkills : ¬ c.Kills := fun h => h.1 hin
      have hwell : ¬ c.WellBehaved := fun h => h.1 hin
      rw [Conn.read, if_neg (not_not.mpr hin)] at houtcome
      by_cases hfresh : c.conn = .fresh
      · refine .inl ⟨⟨by simp, hfresh⟩, ?_⟩
        rw [houtcome, hfresh]
        rfl
      · refine .inr (.inr (.inr ⟨fun h => hfresh h.2, hkills, hwell, houtcome.trans ?_⟩))
        rw [fresh_iff] at hfresh
        by_cases hr : c.conn.wasReset = true
        · rw [if_pos hr]
        · have hc : c.conn.closed = true := by simp_all
          rw [if_neg hr, if_pos hc]
    · rw [Conn.read, if_pos hin] at houtcome
      rcases respond_cases early mid late keeps prompt reports (c.conn.inbox.take 1023) with
        ⟨hgone, ho⟩ | ⟨hstays, hnot, ho⟩ | ⟨hleft, hnot, ho⟩
      · exact .inr (.inl ⟨⟨hin, hgone⟩, houtcome.trans ho⟩)
      · exact .inr (.inr (.inl ⟨⟨hin, hstays⟩, fun h => hnot h.2, houtcome.trans ho⟩))
      · refine .inr (.inr (.inr ⟨fun h => hin (by rw [h.2]; rfl), fun h => hnot h.2,
          fun h => hleft h.2, houtcome.trans ho⟩))

theorem not_stalls_of_inbox {c : Client} (h : c.conn.inbox ≠ []) : ¬ c.Stalls :=
  fun hs => h (by rw [hs.2]; rfl)

theorem not_kills_of_wellBehaved (h : c.WellBehaved) : ¬ c.Kills := by
  intro hk
  cases c with
  | acceptFails => exact hk.2
  | connects early mid late keeps prompt reports =>
    obtain ⟨-, hclose, hreset⟩ := h
    rcases hk.2 with hr | ⟨hc, -⟩ | ⟨hr, -⟩
    · exact hreset (List.mem_append_left _ hr)
    · exact hclose (List.mem_append_left _ hc)
    · exact hreset (List.mem_append_right _ hr)

theorem step_ready (h : p.Ready) (c : Client) : p.step c = p.turn c := if_pos ⟨h.1, h.2.1⟩

/-- Nothing brings the thread back. -/
theorem foldl_step_of_not_ready (h : ¬ (p.alive = true ∧ p.blocked = false)) (cs : List Client) :
    cs.foldl Process.step p = p := by
  induction cs with
  | nil => rfl
  | cons c cs ih => rw [List.foldl_cons, Process.step, if_neg h, ih]

end Turn

theorem ready_step_iff (p : Process) (c : Client) :
    (p.step c).Ready ↔ p.Ready ∧ ¬ c.Stalls ∧ ¬ c.Kills := by
  unfold Process.step
  by_cases hp : p.alive = true ∧ p.blocked = false
  · rw [if_pos hp, Process.turn]
    rcases outcome_cases c with ⟨h, he⟩ | ⟨h, he⟩ | ⟨h, hk, he⟩ | ⟨hs, hk, -, he⟩ <;> rw [he]
    · exact iff_of_false (fun hr => absurd hr.2.1 (by simp)) fun hr => hr.2.1 h
    · exact iff_of_false (fun hr => absurd hr.1 (by simp)) fun hr => hr.2.2 h
    · exact ⟨fun hr => ⟨hr, not_stalls_of_inbox h.1, hk⟩, fun hr => hr.1⟩
    · exact ⟨fun hr => ⟨hr, hs, hk⟩, fun hr => hr.1⟩
  · rw [if_neg hp]
    exact iff_of_false (fun hr => hp ⟨hr.1, hr.2.1⟩) fun hr => hp ⟨hr.1.1, hr.1.2.1⟩

/-! ## Results -/

theorem run_append (pre : List Client) (c : Client) (post : List Client) :
    run (pre ++ c :: post) = post.foldl Process.step ((run pre).step c) := by
  rw [run, List.foldl_append, List.foldl_cons, ← run]

theorem ready_run_iff (cs : List Client) :
    (run cs).Ready ↔ ∀ c ∈ cs, ¬ c.Stalls ∧ ¬ c.Kills := by
  induction cs using List.reverseRecOn with
  | nil => simp [run, Process.start, Process.Ready]
  | append_singleton cs c ih =>
    rw [run_append, List.foldl_nil, ready_step_iff, ih, List.forall_mem_append,
      List.forall_mem_singleton]

/-- The thread comes back to `accept`, with everything closed, from exactly the
sequences without a client that stalls or kills; then the next well-behaved
client is answered. The first client that stalls takes the HTTP thread with it,
the first that kills takes the sensor loop as well. -/
theorem service_survives_iff (cs : List Client) :
    ((run cs).Ready ↔ ∀ c ∈ cs, ¬ c.Stalls ∧ ¬ c.Kills) ∧
    ((run cs).Ready → ∀ c : Client,
      (c.WellBehaved → run (cs ++ [c]) =
        { run cs with answered := (run cs).answered ++ [c.request] }) ∧
      ∀ post, (c.Stalls → run (cs ++ c :: post) =
          { run cs with blocked := true, openFds := 1 }) ∧
        (c.Kills → run (cs ++ c :: post) = { run cs with alive := false, openFds := 0 })) := by
  refine ⟨ready_run_iff cs, ?_⟩
  intro hr c
  refine ⟨?_, fun post => ⟨?_, ?_⟩⟩
  · intro hc
    rw [run_append, List.foldl_nil, step_ready hr, Process.turn]
    rcases outcome_cases c with ⟨h, -⟩ | ⟨h, -⟩ | ⟨-, -, he⟩ | ⟨-, -, h, -⟩
    · exact absurd h (not_stalls_of_inbox hc.1)
    · exact absurd h (not_kills_of_wellBehaved hc)
    · rw [he]
    · exact absurd hc h
  · intro hc
    rw [run_append, step_ready hr, Process.turn]
    rcases outcome_cases c with ⟨-, he⟩ | ⟨h, -⟩ | ⟨h, -⟩ | ⟨h, -⟩
    · rw [he, hr.2.2]
      exact foldl_step_of_not_ready (by simp) post
    · exact absurd hc (not_stalls_of_inbox h.1)
    · exact absurd hc (not_stalls_of_inbox h.1)
    · exact absurd hc h
  · intro hc
    rw [run_append, step_ready hr, Process.turn]
    rcases outcome_cases c with ⟨h, -⟩ | ⟨-, he⟩ | ⟨-, h, -⟩ | ⟨-, h, -⟩
    · exact absurd h (not_stalls_of_inbox hc.1)
    · rw [he]
      exact foldl_step_of_not_ready (by simp) post
    · exact absurd hc h
    · exact absurd hc h

/-- A client that connects and says nothing. -/
def silent : Client := .connects [] [] [] false false false

/-- A client that asks for the data and resets before the header is written. -/
def impatient (keeps prompt reports : Bool) : Client :=
  .connects [.send ("GET /data".toList.map fun c => BitVec.ofNat 8 c.toNat)] [.reset] []
    keeps prompt reports

/-- The one blocks the HTTP thread; the other ends the process, whether or not the system
reports the reset first. -/
theorem clients_stop_service :
    (¬ ∀ cs, (run cs).Ready) ∧ (run [silent]).blocked = true ∧
      ∀ keeps prompt reports, (run [impatient keeps prompt reports]).alive = false :=
  ⟨fun h => absurd (h [silent]) (by decide), by decide, by decide⟩

end IotController.Server
