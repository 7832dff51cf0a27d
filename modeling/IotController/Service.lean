import IotController.Response

/-! # The HTTP thread over many clients

`recv_buf` is one array for all connections, and each turn of the loop leaves what it
read in it. What a client gets depends on its own bytes and on the globals in its own
turn: the thread is a pure answer to each client, as long as none of them stalls it or
kills the process. -/
namespace IotController.Service
open IotController.Pipeline IotController.Report IotController.CString IotController.Http
open IotController.Server IotController.Response

/-! ## The thread -/

/-- A client, the globals that its snapshot finds, and what the two writes leave
unsent. -/
structure Turn where
  client : Client
  words : Channel → BitVec 16
  left₁ : ℕ
  left₂ : ℕ

structure State where
  process : Process
  recvBuf : Vector (BitVec 8) 1024
  /-- what has gone out to the clients that were answered -/
  sent : List (List Char)

/-- `recv_buf` after the `read`. -/
def fill (buf : Vector (BitVec 8) 1024) (k : Conn) : Vector (BitVec 8) 1024 :=
  match h : k.read with
  | .data bytes => received buf bytes (read_length h)
  | .eof | .error | .blocks => buf

section Thread
variable (other : List Char → Char → List Char)

/-- The body of the loop. -/
def State.turn (s : State) (t : Turn) : State where
  process := s.process.turn t.client
  recvBuf := fill s.recvBuf t.client.conn
  sent := match t.client.outcome, answer t.words s.recvBuf t.client.conn with
    | .answered _, some b => s.sent ++ [b.sent other t.left₁ t.left₂]
    | _, _ => s.sent

def State.step (s : State) (t : Turn) : State :=
  if s.process.alive = true ∧ s.process.blocked = false then s.turn other t else s

/-- The thread starts with anything in `recv_buf`. -/
def run (buf : Vector (BitVec 8) 1024) (ts : List Turn) : State :=
  ts.foldl (State.step other) ⟨.start, buf, []⟩

/-! ## The answer to one client -/

/-- What a client that is answered gets. -/
def respond (t : Turn) : List Char :=
  (route t.words t.client.request).sent other t.left₁ t.left₂

end Thread

instance (c : Client) : Decidable c.Stalls := inferInstanceAs (Decidable (_ ∧ _))

instance : (c : Client) → Decidable c.Gone
  | .acceptFails => inferInstanceAs (Decidable False)
  | .connects _ _ _ _ _ _ => inferInstanceAs (Decidable (_ ∨ _ ∧ _ ∨ _ ∧ _))

instance : (c : Client) → Decidable c.Stays
  | .acceptFails => inferInstanceAs (Decidable True)
  | .connects _ _ _ _ _ _ => inferInstanceAs (Decidable (_ ∧ _))

instance (c : Client) : Decidable c.Kills := inferInstanceAs (Decidable (_ ∧ _))
instance (c : Client) : Decidable c.WellBehaved := inferInstanceAs (Decidable (_ ∧ _))

/-- The turns that are answered: those of well-behaved clients, up to the first client
that stalls or kills. -/
def answered (ts : List Turn) : List Turn :=
  (ts.takeWhile fun t => ¬ t.client.Stalls ∧ ¬ t.client.Kills).filter fun t =>
    t.client.WellBehaved

section Run
variable {other : List Char → Char → List Char} {s : State} {t : Turn}

theorem step_process (s : State) (t : Turn) :
    (s.step other t).process = s.process.step t.client := by
  rw [State.step, Process.step]
  split <;> rfl

theorem foldl_process (s : State) (ts : List Turn) :
    (ts.foldl (State.step other) s).process =
      (ts.map Turn.client).foldl Process.step s.process := by
  induction ts generalizing s with
  | nil => rfl
  | cons t ts ih => rw [List.foldl_cons, ih, step_process, List.map_cons, List.foldl_cons]

/-- Nobody is served any more. -/
theorem foldl_of_not_ready (h : ¬ (s.process.alive = true ∧ s.process.blocked = false))
    (ts : List Turn) : ts.foldl (State.step other) s = s := by
  induction ts with
  | nil => rfl
  | cons t ts ih => rw [List.foldl_cons, State.step, if_neg h, ih]

/-- One turn, and what it leaves for the next ones. -/
theorem foldl_sent (h : s.process.Ready) (ts : List Turn) :
    (ts.foldl (State.step other) s).sent = s.sent ++ (answered ts).map (respond other) := by
  induction ts generalizing s with
  | nil => exact (List.append_nil _).symm
  | cons t ts ih =>
    have hstep : s.step other t = s.turn other t := if_pos ⟨h.1, h.2.1⟩
    rw [List.foldl_cons, hstep]
    rcases outcome_cases t.client with ⟨hc, ho⟩ | ⟨hc, ho⟩ | ⟨hc, hk, ho⟩ | ⟨hs, hk, hw, ho⟩
    · rw [foldl_of_not_ready (by simp [State.turn, Process.turn, ho])]
      simp [State.turn, ho, answered, hc]
    · rw [foldl_of_not_ready (by simp [State.turn, Process.turn, ho])]
      simp [State.turn, ho, answered, hc]
    · have hsome := answer_request hc.1 t.words s.recvBuf
      have hready : (s.turn other t).process.Ready := by
        simp only [State.turn, Process.turn, ho]
        exact h
      rw [ih hready]
      simp [State.turn, ho, hsome, answered, not_stalls_of_inbox hc.1, hk, hc, respond]
    · have hready : (s.turn other t).process.Ready := by
        simp only [State.turn, Process.turn, ho]
        exact h
      rw [ih hready]
      simp [State.turn, ho, answered, hs, hk, hw]

end Run

/-! ## What the client reads -/

/-- `responseText` once `readyState` is 4 and `status` 200; `none` if part of the
response is missing. -/
def responseText (text : List Char) : Option (List Char) :=
  (readHead [] text).bind fun p =>
    if p.1.head? = some "HTTP/1.1 200 OK\r".toList ∧ contentLength p.1 = some p.2.length then
      some p.2
    else none

theorem responseText_of_not_framed {text : List Char} (h : ¬ Framed text) :
    responseText text = none := by
  unfold responseText
  cases hread : readHead [] text with
  | none => rfl
  | some p => exact if_neg fun hc => h ⟨p, hread, hc.2⟩

/-- The data are read back, if the writes have sent them. -/
theorem responseText_data {other : List Char → Char → List Char} {t : Turn}
    (hdata : getData <:+: cstr 0 t.client.request) :
    responseText (respond other t) =
      if t.left₁ = 0 ∧ t.left₂ = 0 then some (csv t.words) else none := by
  have hplain := data_plain t.words
  have hone := data_oneLine other t.words
  rw [respond, route_eq, if_pos hdata]
  split
  · next hleft =>
    have hlines := headerLines_spec hplain ((dataBranch t.words).printed other).length
    have hread := readHead_rows (fun l hl => ⟨(hlines l hl).1, (hlines l hl).2.1⟩)
      ((dataBranch t.words).printed other)
    rw [hleft.1, hleft.2, sent_eq hplain hone, written, written, Nat.sub_zero, Nat.sub_zero,
      List.take_length, List.take_length, List.append_assoc, List.cons_append, List.cons_append,
      List.nil_append, responseText, hread, Option.bind_some,
      if_pos ⟨rfl, contentLength_headerLines _ _⟩, data_printed, csv_eq]
  · next hleft =>
    exact responseText_of_not_framed (mt (sent_framed_iff hplain hone t.left₁ t.left₂).mp hleft)

/-! ## Results -/

/-- Over any sequence of connections, with anything in `recv_buf` before: the clients
that are answered are the well-behaved ones up to the first that stalls or kills, what
each of them gets depends on its own request and the globals of its own turn only, and
a client that asks for the data shows these globals, or nothing if a write was short. -/
theorem answers_independent (other : List Char → Char → List Char)
    (buf : Vector (BitVec 8) 1024) (ts : List Turn) :
    let s := run other buf ts
    s.process = Server.run (ts.map Turn.client) ∧ s.sent = (answered ts).map (respond other) ∧
      ∀ (i : ℕ) (t : Turn), (answered ts)[i]? = some t → getData <:+: cstr 0 t.client.request →
        (s.sent[i]?.bind responseText).map fetchData =
          if t.left₁ = 0 ∧ t.left₂ = 0 then some (pageOf t.words) else none := by
  intro s
  have hsent : s.sent = (answered ts).map (respond other) := foldl_sent ⟨rfl, rfl, rfl⟩ ts
  refine ⟨foldl_process _ ts, hsent, ?_⟩
  intro i t ht hdata
  rw [hsent, List.getElem?_map, ht, Option.map_some, Option.bind_some, responseText_data hdata]
  split
  · rw [Option.map_some, fetchData_csv]
  · rfl

end IotController.Service
