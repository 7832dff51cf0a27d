import Mathlib.Data.List.Induction
import Mathlib.Data.List.Infix

/-! # A client that polls over a network that reorders

A client sends requests on a timer, whether or not the last one has been answered. A
server answers them in any order, each from what it has in store at that moment; the
network may lose and reorder whatever is under way. A response carries nothing that says
when it was computed, so the client's view is of what arrived last. -/
namespace IotController.Polling

variable {A T V : Type}

/-! ## The parties -/

/-- How a response is made of what is in store, and a view of a response. -/
structure Setup (A T V : Type) where
  render : A → T
  read : T → V
  stored : A
  view : V

/-- A response on its way, with the server step that computed it. -/
structure Response (T : Type) where
  time : ℕ
  text : T

structure State (A T V : Type) where
  /-- requests sent -/
  sent : ℕ
  /-- requests the server has not taken yet, by number -/
  waiting : List ℕ
  stored : A
  /-- what was in store at every server step so far -/
  computed : List A
  inFlight : List (Response T)
  view : V
  /-- the server steps whose responses the view was set from, in order -/
  shown : List ℕ

inductive Event (A : Type) where
  /-- the timer sends a request -/
  | send
  /-- something else is put in store -/
  | store (a : A)
  /-- the server answers request `r` -/
  | answer (r : ℕ)
  /-- the response of server step `t` arrives -/
  | deliver (t : ℕ)
  | loseRequest (r : ℕ)
  | loseResponse (t : ℕ)

section Machine
variable (P : Setup A T V)

def initial : State A T V where
  sent := 0
  waiting := []
  stored := P.stored
  computed := []
  inFlight := []
  view := P.view
  shown := []

def step (s : State A T V) : Event A → State A T V
  | .send => { s with sent := s.sent + 1, waiting := s.waiting ++ [s.sent] }
  | .store a => { s with stored := a }
  | .answer r =>
    if r ∈ s.waiting then
      { s with waiting := s.waiting.filter (· ≠ r), computed := s.computed ++ [s.stored],
               inFlight := s.inFlight ++ [⟨s.computed.length, P.render s.stored⟩] }
    else s
  | .deliver t =>
    match s.inFlight.find? (·.time = t) with
    | some p =>
      { s with inFlight := s.inFlight.filter (·.time ≠ t), view := P.read p.text,
               shown := s.shown ++ [t] }
    | none => s
  | .loseRequest r => { s with waiting := s.waiting.filter (· ≠ r) }
  | .loseResponse t => { s with inFlight := s.inFlight.filter (·.time ≠ t) }

def run (evs : List (Event A)) : State A T V := evs.foldl (step P) (initial P)

theorem run_snoc (evs : List (Event A)) (e : Event A) :
    run P (evs ++ [e]) = step P (run P evs) e := by
  rw [run, List.foldl_append, List.foldl_cons, List.foldl_nil, run]

end Machine

section Runs
variable {P : Setup A T V}

/-! ## What every run keeps -/

/-- All that a step may do to the responses. -/
inductive Moves (P : Setup A T V) (s : State A T V) (e : Event A) (s' : State A T V) : Prop
  | keeps (hc : s'.computed = s.computed) (hf : ∀ p ∈ s'.inFlight, p ∈ s.inFlight)
      (hv : s'.view = s.view) (hs : s'.shown = s.shown)
  | answers (hc : s'.computed = s.computed ++ [s.stored])
      (hf : s'.inFlight = s.inFlight ++ [⟨s.computed.length, P.render s.stored⟩])
      (hv : s'.view = s.view) (hs : s'.shown = s.shown)
  | delivers (p : Response T) (he : e = .deliver p.time) (hm : p ∈ s.inFlight)
      (hc : s'.computed = s.computed)
      (hf : s'.inFlight = s.inFlight.filter (·.time ≠ p.time))
      (hv : s'.view = P.read p.text) (hs : s'.shown = s.shown ++ [p.time])

theorem step_moves (s : State A T V) (e : Event A) : Moves P s e (step P s e) := by
  cases e with
  | send => exact .keeps rfl (fun _ h => h) rfl rfl
  | store a => exact .keeps rfl (fun _ h => h) rfl rfl
  | answer r =>
    by_cases hr : r ∈ s.waiting
    · rw [step, if_pos hr]
      exact .answers rfl rfl rfl rfl
    · rw [step, if_neg hr]
      exact .keeps rfl (fun _ h => h) rfl rfl
  | deliver t =>
    cases hfind : s.inFlight.find? (·.time = t) with
    | none =>
      simp only [step, hfind]
      exact .keeps rfl (fun _ h => h) rfl rfl
    | some p =>
      have ht : p.time = t := by simpa using List.find?_some hfind
      subst ht
      simp only [step, hfind]
      exact .delivers p rfl (List.mem_of_find?_eq_some hfind) rfl rfl rfl rfl
  | loseRequest r => exact .keeps rfl (fun _ h => h) rfl rfl
  | loseResponse t => exact .keeps rfl (fun _ h => List.mem_of_mem_filter h) rfl rfl

/-- Every response under way was computed from what was in store at its server step and
has not been shown, and the view is of the response delivered last. -/
structure Sound (P : Setup A T V) (s : State A T V) : Prop where
  inFlight : ∀ p ∈ s.inFlight, p.time < s.computed.length ∧
    (∃ a ∈ s.computed[p.time]?, p.text = P.render a) ∧ p.time ∉ s.shown
  shown : ∀ t ∈ s.shown, t < s.computed.length
  view : ∀ t ∈ s.shown.getLast?, ∃ a ∈ s.computed[t]?, s.view = P.read (P.render a)
  untouched : s.shown = [] → s.view = P.view

theorem mem_getElem?_append {α : Type} {l l' : List α} {t : ℕ} {a : α} (h : a ∈ l[t]?) :
    a ∈ (l ++ l')[t]? := by
  obtain ⟨hlt, ha⟩ := List.getElem?_eq_some_iff.mp h
  rw [List.getElem?_append_left hlt]
  exact h

theorem Sound.initial : Sound P (initial P) where
  inFlight := fun p hp => by cases hp
  shown := fun t ht => by cases ht
  view := fun t ht => by cases ht
  untouched := fun _ => rfl

theorem Sound.moves {s s' : State A T V} {e : Event A} (h : Sound P s) (hm : Moves P s e s') :
    Sound P s' := by
  obtain ⟨hflight, hshown, hview, huntouched⟩ := h
  cases hm with
  | keeps hc hf hv hs =>
    refine ⟨?_, ?_, ?_, ?_⟩
    · intro p hp
      rw [hc, hs]
      exact hflight p (hf p hp)
    · rwa [hs, hc]
    · rwa [hs, hc, hv]
    · rwa [hs, hv]
  | answers hc hf hv hs =>
    refine ⟨?_, ?_, ?_, ?_⟩
    · intro p hp
      rw [hf, List.mem_append, List.mem_singleton] at hp
      rw [hc, hs, List.length_append, List.length_singleton]
      rcases hp with hp | rfl
      · obtain ⟨hlt, ⟨a, ha, htext⟩, hnot⟩ := hflight p hp
        exact ⟨Nat.lt_succ_of_lt hlt, ⟨a, mem_getElem?_append ha, htext⟩, hnot⟩
      · refine ⟨Nat.lt_succ_self _, ⟨s.stored, by simp, rfl⟩, ?_⟩
        intro hmem
        exact Nat.lt_irrefl _ (hshown _ hmem)
    · intro t ht
      rw [hs] at ht
      rw [hc, List.length_append]
      exact Nat.lt_add_right _ (hshown t ht)
    · intro t ht
      rw [hs] at ht
      obtain ⟨a, ha, hva⟩ := hview t ht
      rw [hc, hv]
      exact ⟨a, mem_getElem?_append ha, hva⟩
    · rwa [hs, hv]
  | delivers p _ hmem hc hf hv hs =>
    obtain ⟨hlt, ⟨a, ha, htext⟩, hnot⟩ := hflight p hmem
    refine ⟨?_, ?_, ?_, ?_⟩
    · intro q hq
      rw [hf, List.mem_filter] at hq
      obtain ⟨hlt', htext', hnot'⟩ := hflight q hq.1
      have hne : q.time ≠ p.time := by simpa using hq.2
      rw [hc, hs]
      refine ⟨hlt', htext', ?_⟩
      rw [List.mem_append, List.mem_singleton]
      exact not_or.mpr ⟨hnot', hne⟩
    · intro t ht
      rw [hs, List.mem_append, List.mem_singleton] at ht
      rw [hc]
      rcases ht with ht | rfl
      · exact hshown t ht
      · exact hlt
    · intro t ht
      rw [hs, List.getLast?_concat] at ht
      cases ht
      rw [hc, hv]
      exact ⟨a, ha, by rw [htext]⟩
    · intro hnil
      rw [hs] at hnil
      exact absurd hnil (by simp)

theorem Sound.step {s : State A T V} (h : Sound P s) (e : Event A) : Sound P (step P s e) :=
  h.moves (step_moves s e)

theorem Sound.run (evs : List (Event A)) : Sound P (run P evs) := by
  induction evs using List.reverseRecOn with
  | nil => exact .initial
  | append_singleton evs e ih =>
    rw [run_snoc]
    exact ih.step e

/-! ## Order of delivery -/

theorem shown_grows (P : Setup A T V) (pre post : List (Event A)) :
    (Polling.run P pre).shown <+: (Polling.run P (pre ++ post)).shown := by
  induction post using List.reverseRecOn with
  | nil => rw [List.append_nil]
  | append_singleton post e ih =>
    rw [← List.append_assoc, run_snoc]
    refine ih.trans ?_
    cases step_moves (P := P) (Polling.run P (pre ++ post)) e with
    | keeps _ _ _ hs => rw [hs]
    | answers _ _ _ hs => rw [hs]
    | delivers p _ _ _ _ _ hs =>
      rw [hs]
      exact List.prefix_append _ _

theorem shown_deliver {pre : List (Event A)} {p : Response T} (hm : p ∈ (run P pre).inFlight) :
    (run P (pre ++ [.deliver p.time])).shown = (run P pre).shown ++ [p.time] := by
  rw [run_snoc, step]
  cases hfind : (run P pre).inFlight.find? (·.time = p.time) with
  | none => exact absurd (List.find?_eq_none.mp hfind p hm) (by simp)
  | some q => rfl

/-- A response still under way was under way when a newer one was shown. -/
theorem overtaken_of_shown {evs : List (Event A)} {q : Response T}
    (hq : q ∈ (run P evs).inFlight) {t : ℕ} (ht : t ∈ (run P evs).shown) (hlt : q.time < t) :
    ∃ pre post, evs = pre ++ .deliver t :: post ∧ (∃ p ∈ (run P pre).inFlight, p.time = t) ∧
      ∃ q' ∈ (run P pre).inFlight, q'.time = q.time := by
  induction evs using List.reverseRecOn generalizing q with
  | nil => cases ht
  | append_singleton evs e ih =>
    have longer (hq : q ∈ (run P evs).inFlight) (ht : t ∈ (run P evs).shown) :
        ∃ pre post, evs ++ [e] = pre ++ .deliver t :: post ∧
          (∃ p ∈ (run P pre).inFlight, p.time = t) ∧
          ∃ q' ∈ (run P pre).inFlight, q'.time = q.time := by
      obtain ⟨pre, post, rfl, hfound⟩ := ih hq ht hlt
      exact ⟨pre, post ++ [e], by simp, hfound⟩
    rw [run_snoc] at hq ht
    cases step_moves (P := P) (run P evs) e with
    | keeps _ hf _ hs =>
      rw [hs] at ht
      exact longer (hf q hq) ht
    | answers _ hf _ hs =>
      rw [hs] at ht
      rw [hf, List.mem_append, List.mem_singleton] at hq
      rcases hq with hq | rfl
      · exact longer hq ht
      · exact absurd ((Sound.run (P := P) evs).shown t ht) (Nat.lt_asymm hlt)
    | delivers p he hm _ hf _ hs =>
      rw [hf, List.mem_filter] at hq
      rw [hs, List.mem_append, List.mem_singleton] at ht
      rcases ht with ht | rfl
      · exact longer hq.1 ht
      · exact ⟨evs, [], by rw [he], ⟨p, hm, rfl⟩, q, hq.1, rfl⟩

/-- Whatever is under way and older when a response is shown is never shown. -/
def NoneOvertaken (P : Setup A T V) (evs : List (Event A)) : Prop :=
  ∀ pre t post, evs = pre ++ .deliver t :: post → (∃ p ∈ (run P pre).inFlight, p.time = t) →
    ∀ q ∈ (run P pre).inFlight, q.time < t → q.time ∉ (run P evs).shown

theorem NoneOvertaken.of_sorted {evs : List (Event A)} (h : (run P evs).shown.Pairwise (· < ·)) :
    NoneOvertaken P evs := by
  rintro pre t post rfl ⟨p, hm, rfl⟩ q hq hlt hmem
  have hsplit : pre ++ .deliver p.time :: post = pre ++ [.deliver p.time] ++ post := by simp
  rw [hsplit] at h hmem
  obtain ⟨rest, hrest⟩ := shown_grows P (pre ++ [.deliver p.time]) post
  rw [shown_deliver hm] at hrest
  rw [← hrest, List.append_assoc] at h hmem
  rcases List.mem_append.mp hmem with hmem | hmem
  · exact ((Sound.run (P := P) pre).inFlight q hq).2.2 hmem
  · rcases List.mem_cons.mp hmem with he | hmem
    · omega
    · have hpair := (List.pairwise_cons.mp (List.pairwise_append.mp h).2.1).1 q.time hmem
      omega

theorem NoneOvertaken.sorted {evs : List (Event A)} (h : NoneOvertaken P evs) :
    (run P evs).shown.Pairwise (· < ·) := by
  induction evs using List.reverseRecOn with
  | nil => exact .nil
  | append_singleton evs e ih =>
    have hevs : NoneOvertaken P evs := by
      rintro pre t post rfl hp q hq hlt hmem
      exact h pre t (post ++ [e]) (by simp) hp q hq hlt ((shown_grows P _ [e]).subset hmem)
    have hsorted := ih hevs
    have hnone : ∀ t ∈ (run P evs).shown, ∀ q ∈ (run P evs).inFlight, q.time < t →
        q.time ∉ (run P (evs ++ [e])).shown := by
      intro t ht q hq hlt
      obtain ⟨pre, post, rfl, hp, q', hq', htime⟩ := overtaken_of_shown hq ht hlt
      rw [← htime]
      exact h pre t (post ++ [e]) (by simp) hp q' hq' (by omega)
    rw [run_snoc] at hnone ⊢
    cases step_moves (P := P) (run P evs) e with
    | keeps _ _ _ hs => rwa [hs]
    | answers _ _ _ hs => rwa [hs]
    | delivers p _ hm _ _ _ hs =>
      rw [hs] at hnone ⊢
      rw [List.pairwise_append]
      refine ⟨hsorted, List.pairwise_singleton _ _, ?_⟩
      intro t ht t' ht'
      obtain rfl := List.mem_singleton.mp ht'
      have hnot := ((Sound.run (P := P) evs).inFlight p hm).2.2
      by_contra hge
      have hne : t ≠ p.time := fun he => hnot (he ▸ ht)
      exact hnone t ht p hm (by omega) (by simp)

/-- One response under way at a time has none to overtake. -/
theorem NoneOvertaken.of_one {evs : List (Event A)}
    (hone : ∀ pre post, evs = pre ++ post → (run P pre).inFlight.length ≤ 1) :
    NoneOvertaken P evs := by
  rintro pre t post rfl ⟨p, hm, rfl⟩ q hq hlt
  have hle := hone pre (.deliver p.time :: post) rfl
  obtain ⟨r, hr⟩ : ∃ r, (run P pre).inFlight = [r] := by
    refine List.length_eq_one_iff.mp (Nat.le_antisymm hle ?_)
    exact List.length_pos_of_mem hm
  rw [hr, List.mem_singleton] at hm hq
  rw [hm, hq] at hlt
  exact absurd hlt (Nat.lt_irrefl _)

end Runs

end IotController.Polling
