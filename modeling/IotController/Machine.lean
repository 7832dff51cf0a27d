import Mathlib.Data.List.Basic
import Mathlib.Data.List.Count

/-! # Machines that step on events

A machine is a step function; a run folds it over a list of events. One machine
simulates another if every step of the first is a list of steps of the second, with
the first state read as a state of the second. The list may be empty, it may depend
on the state, and the simulation may rest on an invariant of the states before and
on a condition that later states hand back to earlier ones. -/
namespace IotController.Machine

variable {S E A B : Type*}

section Runs
variable (step : S → E → S)

/-- The state after the events. -/
def run (s : S) (evs : List E) : S := evs.foldl step s

theorem run_cons (s : S) (e : E) (evs : List E) : run step s (e :: evs) =
    run step (step s e) evs := rfl

theorem run_append (s : S) (evs evs' : List E) :
    run step s (evs ++ evs') = run step (run step s evs) evs' := List.foldl_append

variable {step}

/-- A step lemma gives the run lemma. -/
theorem run_keeps {I : S → Prop} (keeps : ∀ s e, I s → I (step s e)) {s : S} (h : I s)
    (evs : List E) : I (run step s evs) := by
  induction evs generalizing s with
  | nil => exact h
  | cons e evs ih => exact ih (keeps s e h)

/-- What a later state has, an earlier one had. -/
theorem run_back {I : S → Prop} (back : ∀ s e, I (step s e) → I s) {s : S} {evs : List E}
    (h : I (run step s evs)) : I s := by
  induction evs generalizing s with
  | nil => exact h
  | cons e evs ih => exact back s e (ih h)

end Runs

/-- The event after the first `n` of a kind, if there are more. -/
theorem exists_split_countP {p : E → Bool} {n : ℕ} {evs : List E} (h : n < evs.countP p) :
    ∃ pre e post, evs = pre ++ e :: post ∧ p e = true ∧ pre.countP p = n := by
  induction evs generalizing n with
  | nil => cases h
  | cons e evs ih =>
    by_cases he : p e = true
    · rw [List.countP_cons_of_pos he] at h
      cases n with
      | zero => exact ⟨[], e, evs, rfl, he, rfl⟩
      | succ n =>
        obtain ⟨pre, e', post, rfl, he', hpre⟩ := ih (Nat.lt_of_succ_lt_succ h)
        exact ⟨e :: pre, e', post, rfl, he', by rw [List.countP_cons_of_pos he, hpre]⟩
    · rw [List.countP_cons_of_neg he] at h
      obtain ⟨pre, e', post, rfl, he', hpre⟩ := ih h
      exact ⟨e :: pre, e', post, rfl, he', by rw [List.countP_cons_of_neg he, hpre]⟩

/-- What goes up by at most one in a step passes every value on its way. -/
theorem exists_split_eq {step : S → E → S} {f : S → ℕ} (hstep : ∀ s e, f (step s e) ≤ f s + 1)
    {s : S} {evs : List E} {k : ℕ} (hlo : f s ≤ k) (hhi : k ≤ f (run step s evs)) :
    ∃ pre post, evs = pre ++ post ∧ f (run step s pre) = k := by
  induction evs generalizing s with
  | nil => exact ⟨[], [], rfl, Nat.le_antisymm hlo hhi⟩
  | cons e evs ih =>
    rcases Nat.lt_or_eq_of_le hlo with hlt | heq
    · obtain ⟨pre, post, rfl, hpre⟩ := ih (Nat.le_trans (hstep s e) hlt) hhi
      exact ⟨e :: pre, post, rfl, hpre⟩
    · exact ⟨[], e :: evs, rfl, heq⟩

/-- The steps of another machine that go with a run of this one. -/
def labels (step : S → E → S) (label : S → E → List B) : S → List E → List B
  | _, [] => []
  | s, e :: evs => label s e ++ labels step label (step s e) evs

theorem labels_append (step : S → E → S) (label : S → E → List B) (s : S) (evs evs' : List E) :
    labels step label s (evs ++ evs') =
      labels step label s evs ++ labels step label (run step s evs) evs' := by
  induction evs generalizing s with
  | nil => rfl
  | cons e evs ih => rw [List.cons_append, labels, ih, labels, List.append_assoc, run_cons]

/-- Every step of the first machine is the steps `label` of the second. -/
structure Simulation (step : S → E → S) (step' : A → B → A) (read : S → A)
    (label : S → E → List B) (Inv Back : S → Prop) : Prop where
  keeps : ∀ s e, Inv s → Inv (step s e)
  back : ∀ s e, Back (step s e) → Back s
  simulates : ∀ s e, Inv s → Back (step s e) → run step' (read s) (label s e) = read (step s e)

/-- Runs of the first machine are runs of the second. -/
theorem Simulation.run {step : S → E → S} {step' : A → B → A} {read : S → A}
    {label : S → E → List B} {Inv Back : S → Prop}
    (h : Simulation step step' read label Inv Back) {s : S} (hs : Inv s) {evs : List E}
    (hb : Back (run step s evs)) :
    Machine.run step' (read s) (labels step label s evs) = read (Machine.run step s evs) := by
  induction evs generalizing s with
  | nil => rfl
  | cons e evs ih =>
    have hb' : Back (step s e) := run_back h.back hb
    rw [labels, run_append, h.simulates s e hs hb', ih (h.keeps s e hs) hb]
    rfl

/-! ## What can be reached -/

/-- Some events lead to a state with `Q`, with no step on the way that fails. -/
def Reaches (step : S → E → Option S) (s : S) (Q : S → Prop) : Prop :=
  ∃ (evs : List E) (t : S), evs.foldlM step s = some t ∧ Q t

namespace Reaches
variable {step : S → E → Option S} {s t : S} {e : E} {P Q : S → Prop}

theorem now (h : Q s) : Reaches step s Q := ⟨[], s, rfl, h⟩

theorem cons (hs : step s e = some t) (h : Reaches step t Q) : Reaches step s Q := by
  obtain ⟨evs, u, hu, hq⟩ := h
  refine ⟨e :: evs, u, ?_, hq⟩
  rw [List.foldlM_cons, hs]
  exact hu

theorem trans (h : Reaches step s P) (hnext : ∀ t, P t → Reaches step t Q) :
    Reaches step s Q := by
  obtain ⟨evs, t, ht, hp⟩ := h
  obtain ⟨evs', u, hu, hq⟩ := hnext t hp
  refine ⟨evs ++ evs', u, ?_, hq⟩
  rw [List.foldlM_append, ht]
  exact hu

/-- A variant: what brings the goal nearer, reaches it. -/
theorem of_variant {I : ℕ → S → Prop}
    (hnext : ∀ n s, I n s → Reaches step s fun t => Q t ∨ ∃ m < n, I m t) {n : ℕ} (h : I n s) :
    Reaches step s Q := by
  induction n using Nat.strongRecOn generalizing s with
  | _ n ih =>
    refine (hnext n s h).trans ?_
    rintro t (hq | ⟨m, hlt, hi⟩)
    · exact now hq
    · exact ih m hlt hi

theorem of_decreasing {I : S → Prop} (m : S → ℕ)
    (hnext : ∀ s, I s → Reaches step s fun t => Q t ∨ I t ∧ m t < m s) (h : I s) :
    Reaches step s Q := by
  refine of_variant (I := fun n s => I s ∧ m s = n) ?_ ⟨h, rfl⟩
  rintro _ s ⟨hi, rfl⟩
  refine (hnext s hi).trans ?_
  rintro t (hq | ⟨hi', hlt⟩)
  · exact now (.inl hq)
  · exact now (.inr ⟨m t, hlt, hi', rfl⟩)

section Total
variable {next : S → E → S}

/-- A machine that never fails. -/
theorem after (e : E) (h : Reaches (fun s e => some (next s e)) (next s e) Q) :
    Reaches (fun s e => some (next s e)) s Q := cons rfl h

theorem exists_run (h : Reaches (fun s e => some (next s e)) s Q) : ∃ evs, Q (run next s evs) := by
  obtain ⟨evs, t, ht, hq⟩ := h
  have hfold : evs.foldlM (fun s e => some (next s e)) s = some (evs.foldl next s) :=
    List.foldlM_pure
  rw [hfold] at ht
  cases ht
  exact ⟨evs, hq⟩

end Total
end Reaches

end IotController.Machine
