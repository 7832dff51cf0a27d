import Mathlib.Logic.Function.Basic
import Mathlib.Data.List.Basic

/-! # From the output registers to a response

Three parties share seven 16-bit variables without any synchronisation: the FPGA
commits all seven output registers at once, `main` loads the registers and stores
the globals one after another, and the HTTP thread copies the globals one after
another and answers. A step below is one load, one store or one commit, and a run
is any interleaving. The machine is generic in the values it moves, so the same
machine run on commit numbers says where every value came from. -/
namespace IotController.Pipeline

/-! ## The machine -/

inductive Channel where
  | ax
  | ay
  | az
  | gx
  | gy
  | gz
  | temp
deriving DecidableEq, Repr

/-- The order in which both loops go through the channels. -/
def Channel.next : Channel → Option Channel
  | .ax => some .ay
  | .ay => some .az
  | .az => some .gx
  | .gx => some .gy
  | .gy => some .gz
  | .gz => some .temp
  | .temp => none

variable {V U : Type}

@[ext] structure State (V : Type) where
  /-- commits made so far -/
  commits : Nat
  /-- the PIO registers -/
  pio : Channel → V
  /-- where `main` is in its loop, and what it has loaded and not yet stored -/
  ch : Channel
  loaded : Option V
  /-- `g_ax` to `g_temp` -/
  glob : Channel → V
  /-- the global the HTTP thread copies next; `none` once it has all -/
  pos : Option Channel
  /-- its locals -/
  locals : Channel → V
  responses : List (Channel → V)

inductive Party where
  | fpga
  | main
  | http
deriving DecidableEq, Repr

section Machine
variable (vals : Nat → Channel → V)

/-- Everything is `vals 0` at power-up. -/
def initial : State V where
  commits := 0
  pio := vals 0
  ch := .ax
  loaded := none
  glob := vals 0
  pos := some .ax
  locals := vals 0
  responses := []

def fpgaStep (s : State V) : State V :=
  { s with commits := s.commits + 1, pio := vals (s.commits + 1) }

def mainStep (s : State V) : State V :=
  match s.loaded with
  | none => { s with loaded := some (s.pio s.ch) }
  | some v =>
    { s with glob := Function.update s.glob s.ch v, loaded := none, ch := s.ch.next.getD .ax }

def httpStep (s : State V) : State V :=
  match s.pos with
  | some c => { s with locals := Function.update s.locals c (s.glob c), pos := c.next }
  | none => { s with responses := s.responses ++ [s.locals], pos := some .ax }

def step (s : State V) : Party → State V
  | .fpga => fpgaStep vals s
  | .main => mainStep s
  | .http => httpStep s

def run (sched : List Party) : State V := sched.foldl (step vals) (initial vals)

end Machine

/-! ## Values and numbers -/

/-- The same state with other values in it. -/
def State.map (f : Channel → V → U) (s : State V) : State U where
  commits := s.commits
  pio := fun c => f c (s.pio c)
  ch := s.ch
  loaded := s.loaded.map (f s.ch)
  glob := fun c => f c (s.glob c)
  pos := s.pos
  locals := fun c => f c (s.locals c)
  responses := s.responses.map fun r c => f c (r c)

theorem update_map (f : Channel → V → U) (g : Channel → V) (c : Channel) (v : V) :
    (fun c' => f c' (Function.update g c v c')) =
      Function.update (fun c' => f c' (g c')) c (f c v) := by
  funext c'
  by_cases h : c' = c
  · subst h; simp
  · simp [h]

section Map
variable (vals : Nat → Channel → V) (f : Channel → V → U)

theorem step_map (s : State V) (p : Party) :
    step (fun n c => f c (vals n c)) (s.map f) p = (step vals s p).map f := by
  cases p with
  | fpga => rfl
  | main =>
    cases h : s.loaded with
    | none => simp [step, mainStep, State.map, h]
    | some v => simp [step, mainStep, State.map, h, update_map]
  | http =>
    cases h : s.pos with
    | none => simp [step, httpStep, State.map, h]
    | some c => simp [step, httpStep, State.map, h, update_map]

/-- The machine only moves values about. -/
theorem run_map (sched : List Party) :
    run (fun n c => f c (vals n c)) sched = (run vals sched).map f := by
  have from_any (s : State V) :
      sched.foldl (step fun n c => f c (vals n c)) (s.map f) =
        (sched.foldl (step vals) s).map f := by
    induction sched generalizing s with
    | nil => rfl
    | cons p sched ih => rw [List.foldl_cons, step_map, ih, List.foldl_cons]
  exact from_any (initial vals)

end Map

/-- Commit `n` writes `n` to every channel. -/
def number (n : Nat) (_ : Channel) : Nat := n

/-- Every response is made of the channels of the commits its numbers name. -/
theorem responses_by_number (vals : Nat → Channel → V) (sched : List Party) :
    (run vals sched).responses =
      (run number sched).responses.map fun no c => vals (no c) c := by
  have h := run_map number (fun c n => vals n c) sched
  exact congrArg State.responses h

/-! ## Only commits that have been made -/

/-- No number in the state is ahead of the commits. -/
structure Bounded (s : State Nat) : Prop where
  pio : ∀ c, s.pio c = s.commits
  loaded : ∀ n ∈ s.loaded, n ≤ s.commits
  glob : ∀ c, s.glob c ≤ s.commits
  locals : ∀ c, s.locals c ≤ s.commits
  responses : ∀ r ∈ s.responses, ∀ c, r c ≤ s.commits

theorem update_le {g b : Channel → Nat} (hg : ∀ c, g c ≤ b c) (c : Channel) {v : Nat}
    (hv : v ≤ b c) (c' : Channel) : Function.update g c v c' ≤ b c' := by
  by_cases h : c' = c
  · subst h; simpa using hv
  · simpa [h] using hg c'

theorem Bounded.step {s : State Nat} (h : Bounded s) (p : Party) : Bounded (step number s p) := by
  obtain ⟨hp, hl, hg, hlo, hr⟩ := h
  cases p with
  | fpga =>
    exact ⟨fun _ => rfl, fun n hn => Nat.le_succ_of_le (hl n hn), fun c => Nat.le_succ_of_le (hg c),
      fun c => Nat.le_succ_of_le (hlo c), fun r hm c => Nat.le_succ_of_le (hr r hm c)⟩
  | main =>
    cases hld : s.loaded with
    | none =>
      simp only [Pipeline.step, mainStep, hld]
      exact ⟨hp, by simp [hp], hg, hlo, hr⟩
    | some v =>
      simp only [Pipeline.step, mainStep, hld]
      exact ⟨hp, by simp, update_le hg _ (hl v hld), hlo, hr⟩
  | http =>
    cases hpos : s.pos with
    | none =>
      simp only [Pipeline.step, httpStep, hpos]
      refine ⟨hp, hl, hg, hlo, ?_⟩
      intro r hm
      rcases List.mem_append.mp hm with hm | hm
      · exact hr r hm
      · obtain rfl := List.mem_singleton.mp hm
        exact hlo
    | some c =>
      simp only [Pipeline.step, httpStep, hpos]
      exact ⟨hp, hl, hg, update_le hlo c (hg c), hr⟩

theorem Bounded.run (sched : List Party) : Bounded (run number sched) := by
  have from_any {s : State Nat} (h : Bounded s) :
      Bounded (sched.foldl (Pipeline.step number) s) := by
    induction sched generalizing s with
    | nil => exact h
    | cons p sched ih => exact ih (h.step p)
  exact from_any ⟨fun _ => rfl, by simp [initial], fun _ => Nat.le_refl 0, fun _ => Nat.le_refl 0,
    by simp [initial]⟩

/-! ## Results -/

/-- A response is one of the commits made, or the zeros from before the first. -/
def Coherent (vals : Nat → Channel → BitVec 16) (commits : Nat) (r : Channel → BitVec 16) : Prop :=
  ∃ n ≤ commits, r = vals n

/-- Two channels from different commits show as soon as these write different values. -/
theorem not_coherent_of_lt {no : Channel → Nat} {c c' : Channel} (h : no c < no c')
    (commits : Nat) : ∃ vals : Nat → Channel → BitVec 16, (∀ c, vals 0 c = 0) ∧
      ¬ Coherent vals commits fun c => vals (no c) c := by
  -- commit `no c'` writes ones, all others write zeros
  refine ⟨fun n _ => if n = no c' then 1 else 0, fun _ => if_neg (by omega), ?_⟩
  rintro ⟨n, _, hn⟩
  have hc : (if no c = no c' then 1#16 else 0) = if n = no c' then 1 else 0 := congrFun hn c
  have hc' : (if no c' = no c' then 1#16 else 0) = if n = no c' then 1 else 0 := congrFun hn c'
  rw [← hc', if_neg (Nat.ne_of_lt h), if_pos rfl] at hc
  exact absurd hc (by decide)

/-- Whatever is committed, every response is put together from the commits its
loads found, none of them ahead of the commits made; it is sure to be one commit
exactly if all seven loads found the same one. -/
theorem coherent_iff_same_commit (sched : List Party) :
    (∀ vals : Nat → Channel → BitVec 16, (run vals sched).responses =
      (run number sched).responses.map fun no c => vals (no c) c) ∧
    ∀ no ∈ (run number sched).responses,
      (∀ c, no c ≤ (run number sched).commits) ∧
      ((∀ vals : Nat → Channel → BitVec 16, (∀ c, vals 0 c = 0) →
          Coherent vals (run number sched).commits fun c => vals (no c) c) ↔
        ∀ c c', no c = no c') := by
  refine ⟨fun vals => responses_by_number vals sched, ?_⟩
  intro no hno
  have hle := (Bounded.run sched).responses no hno
  refine ⟨hle, ?_, ?_⟩
  · intro h c c'
    have not_lt (c c' : Channel) : ¬ no c < no c' := by
      intro hlt
      obtain ⟨vals, hzero, hnot⟩ := not_coherent_of_lt hlt (run number sched).commits
      exact hnot (h vals hzero)
    exact Nat.le_antisymm (Nat.le_of_not_lt (not_lt c' c)) (Nat.le_of_not_lt (not_lt c c'))
  · intro h vals _
    exact ⟨no .ax, hle .ax, funext fun c => by rw [h c .ax]⟩

/-- `main` stores `g_ax`, a commit follows, then the rest is stored and copied. -/
def tearing : List Party :=
  [.fpga, .main, .main, .fpga] ++ List.replicate 12 .main ++ List.replicate 8 .http

theorem response_torn :
    ¬ ∀ (vals : Nat → Channel → BitVec 16) (sched : List Party), (∀ c, vals 0 c = 0) →
      ∀ r ∈ (run vals sched).responses, Coherent vals (run vals sched).commits r := by
  intro h
  obtain ⟨n, -, hn⟩ := h (fun n _ => BitVec.ofNat 16 n) tearing (fun _ => rfl) _
    (List.mem_singleton.mpr rfl)
  have hax : 1#16 = BitVec.ofNat 16 n := congrFun hn .ax
  have htemp : 2#16 = BitVec.ofNat 16 n := congrFun hn .temp
  exact absurd (hax.trans htemp.symm) (by decide)

/-! ## Order -/

/-- Commit numbers go up from a response to the globals, and from one response
to the next. -/
structure Ordered (s : State Nat) : Prop where
  loaded : ∀ n ∈ s.loaded, s.glob s.ch ≤ n
  locals : ∀ c, s.locals c ≤ s.glob c
  responses : ∀ r ∈ s.responses, ∀ c, r c ≤ s.locals c
  inOrder : s.responses.Pairwise fun r r' => ∀ c, r c ≤ r' c

theorem le_update {f g : Channel → Nat} (hfg : ∀ c, f c ≤ g c) (c : Channel) {v : Nat}
    (hv : f c ≤ v) (c' : Channel) : f c' ≤ Function.update g c v c' := by
  by_cases h : c' = c
  · subst h; simpa using hv
  · simpa [h] using hfg c'

theorem Ordered.step {s : State Nat} (h : Ordered s) (hb : Bounded s) (p : Party) :
    Ordered (step number s p) := by
  obtain ⟨hl, hlo, hr, hord⟩ := h
  cases p with
  | fpga => exact ⟨hl, hlo, hr, hord⟩
  | main =>
    cases hld : s.loaded with
    | none =>
      -- a load finds the commit made last
      simp only [Pipeline.step, mainStep, hld]
      exact ⟨by simp [hb.pio, hb.glob], hlo, hr, hord⟩
    | some v =>
      simp only [Pipeline.step, mainStep, hld]
      exact ⟨by simp, le_update hlo s.ch (Nat.le_trans (hlo s.ch) (hl v hld)), hr, hord⟩
  | http =>
    cases hpos : s.pos with
    | none =>
      simp only [Pipeline.step, httpStep, hpos]
      refine ⟨hl, hlo, ?_, ?_⟩
      · intro r hm c
        rcases List.mem_append.mp hm with hm | hm
        · exact hr r hm c
        · obtain rfl := List.mem_singleton.mp hm
          exact Nat.le_refl _
      · rw [List.pairwise_append]
        refine ⟨hord, List.pairwise_singleton _ _, ?_⟩
        intro r hm r' hm' c
        obtain rfl := List.mem_singleton.mp hm'
        exact hr r hm c
    | some c =>
      simp only [Pipeline.step, httpStep, hpos]
      refine ⟨hl, update_le hlo c (Nat.le_refl _), ?_, hord⟩
      intro r hm
      exact le_update (hr r hm) c (Nat.le_trans (hr r hm c) (hlo c))

theorem Ordered.run (sched : List Party) : Ordered (run number sched) := by
  have from_any {s : State Nat} (h : Ordered s) (hb : Bounded s) :
      Ordered (sched.foldl (Pipeline.step number) s) := by
    induction sched generalizing s with
    | nil => exact h
    | cons p sched ih => exact ih (h.step hb p) (hb.step p)
  exact from_any ⟨by simp [initial], fun _ => Nat.le_refl 0, by simp [initial], .nil⟩
    (Bounded.run [])

/-- A response once sent stays sent. -/
theorem responses_grow (vals : Nat → Channel → V) (pre post : List Party) :
    (run vals pre).responses <+: (run vals (pre ++ post)).responses := by
  have from_any (s : State V) :
      s.responses <+: (post.foldl (Pipeline.step vals) s).responses := by
    induction post generalizing s with
    | nil => exact List.prefix_rfl
    | cons p post ih =>
      refine List.IsPrefix.trans ?_ (ih (Pipeline.step vals s p))
      cases p with
      | fpga => exact List.prefix_rfl
      | main => cases hld : s.loaded <;> simp [Pipeline.step, mainStep, hld]
      | http => cases hpos : s.pos <;> simp [Pipeline.step, httpStep, hpos]
  rw [Pipeline.run, Pipeline.run, List.foldl_append]
  exact from_any _

/-- Whatever is committed and whatever the interleaving: the values of a channel
in successive responses come from commits that never go back, each made before
the response. -/
theorem responses_in_order (sched : List Party) :
    (∀ vals : Nat → Channel → BitVec 16, (run vals sched).responses =
      (run number sched).responses.map fun no c => vals (no c) c) ∧
    (run number sched).responses.Pairwise (fun no no' => ∀ c, no c ≤ no' c) ∧
    ∀ pre post, sched = pre ++ post →
      (run number pre).responses <+: (run number sched).responses ∧
        ∀ no ∈ (run number pre).responses, ∀ c, no c ≤ (run number pre).commits := by
  refine ⟨fun vals => responses_by_number vals sched, (Ordered.run sched).inOrder, ?_⟩
  rintro pre post rfl
  exact ⟨responses_grow number pre post, (Bounded.run pre).responses⟩

end IotController.Pipeline
