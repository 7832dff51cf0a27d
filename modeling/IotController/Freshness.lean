import IotController.Pipeline
import Mathlib.Data.List.Count

/-! # How old a value can be

After a commit `main` may still hold a word from before it, and it goes through the
channels in a fixed order. So each channel is at most fifteen of its steps from
being stored with a word of that commit or a later one, and every snapshot taken
after them is that fresh. -/
namespace IotController.Freshness
open IotController.Pipeline

/-! ## Steps to go -/

def index : Channel → Nat
  | .ax => 0
  | .ay => 1
  | .az => 2
  | .gx => 3
  | .gy => 4
  | .gz => 5
  | .temp => 6

/-- The channel after `c`, round and round. -/
def following (c : Channel) : Channel := c.next.getD .ax

/-- The channels from `c` up to `c'`, round and round. -/
def turns (c c' : Channel) : Nat := (index c' + 7 - index c) % 7

theorem turns_following {c c' : Channel} (h : c' ≠ c) :
    turns (following c) c' + 1 = turns c c' := by
  cases c <;> cases c' <;> first | rfl | exact absurd rfl h

/-- The steps of `main` until channel `c` holds commit `n` or a later one. -/
def lag (n : Nat) (s : State Nat) (c : Channel) : Nat :=
  match s.loaded with
  | none => 2 * turns s.ch c + 2
  | some v => if c = s.ch ∧ n ≤ v then 1 else 2 * turns (following s.ch) c + 3

theorem lag_pos (n : Nat) (s : State Nat) (c : Channel) : 0 < lag n s c := by
  unfold lag
  split
  · omega
  · split <;> omega

theorem lag_le (n : Nat) (s : State Nat) (c : Channel) : lag n s c ≤ 15 := by
  have hlt (a : Channel) : turns a c < 7 := Nat.mod_lt _ (by decide)
  have h1 := hlt s.ch
  have h2 := hlt (following s.ch)
  unfold lag
  split
  · omega
  · split <;> omega

/-- Every channel is fresh, or at most `k` steps from it. -/
def Within (n k : Nat) (s : State Nat) : Prop :=
  n ≤ s.commits ∧ ∀ c, n ≤ s.glob c ∨ lag n s c ≤ k

/-! ## Each step of main -/

section Step
variable {n k : Nat} {s : State Nat}

/-- A load or a store brings every channel one step nearer. -/
theorem Within.main (hb : Bounded s) (ho : Ordered s) (h : Within n k s) :
    Within n (k - 1) (step number s .main) := by
  obtain ⟨hn, hall⟩ := h
  cases hld : s.loaded with
  | none =>
    simp only [step, mainStep, hld]
    refine ⟨hn, ?_⟩
    intro c
    refine (hall c).imp id fun hle => ?_
    have hpio : n ≤ s.pio s.ch := by rw [hb.pio]; exact hn
    simp only [lag, hld] at hle ⊢
    by_cases hc : c = s.ch
    · rw [if_pos ⟨hc, hpio⟩]
      omega
    · have hturns := turns_following hc
      rw [if_neg fun h => hc h.1]
      omega
  | some v =>
    simp only [step, mainStep, hld]
    refine ⟨hn, ?_⟩
    intro c
    by_cases hc : c = s.ch
    · subst hc
      by_cases hv : n ≤ v
      · exact .inl (by simpa using hv)
      · -- an old word goes in, and the channel comes last in the next round
        refine .inr ?_
        have hglob : ¬ n ≤ s.glob s.ch := by
          have := ho.loaded v hld
          omega
        have hle := (hall s.ch).resolve_left hglob
        simp only [lag, hld, true_and, if_neg hv, following] at hle ⊢
        omega
    · refine (hall c).imp (fun hg => by simpa [hc] using hg) fun hle => ?_
      simp only [lag, hld, hc, false_and, if_false, following] at hle ⊢
      omega

theorem Within.other {p : Party} (hp : p ≠ .main) (h : Within n k s) :
    Within n k (step number s p) := by
  obtain ⟨hn, hall⟩ := h
  cases p with
  | fpga => exact ⟨Nat.le_succ_of_le hn, hall⟩
  | main => exact absurd rfl hp
  | http =>
    cases hpos : s.pos with
    | none =>
      simp only [step, httpStep, hpos]
      exact ⟨hn, hall⟩
    | some c =>
      simp only [step, httpStep, hpos]
      exact ⟨hn, hall⟩

end Step

/-- The state after some more steps. -/
def runFrom (s : State Nat) (sched : List Party) : State Nat := sched.foldl (step number) s

theorem run_append (pre post : List Party) : run number (pre ++ post) =
    runFrom (run number pre) post := List.foldl_append

section Run
variable {n k : Nat} {s : State Nat}

theorem Within.run (hb : Bounded s) (ho : Ordered s) (h : Within n k s) (sched : List Party) :
    Within n (k - sched.count .main) (runFrom s sched) := by
  induction sched generalizing s k with
  | nil => exact h
  | cons p sched ih =>
    by_cases hp : p = .main
    · subst hp
      have hrun := ih (hb.step .main) (ho.step hb .main) (h.main hb ho)
      rwa [List.count_cons_self, Nat.add_comm, ← Nat.sub_sub]
    · have hrun := ih (hb.step p) (ho.step hb p) (h.other hp)
      rwa [List.count_cons_of_ne hp]

end Run

/-- Fifteen steps after a commit all globals are that fresh. -/
theorem glob_fresh (pre : List Party) {post : List Party} (h : 15 ≤ post.count .main)
    (c : Channel) : (run number pre).commits ≤ (run number (pre ++ post)).glob c := by
  have hstart : Within (run number pre).commits 15 (run number pre) :=
    ⟨Nat.le_refl _, fun c => .inr (lag_le _ _ c)⟩
  have hend := hstart.run (Bounded.run pre) (Ordered.run pre) post
  rw [run_append]
  refine (hend.2 c).resolve_right fun hle => ?_
  have hpos := lag_pos (run number pre).commits (runFrom (run number pre) post) c
  omega

/-! ## The snapshots that follow -/

/-- `c` has been copied in the snapshot under way. -/
def Copied (pos : Option Channel) (c : Channel) : Prop := ∀ p ∈ pos, index c < index p

theorem copied_next {c p : Channel} (h : Copied p.next c) : c = p ∨ Copied (some p) c := by
  cases p <;> cases c <;> simp_all [Copied, Channel.next, index]

/-- The responses from number `m` on are fresh, and so is what the next one is made of. -/
structure Serves (n m : Nat) (s : State Nat) : Prop where
  glob : ∀ c, n ≤ s.glob c
  locals : s.responses.length < m ∨ ∀ c, Copied s.pos c → n ≤ s.locals c
  responses : ∀ r ∈ s.responses.drop m, ∀ c, n ≤ r c

section Serves
variable {n m : Nat} {s : State Nat}

theorem Serves.step (ho : Ordered s) (h : Serves n m s) (p : Party) :
    Serves n m (step number s p) := by
  obtain ⟨hg, hl, hr⟩ := h
  cases p with
  | fpga => exact ⟨hg, hl, hr⟩
  | main =>
    cases hld : s.loaded with
    | none =>
      simp only [Pipeline.step, mainStep, hld]
      exact ⟨hg, hl, hr⟩
    | some v =>
      simp only [Pipeline.step, mainStep, hld]
      exact ⟨le_update hg s.ch (Nat.le_trans (hg s.ch) (ho.loaded v hld)), hl, hr⟩
  | http =>
    cases hpos : s.pos with
    | some p =>
      simp only [Pipeline.step, httpStep, hpos]
      refine ⟨hg, hl.imp id fun hl => ?_, hr⟩
      intro c hc
      by_cases hcp : c = p
      · subst hcp
        simpa using hg c
      · have hold := hl c (hpos ▸ (copied_next hc).resolve_left hcp)
        simpa [Function.update_of_ne hcp] using hold
    | none =>
      simp only [Pipeline.step, httpStep, hpos]
      refine ⟨hg, ?_, ?_⟩
      · -- the next snapshot has nothing yet
        refine .inr ?_
        intro c hc
        exact absurd (hc .ax rfl) (Nat.not_lt_zero _)
      · intro r hm c
        by_cases hlen : s.responses.length < m
        · rw [List.drop_eq_nil_of_le (by simp; omega)] at hm
          cases hm
        · rw [List.drop_append_of_le_length (Nat.le_of_not_lt hlen), List.mem_append] at hm
          rcases hm with hm | hm
          · exact hr r hm c
          · obtain rfl := List.mem_singleton.mp hm
            refine (hl.resolve_left hlen) c ?_
            rw [hpos]
            intro p hp
            cases hp

theorem Serves.run (hb : Bounded s) (ho : Ordered s) (h : Serves n m s) (sched : List Party) :
    Serves n m (runFrom s sched) := by
  induction sched generalizing s with
  | nil => exact h
  | cons p sched ih => exact ih (hb.step p) (ho.step hb p) (h.step ho p)

end Serves

/-- The number of the first response whose snapshot begins now or later. -/
def nextSnapshot {V : Type} (s : State V) : Nat :=
  s.responses.length + if s.pos = some .ax then 0 else 1

/-- Once the globals are fresh so is every later snapshot. -/
theorem responses_fresh {n : Nat} (pre post : List Party)
    (h : ∀ c, n ≤ (run number pre).glob c) :
    ∀ no ∈ (run number (pre ++ post)).responses.drop (nextSnapshot (run number pre)),
      ∀ c, n ≤ no c := by
  have hstart : Serves n (nextSnapshot (run number pre)) (run number pre) := by
    refine ⟨h, ?_, ?_⟩
    · unfold nextSnapshot
      split
      · next hpos =>
        refine .inr ?_
        rw [hpos]
        intro c hc
        exact absurd (hc .ax rfl) (Nat.not_lt_zero _)
      · exact .inl (Nat.lt_succ_self _)
    · intro r hr
      rw [nextSnapshot, List.drop_eq_nil_of_le (Nat.le_add_right _ _)] at hr
      cases hr
  rw [run_append]
  exact (hstart.run (Bounded.run pre) (Ordered.run pre) post).responses

/-! ## Results -/

/-- A commit is missed for as long as this: `main` has just loaded `g_ax`. -/
def justLoaded : List Party := [.main, .fpga]

theorem stale_after_fourteen :
    (run number (justLoaded ++ List.replicate 14 .main)).glob .ax <
      (run number justLoaded).commits := by decide

/-- After any commit, in any interleaving: fifteen steps of `main`, and no fewer,
are sure to bring a word of that commit or a later one to every global, and every
response whose snapshot begins after them is made of such words. -/
theorem sure_to_be_fresh_iff (k : Nat) :
    (∀ pre post : List Party, k ≤ post.count .main →
      (∀ c, (run number pre).commits ≤ (run number (pre ++ post)).glob c) ∧
      ∀ rest, ∀ no ∈ (run number (pre ++ post ++ rest)).responses.drop
        (nextSnapshot (run number (pre ++ post))), ∀ c, (run number pre).commits ≤ no c) ↔
    15 ≤ k := by
  constructor
  · intro h
    by_contra hlt
    have hcount : k ≤ (List.replicate 14 Party.main).count .main := by
      rw [List.count_replicate_self]
      omega
    exact Nat.not_le_of_lt stale_after_fourteen ((h _ _ hcount).1 .ax)
  · intro hk pre post hpost
    have hglob := glob_fresh pre (Nat.le_trans hk hpost)
    exact ⟨hglob, fun rest => responses_fresh (pre ++ post) rest hglob⟩

end IotController.Freshness
