import IotController.Polling
import IotController.Report

/-! # The dashboard and the network

`setInterval` sends a request every 50 ms whether or not the last one has been
answered, each on a connection of its own. The server takes the connections one
at a time, in any order, and answers from the globals of that moment; the network
may lose and reorder whatever is under way. The page shows what arrived last. -/
namespace IotController.Dashboard
open IotController.Pipeline (Channel)
open IotController.Report IotController.Polling

/-- `var ax=0, ay=0, az=0;` and so on. -/
def zeroPage : Page := ⟨some 0, some 0, some 0, some 0, some 0, some 0, some 0, some 0⟩

/-- What `main` stores is the globals; the server prints them as the CSV line, and
`fetchData` sets the page from it. -/
def setup : Setup (Channel → BitVec 16) (List Char) Page where
  render := csv
  read := fetchData
  stored := fun _ => 0
  view := zeroPage

abbrev State : Type := Polling.State (Channel → BitVec 16) (List Char) Page

abbrev Event : Type := Polling.Event (Channel → BitVec 16)

def run (evs : List Event) : State := Polling.run setup evs

/-! ## Results -/

/-- The page always shows the globals of one server step, and never older ones
after newer ones in exactly the runs in which no response that has been overtaken
is delivered; with one response under way at a time there is none to overtake. -/
theorem newest_stays_iff (evs : List Event) :
    ((run evs).shown.Pairwise (· < ·) ↔ NoneOvertaken setup evs) ∧
    ((∀ pre post, evs = pre ++ post → (run pre).inFlight.length ≤ 1) →
      (run evs).shown.Pairwise (· < ·)) ∧
    ∀ t ∈ (run evs).shown.getLast?, ∃ g ∈ (run evs).computed[t]?,
      (run evs).view = fetchData (csv g) := by
  refine ⟨⟨NoneOvertaken.of_sorted, NoneOvertaken.sorted⟩, ?_, ?_⟩
  · intro hone
    exact NoneOvertaken.sorted (NoneOvertaken.of_one (P := setup) hone)
  · exact (Sound.run (P := setup) evs).view

/-- Two requests under way, the second answered and delivered first. -/
def overtaking : List Event :=
  [.send, .send, .answer 0, .store fun _ => 1, .answer 1, .deliver 1, .deliver 0]

/-- The page goes back from the ones to the zeros before them. -/
theorem older_shown_last :
    ¬ ∀ evs, (run evs).shown.Pairwise (· ≤ ·) := by
  intro h
  have hshown : (run overtaking).shown = [1, 0] := rfl
  have hsorted := h overtaking
  rw [hshown] at hsorted
  exact absurd hsorted (by decide)

end IotController.Dashboard
