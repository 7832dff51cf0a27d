import IotController.Response

/-! # An answer, read as data

The server answers with the CSV line or, when it does not find `GET /data` in what one
`read` has delivered, with its page. `fetchData` takes either for data: the first sets
the page's variables to the words of the snapshot, the second to what numbers there are
in front of the first commas of the page, and to NaN. -/
namespace IotController.Misread
open IotController.Pipeline (Channel)
open IotController.Report IotController.Response IotController.Printf IotController.PageText
open IotController.CString IotController.NumberText

/-! ## The text of the page -/

/-- The beginning of what is printed, up to the comma behind `x: 50`. -/
def opening (fmt : List Char) : List Char := ((pieces fmt).take 866).flatMap (Piece.render verbatim)

/-- What `parseInt` makes of the first six fields of a text. -/
def firstSix (text : List Char) : List (Option ℤ) := ((text.splitOn ',').take 6).map parseInt

def opens (fmt : List Char) : Bool :=
  ((pieces fmt).take 866).all (· ≠ slip) && (pieces fmt)[866]? = some (.text ',') &&
    firstSix (opening fmt) = [none, none, some 255, some 0, some 0, none]

theorem opens_of_toList {lines : List String} {cs : List (List Char)}
    (h : lines.map String.toList = cs) (hs : opens cs.flatten = true) :
    opens (lines.map String.toList).flatten = true := by rwa [h]

set_option maxRecDepth 4000 in
theorem pageFormat_opens : opens pageFormat = true := by
  rw [pageFormat]
  dsimp only [pageLines]
  apply opens_of_toList
  · repeat apply toList_cons
    exact List.map_nil
  · decide +kernel

theorem render_congr {other other' : List Char → Char → List Char} {p : Piece}
    (hp : plain p = true) (hne : p ≠ slip) : p.render other = p.render other' := by
  cases p with
  | text c => rfl
  | conv spec c =>
    simp only [plain, Bool.and_eq_true, Bool.or_eq_true, decide_eq_true_eq] at hp
    obtain ⟨rfl, rfl | rfl⟩ := hp
    · rfl
    · exact absurd rfl hne

section Opening
variable (other : List Char → Char → List Char) {fmt : List Char}

/-- The slip is further down. -/
theorem printed_opening (h : opens fmt = true) (hplain : ∀ p ∈ pieces fmt, plain p = true) :
    ∃ rest, sprintf other fmt [] = opening fmt ++ ',' :: rest := by
  simp only [opens, Bool.and_eq_true, List.all_eq_true, decide_eq_true_eq] at h
  obtain ⟨⟨hne, hcomma⟩, -⟩ := h
  obtain ⟨hlt, hget⟩ := List.getElem?_eq_some_iff.mp hcomma
  have hsplit : pieces fmt = (pieces fmt).take 866 ++ .text ',' :: (pieces fmt).drop 867 := by
    rw [← hget, ← List.drop_eq_getElem_cons hlt, List.take_append_drop]
  have hopening : ((pieces fmt).take 866).flatMap (Piece.render other) = opening fmt := by
    refine List.flatMap_congr fun p hp => ?_
    exact render_congr (hplain p (List.mem_of_mem_take hp)) (by simpa using hne p hp)
  have hflat := congrArg (List.flatMap (Piece.render other)) hsplit
  rw [List.flatMap_append, List.flatMap_cons, hopening] at hflat
  exact ⟨_, (sprintf_noArgs other fmt).trans hflat⟩

theorem opening_length (hplain : ∀ p ∈ pieces fmt, plain p = true) :
    (opening fmt).length ≤ 2598 := by
  have hlen : (opening fmt).length ≤ 3 * ((pieces fmt).take 866).length :=
    length_render_all (fun p hp => hplain p (List.mem_of_mem_take hp)) (by decide)
  have htake := List.length_take_le 866 (pieces fmt)
  omega

theorem firstSix_append {text : List Char} (h : (firstSix text).length = 6) (rest : List Char) :
    firstSix (text ++ ',' :: rest) = firstSix text := by
  rw [firstSix, List.length_map, List.length_take] at h
  have hsplit : (text ++ ',' :: rest).splitOn ',' = text.splitOn ',' ++ rest.splitOn ',' := by
    rw [List.splitOn_eq_splitOnP, List.splitOn_eq_splitOnP, List.splitOn_eq_splitOnP]
    exact List.splitOnP_append_cons text rest (by simp)
  rw [firstSix, hsplit, List.take_append_of_le_length (by omega), firstSix]

theorem firstSix_printed (h : opens fmt = true) (hplain : ∀ p ∈ pieces fmt, plain p = true) :
    firstSix (snprintf 16384 (sprintf other fmt [])) =
      [none, none, some 255, some 0, some 0, none] := by
  have hlen := opening_length hplain
  obtain ⟨rest, hrest⟩ := printed_opening other h hplain
  simp only [opens, Bool.and_eq_true, decide_eq_true_eq] at h
  have hsix := h.2
  obtain ⟨k, hk⟩ : ∃ k, 16383 - (opening fmt).length = k + 1 :=
    ⟨16383 - (opening fmt).length - 1, by omega⟩
  have hcut : snprintf 16384 (sprintf other fmt []) = opening fmt ++ ',' :: rest.take k := by
    rw [snprintf, hrest, List.take_append, hk, List.take_succ_cons,
      List.take_of_length_le (by omega)]
  rw [hcut, firstSix_append (by rw [hsix]; rfl), hsix]

/-- The server's page, read as data: `gz` is not a number. -/
theorem firstSix_page :
    firstSix (pageBranch.body other) = [none, none, some 255, some 0, some 0, none] :=
  firstSix_printed other pageFormat_opens pageFormat_facts.1

theorem parseInt_field {text : List Char} {i : ℕ} (h : i < 6) :
    (text.splitOn ',')[i]?.bind parseInt = (firstSix text)[i]?.join := by
  rw [firstSix, List.getElem?_map, List.getElem?_take_of_lt h]
  cases (text.splitOn ',')[i]? <;> rfl

end Opening

/-! ## Answers -/

/-- What the server answers from: its snapshot, and what `read` has delivered of the
request. -/
structure Answer where
  words : Channel → BitVec 16
  request : List (BitVec 8)

/-- What the client has for `responseText`. -/
def Answer.text (other : List Char → Char → List Char) (a : Answer) : List Char :=
  (route a.words a.request).body other

/-- The request is read as one for the data. -/
def Answer.Asks (a : Answer) : Prop := getData <:+: cstr 0 a.request

instance (a : Answer) : Decidable a.Asks := inferInstanceAs (Decidable (_ <:+: _))

/-- What the server's page makes of the page's variables; `none` is NaN. -/
structure Garbled (p : Page) : Prop where
  ax : p.ax = none
  ay : p.ay = none
  az : p.az = some 255
  gx : p.gx = some 0
  gy : p.gy = some 0
  gz : p.gz = none

section Answers
variable (other : List Char → Char → List Char) {a : Answer}

theorem fetchData_asks (h : a.Asks) : fetchData (a.text other) = pageOf a.words := by
  have hroute : route a.words a.request = dataBranch a.words := (route_eq _ _).trans (if_pos h)
  rw [Answer.text, hroute, data_body, fetchData_csv]

theorem fetchData_misread (h : ¬ a.Asks) : Garbled (fetchData (a.text other)) := by
  have hroute : route a.words a.request = pageBranch := (route_eq _ _).trans (if_neg h)
  have hfield (i : ℕ) (hi : i < 6) : ((a.text other).splitOn ',')[i]?.bind parseInt =
      ([none, none, some 255, some 0, some 0, none] : List (Option ℤ))[i]?.join := by
    rw [parseInt_field hi, Answer.text, hroute, firstSix_page]
  exact ⟨hfield 0 (by decide), hfield 1 (by decide), hfield 2 (by decide), hfield 3 (by decide),
    hfield 4 (by decide), hfield 5 (by decide)⟩

end Answers

end IotController.Misread
