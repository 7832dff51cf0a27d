import Mathlib.Data.List.TakeWhile

/-! # A response as its client reads it

The client has whatever was written before the connection was closed: lines up to
the blank one, then the body. A response is framed if that is as long as
`Content-Length` says. -/
namespace IotController.Http

/-- The lines in front of the blank one, and what follows it; `none` if the
connection is closed before. `line` is what has been read of the line. -/
def readHead (line : List Char) : List Char → Option (List (List Char) × List Char)
  | [] => none
  | c :: s =>
    if c = '\n' then
      if line = ['\r'] then some ([], s)
      else (readHead [] s).map fun p => (line :: p.1, p.2)
    else readHead (line ++ [c]) s

def contentLength (lines : List (List Char)) : Option ℕ :=
  lines.findSome? fun line =>
    if "Content-Length: ".toList.isPrefixOf line then
      some (Nat.ofDigitChars 10 ((line.drop 16).takeWhile Char.isDigit) 0)
    else none

def Framed (s : List Char) : Prop :=
  ∃ p, readHead [] s = some p ∧ contentLength p.1 = some p.2.length

instance (s : List Char) : Decidable (Framed s) :=
  decidable_of_iff ((readHead [] s).any fun p => contentLength p.1 = some p.2.length) (by
    simp [Framed, Option.any_eq_true])

/-- What a `write` sends that leaves the last `left` bytes unsent. -/
def written (s : List Char) (left : ℕ) : List Char := s.take (s.length - left)

/-- Lines, each ended by CRLF. -/
def rows (lines : List (List Char)) : List Char := lines.flatMap (· ++ ['\r', '\n'])

/-! ## Reading -/

theorem readHead_append {l : List Char} (h : '\n' ∉ l) (line s : List Char) :
    readHead line (l ++ s) = readHead (line ++ l) s := by
  induction l generalizing line with
  | nil => rw [List.nil_append, List.append_nil]
  | cons c l ih =>
    have hc : c ≠ '\n' := (List.ne_of_not_mem_cons h).symm
    have hl := ih (List.not_mem_of_not_mem_cons h) (line ++ [c])
    rw [List.cons_append, readHead, if_neg hc, hl, List.append_assoc, List.singleton_append]

theorem readHead_open {s : List Char} (h : '\n' ∉ s) (line : List Char) :
    readHead line s = none := by
  have happ := readHead_append h line []
  rwa [List.append_nil] at happ

theorem readHead_row {l : List Char} (hl : l ≠ []) (hn : '\n' ∉ l) (s : List Char) :
    readHead [] (l ++ '\r' :: '\n' :: s) =
      (readHead [] s).map fun p => ((l ++ ['\r']) :: p.1, p.2) := by
  have hne : l ++ ['\r'] ≠ ['\r'] := by simpa using hl
  rw [readHead_append hn, List.nil_append, readHead, if_neg (by decide), readHead, if_pos rfl,
    if_neg hne]

section Lines
variable {lines : List (List Char)}

theorem readHead_rows (hlines : ∀ l ∈ lines, l ≠ [] ∧ '\n' ∉ l) (body : List Char) :
    readHead [] (rows lines ++ '\r' :: '\n' :: body) =
      some (lines.map (· ++ ['\r']), body) := by
  induction lines with
  | nil => rfl
  | cons l ls ih =>
    obtain ⟨hl, hn⟩ := hlines l List.mem_cons_self
    have hls := ih fun l' hm => hlines l' (List.mem_cons_of_mem _ hm)
    have hcons : rows (l :: ls) ++ '\r' :: '\n' :: body =
        l ++ '\r' :: '\n' :: (rows ls ++ '\r' :: '\n' :: body) := by simp [rows]
    rw [hcons, readHead_row hl hn, hls]
    rfl

/-- A head that is cut has no blank line, and a body of one line does not bring
one. -/
theorem readHead_cut (hlines : ∀ l ∈ lines, l ≠ [] ∧ '\n' ∉ l) {n : ℕ}
    (hcut : n < (rows lines ++ ['\r', '\n']).length) {s : List Char} (hs : '\n' ∉ s) :
    readHead [] ((rows lines ++ ['\r', '\n']).take n ++ s) = none := by
  induction lines generalizing n with
  | nil =>
    have htake : '\n' ∉ ['\r', '\n'].take n := by
      have hn : n = 0 ∨ n = 1 := by simp [rows] at hcut; omega
      rcases hn with rfl | rfl <;> decide
    exact readHead_open (by simpa [rows] using ⟨htake, hs⟩) []
  | cons l ls ih =>
    obtain ⟨hl, hn⟩ := hlines l List.mem_cons_self
    have hcons : rows (l :: ls) ++ ['\r', '\n'] =
        (l ++ ['\r']) ++ '\n' :: (rows ls ++ ['\r', '\n']) := by simp [rows]
    have hnl : '\n' ∉ l ++ ['\r'] := by simpa using hn
    rw [hcons] at hcut ⊢
    rcases Nat.lt_or_ge (l ++ ['\r']).length n with hlt | hge
    · -- the line is there: the cut is behind it
      obtain ⟨k, rfl⟩ := Nat.exists_eq_add_of_lt hlt
      have hk : k < (rows ls ++ ['\r', '\n']).length := by
        simp only [List.length_append, List.length_cons, List.length_nil] at hcut ⊢
        omega
      have htake : ((l ++ ['\r']) ++ '\n' :: (rows ls ++ ['\r', '\n'])).take
            ((l ++ ['\r']).length + k + 1) ++ s =
          l ++ '\r' :: '\n' :: ((rows ls ++ ['\r', '\n']).take k ++ s) := by
        rw [Nat.add_assoc, List.take_length_add_append, List.take_succ_cons]
        simp
      rw [htake, readHead_row hl hn,
        ih (fun l' hm => hlines l' (List.mem_cons_of_mem _ hm)) hk]
      rfl
    · rw [List.take_append_of_le_length hge]
      refine readHead_open ?_ []
      rw [List.mem_append, not_or]
      exact ⟨fun hm => hnl (List.mem_of_mem_take hm), hs⟩

/-- A response whose body is one line is framed exactly if neither of the two
writes is short. -/
theorem framed_iff (hlines : ∀ l ∈ lines, l ≠ [] ∧ '\n' ∉ l) {body : List Char}
    (hlength : contentLength (lines.map (· ++ ['\r'])) = some body.length) (hbody : body ≠ [])
    (hone : '\n' ∉ body) (left₁ left₂ : ℕ) :
    Framed (written (rows lines ++ ['\r', '\n']) left₁ ++ written body left₂) ↔
      left₁ = 0 ∧ left₂ = 0 := by
  have hpos := List.length_pos_iff.mpr hbody
  have hnl : '\n' ∉ written body left₂ := fun hm => hone (List.mem_of_mem_take hm)
  rcases Nat.eq_zero_or_pos left₁ with rfl | hleft
  · have hread : readHead [] (written (rows lines ++ ['\r', '\n']) 0 ++ written body left₂) =
        some (lines.map (· ++ ['\r']), written body left₂) := by
      rw [written, Nat.sub_zero, List.take_length, List.append_assoc]
      exact readHead_rows hlines _
    have hlen : (written body left₂).length = body.length - left₂ := by
      rw [written, List.length_take]
      omega
    constructor
    · rintro ⟨p, hp, hl⟩
      rw [hread] at hp
      cases hp
      rw [hlength, Option.some.injEq, hlen] at hl
      omega
    · rintro ⟨-, rfl⟩
      refine ⟨_, hread, ?_⟩
      rw [hlength, hlen, Nat.sub_zero]
  · have hcut := readHead_cut hlines (n := (rows lines ++ ['\r', '\n']).length - left₁)
      (by simp only [List.length_append, List.length_cons]; omega) hnl
    constructor
    · rintro ⟨p, hp, -⟩
      rw [written, hcut] at hp
      cases hp
    · omega

end Lines

example : Framed "HTTP/1.1 200 OK\r\nContent-Length: 2\r\n\r\nok".toList ∧
    ¬ Framed "HTTP/1.1 200 OK\r\nContent-Length: 2\r\n\r\no".toList := by decide

end IotController.Http
