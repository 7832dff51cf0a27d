import IotController.NumberText

/-! # printf

A format is characters that are copied and conversions. Which conversions C
defines and which operands they take is one question, what is printed another:
`%%`, `%d` and `%.2f` are printed here, any other conversion is left to `other`. -/
namespace IotController.Printf
open IotController.NumberText

/-! ## Formats -/

inductive Piece where
  | text (c : Char)
  | conv (spec : List Char) (c : Char)
deriving DecidableEq, Repr

def flags : List Char := ['-', '+', ' ', '#', '0']

/-- What may stand between the percent sign and the conversion character. -/
def isSpec (c : Char) : Bool :=
  c.isDigit || c ∈ flags || c ∈ ['*', '.', 'h', 'l', 'j', 'z', 't', 'L']

/-- `some spec` behind a percent sign. A format that ends there has the
terminator for its conversion character. -/
def scan : Option (List Char) → List Char → List Piece
  | none, [] => []
  | some spec, [] => [.conv spec '\x00']
  | none, c :: s => if c = '%' then scan (some []) s else .text c :: scan none s
  | some spec, c :: s =>
    if isSpec c then scan (some (spec ++ [c])) s else .conv spec c :: scan none s

def pieces (fmt : List Char) : List Piece := scan none fmt

/-! ## Which conversions C defines -/

/-- What `va_arg` is asked for; an integer comes with its length modifier. -/
inductive Operand where
  | integer (length : List Char)
  | double
  | longDouble
  | wideChar
  | pointer
deriving DecidableEq, Repr

def shorts : List (List Char) := [[], ['h'], ['h', 'h']]
def longs : List (List Char) := [['l'], ['l', 'l'], ['j'], ['z'], ['t']]

def operand (length : List Char) (c : Char) : Option Operand :=
  if c ∈ ['d', 'i', 'o', 'u', 'x', 'X'] then
    if length ∈ shorts then some (.integer [])
    else if length ∈ longs then some (.integer length) else none
  else if c ∈ ['f', 'F', 'e', 'E', 'g', 'G', 'a', 'A'] then
    if length ∈ [[], ['l']] then some .double
    else if length = ['L'] then some .longDouble else none
  else if c = 'c' then
    if length = [] then some (.integer []) else if length = ['l'] then some .wideChar else none
  else if c = 's' ∧ length ∈ [[], ['l']] ∨ c = 'p' ∧ length = [] ∨
      c = 'n' ∧ (length ∈ shorts ∨ length ∈ longs) then
    some .pointer
  else none

/-- A field width, or the digits of a precision; a star takes an operand. -/
def takeCount : List Char → List Operand × List Char
  | '*' :: s => ([.integer []], s)
  | s => ([], s.dropWhile Char.isDigit)

def takePrecision : List Char → List Operand × List Char
  | '.' :: s => takeCount s
  | s => ([], s)

/-- The operands a piece takes; `none` where C leaves the behaviour undefined. -/
def Piece.operands : Piece → Option (List Operand)
  | .text _ => some []
  | .conv spec c =>
    if c = '%' then if spec = [] then some [] else none
    else
      let width := takeCount (spec.dropWhile (· ∈ flags))
      let precision := takePrecision width.2
      (operand precision.2 c).map fun o => width.1 ++ precision.1 ++ [o]

inductive Arg where
  | int (n : ℤ)
  | double (x : ℚ)

def Arg.type : Arg → Operand
  | .int _ => .integer []
  | .double _ => .double

/-- Every percent sign introduces a conversion that C defines, and the arguments
are the operands these take. -/
def Matches (fmt : List Char) (args : List Arg) : Prop :=
  ((pieces fmt).mapM Piece.operands).map List.flatten = some (args.map Arg.type)

instance (fmt : List Char) (args : List Arg) : Decidable (Matches fmt args) :=
  inferInstanceAs (Decidable (_ = _))

theorem pieces_cons {c : Char} (h : c ≠ '%') (fmt : List Char) :
    pieces (c :: fmt) = .text c :: pieces fmt := by
  rw [pieces, scan, if_neg h, pieces]

theorem matches_text {cs : List Char} (h : '%' ∉ cs) {fmt : List Char} {args : List Arg} :
    Matches (cs ++ fmt) args ↔ Matches fmt args := by
  induction cs with
  | nil => rfl
  | cons c cs ih =>
    have hc : c ≠ '%' := (List.ne_of_not_mem_cons h).symm
    rw [← ih (List.not_mem_of_not_mem_cons h), Matches, Matches, List.cons_append,
      pieces_cons hc, List.mapM_cons]
    cases (pieces (cs ++ fmt)).mapM Piece.operands <;> rfl

theorem not_matches {fmt : List Char} {p : Piece} (hp : p ∈ pieces fmt) (hu : p.operands = none)
    (args : List Arg) : ¬ Matches fmt args := by
  have hmap : (pieces fmt).mapM Piece.operands = none := by
    generalize pieces fmt = ps at hp
    induction ps with
    | nil => cases hp
    | cons q qs ih =>
      rw [List.mapM_cons]
      rcases List.mem_cons.mp hp with rfl | hq
      · rw [hu]; rfl
      · rw [ih hq]; cases q.operands <;> rfl
  rw [Matches, hmap]
  exact Option.some_ne_none _ ∘ Eq.symm

/-- A star takes an argument, a sign written twice takes none. -/
example : Matches "%-5.*lf of %hhd%%".toList [.int 1, .double 0, .int 2] := by decide

/-! ## Printing -/

section Printing
variable (other : List Char → Char → List Char)

def print : List Piece → List Arg → List Char
  | [], _ => []
  | .text c :: ps, args => c :: print ps args
  | .conv [] '%' :: ps, args => '%' :: print ps args
  | .conv [] 'd' :: ps, .int n :: args => printInt n ++ print ps args
  | .conv ['.', '2'] 'f' :: ps, .double x :: args => printFixed2 x ++ print ps args
  | .conv spec c :: ps, args => other spec c ++ print ps args

def sprintf (fmt : List Char) (args : List Arg) : List Char := print other (pieces fmt) args

@[simp] theorem sprintf_nil (args : List Arg) : sprintf other [] args = [] := rfl

theorem sprintf_text {cs : List Char} (h : '%' ∉ cs) (fmt : List Char) (args : List Arg) :
    sprintf other (cs ++ fmt) args = cs ++ sprintf other fmt args := by
  induction cs with
  | nil => rfl
  | cons c cs ih =>
    have hc : c ≠ '%' := (List.ne_of_not_mem_cons h).symm
    have hcs := ih (List.not_mem_of_not_mem_cons h)
    rw [sprintf] at hcs ⊢
    rw [List.cons_append, pieces_cons hc, print, hcs]
    rfl

@[simp] theorem sprintf_int (n : ℤ) (fmt : List Char) (args : List Arg) :
    sprintf other ('%' :: 'd' :: fmt) (.int n :: args) = printInt n ++ sprintf other fmt args := rfl

@[simp] theorem sprintf_fixed2 (x : ℚ) (fmt : List Char) (args : List Arg) :
    sprintf other ('%' :: '.' :: '2' :: 'f' :: fmt) (.double x :: args) =
      printFixed2 x ++ sprintf other fmt args := rfl

/-- A piece when no arguments are left. -/
def Piece.render : Piece → List Char
  | .text c => [c]
  | .conv [] '%' => ['%']
  | .conv spec c => other spec c

theorem sprintf_noArgs (fmt : List Char) :
    sprintf other fmt [] = (pieces fmt).flatMap (Piece.render other) := by
  rw [sprintf]
  generalize pieces fmt = ps
  induction ps with
  | nil => rfl
  | cons p ps ih =>
    rw [List.flatMap_cons, ← ih]
    unfold Piece.render
    split
    · rfl
    · rfl
    · next spec c hne =>
      rw [print]
      · rintro rfl rfl; exact hne rfl rfl
      · simp
      · simp

end Printing

end IotController.Printf
