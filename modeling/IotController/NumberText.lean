import IotController.Binary32
import Mathlib.Data.List.TakeWhile

/-! # Numbers as text

What `printf` writes with `%d` and `%.2f`, what JavaScript's `parseInt` and
`parseFloat` read, and that the second undoes the first: exactly for integers,
within half a hundredth for `%.2f`. -/
namespace IotController.NumberText
open IotController.Binary32

/-! ## printf -/

/-- `%d`. -/
def printInt (n : ℤ) : List Char :=
  if n < 0 then '-' :: Nat.toDigits 10 n.natAbs else Nat.toDigits 10 n.natAbs

/-- The number of hundredths `%.2f` writes. -/
def hundredths (x : ℚ) : ℕ := (roundHalfEven (|x| * 100)).natAbs

/-- `%.2f`; the sign is written also in front of a result that rounds to zero. -/
def printFixed2 (x : ℚ) : List Char :=
  (if x < 0 then ['-'] else []) ++
    (Nat.toDigits 10 (hundredths x / 100) ++ '.' ::
      [Nat.digitChar (hundredths x / 10 % 10), Nat.digitChar (hundredths x % 10)])

/-- `snprintf` into a buffer of `size` bytes keeps one for the terminator. -/
def snprintf (size : ℕ) (s : List Char) : List Char := s.take (size - 1)

/-! ## JavaScript -/

/-- White space and line terminators, skipped in front of a number. -/
def isSpace (c : Char) : Bool :=
  c ∈ ['\t', '\n', '\x0b', '\x0c', '\r', ' ', '\u00a0', '\u1680', '\u2028', '\u2029', '\u202f',
    '\u205f', '\u3000', '\ufeff'] || '\u2000' ≤ c && c ≤ '\u200a'

/-- An optional sign; `true` is minus. -/
def takeSign : List Char → Bool × List Char
  | '-' :: s => (true, s)
  | '+' :: s => (false, s)
  | s => (false, s)

def applySign {α : Type} [Neg α] (neg : Bool) (v : α) : α := if neg then -v else v

def hexDigit (c : Char) : Option ℕ :=
  if c.isDigit then some (c.toNat - '0'.toNat)
  else if 'a' ≤ c ∧ c ≤ 'f' then some (c.toNat - 'a'.toNat + 10)
  else if 'A' ≤ c ∧ c ≤ 'F' then some (c.toNat - 'A'.toNat + 10)
  else none

/-- The digits after a sign: hexadecimal after `0x`, decimal otherwise. -/
def parseUnsigned (s : List Char) : Option ℕ :=
  match s with
  | '0' :: 'x' :: t | '0' :: 'X' :: t =>
    let ds := (t.takeWhile fun c => (hexDigit c).isSome).filterMap hexDigit
    if ds = [] then none else some (ds.foldl (fun v d => 16 * v + d) 0)
  | _ =>
    let ds := s.takeWhile Char.isDigit
    if ds = [] then none else some (Nat.ofDigitChars 10 ds 0)

/-- `parseInt` without a radix; `none` is NaN. -/
def parseInt (s : List Char) : Option ℤ :=
  let p := takeSign (s.dropWhile isSpace)
  (parseUnsigned p.2).map fun n : ℕ => applySign p.1 (n : ℤ)

/-- The power of ten after the digits of a decimal literal. -/
def parseExponent : List Char → ℤ
  | c :: s =>
    if c = 'e' ∨ c = 'E' then
      let p := takeSign s
      applySign p.1 (Nat.ofDigitChars 10 (p.2.takeWhile Char.isDigit) 0 : ℤ)
    else 0
  | [] => 0

/-- `parseFloat`, as the exact value of the decimal literal it reads; `none` is
NaN or infinite. -/
def parseFloat (s : List Char) : Option ℚ :=
  let p := takeSign (s.dropWhile isSpace)
  let whole := p.2.takeWhile Char.isDigit
  let rest := p.2.dropWhile Char.isDigit
  let frac := if rest.head? = some '.' then rest.tail.takeWhile Char.isDigit else []
  let rest' := if rest.head? = some '.' then rest.tail.dropWhile Char.isDigit else rest
  if whole = [] ∧ frac = [] then none
  else some (applySign p.1 ((Nat.ofDigitChars 10 (whole ++ frac) 0 : ℚ) / 10 ^ frac.length *
    10 ^ parseExponent rest'))

/-! ## Digits -/

theorem toDigits_isDigit {n : ℕ} {c : Char} (h : c ∈ Nat.toDigits 10 n) : c.isDigit = true :=
  Nat.isDigit_of_mem_toDigits (by decide) (by decide) h

theorem digitChar_isDigit {n : ℕ} (h : n < 10) : (Nat.digitChar n).isDigit = true :=
  toDigits_isDigit (n := n) (by rw [Nat.toDigits_of_lt_base h]; exact List.mem_singleton_self _)

theorem isDigit_bounds {c : Char} (h : c.isDigit = true) : '0' ≤ c ∧ c ≤ '9' := by
  have h' : '0'.val ≤ c.val ∧ c.val ≤ '9'.val := by simpa [Char.isDigit] using h
  exact h'

theorem isDigit_not_space {c : Char} (h : c.isDigit = true) : isSpace c = false := by
  obtain ⟨h0, h9⟩ := isDigit_bounds h
  rw [isSpace, Bool.or_eq_false_iff]
  constructor
  · rw [decide_eq_false_iff_not]
    intro hm
    simp only [List.mem_cons, List.not_mem_nil, or_false] at hm
    rcases hm with rfl | rfl | rfl | rfl | rfl | rfl | rfl | rfl | rfl | rfl | rfl | rfl | rfl |
      rfl <;> exact absurd h (by decide)
  · have h2000 : ¬ '\u2000' ≤ c := fun h2 =>
      absurd (Char.le_trans h2 h9) (by decide)
    simp [h2000]

theorem isDigit_ne {c d : Char} (h : c.isDigit = true) (hd : d.isDigit = false) : c ≠ d := by
  rintro rfl
  rw [h] at hd
  cases hd

theorem takeSign_digit {c : Char} (h : c.isDigit = true) (s : List Char) :
    takeSign (c :: s) = (false, c :: s) := by
  unfold takeSign
  split
  · next he => exact absurd (List.cons.inj he).1 (isDigit_ne h (by decide))
  · next he => exact absurd (List.cons.inj he).1 (isDigit_ne h (by decide))
  · rfl

/-- A sign and digits read back as the sign and the digits. -/
theorem takeSign_signed (neg : Bool) {c : Char} (h : c.isDigit = true) (s : List Char) :
    takeSign (((if neg then ['-'] else []) ++ c :: s).dropWhile isSpace) = (neg, c :: s) := by
  cases neg
  · simp [isDigit_not_space h, takeSign_digit h]
  · have hm : isSpace '-' = false := by decide
    simp [hm, takeSign]

theorem toDigits_cons (n : ℕ) :
    ∃ c s, Nat.toDigits 10 n = c :: s ∧ c.isDigit = true := by
  obtain ⟨c, s, h⟩ := List.exists_cons_of_ne_nil (Nat.toDigits_ne_nil (n := n) (b := 10))
  exact ⟨c, s, h, toDigits_isDigit (h ▸ List.mem_cons_self)⟩

theorem takeSign_toDigits (neg : Bool) (n : ℕ) (s : List Char) :
    takeSign (((if neg then ['-'] else []) ++ (Nat.toDigits 10 n ++ s)).dropWhile isSpace) =
      (neg, Nat.toDigits 10 n ++ s) := by
  obtain ⟨c, ds, h, hc⟩ := toDigits_cons n
  rw [h]
  exact takeSign_signed neg hc (ds ++ s)

/-! ## Integers -/

theorem printInt_eq (n : ℤ) :
    printInt n = (if decide (n < 0) then ['-'] else []) ++ Nat.toDigits 10 n.natAbs := by
  unfold printInt
  split <;> simp_all

theorem parseUnsigned_toDigits (n : ℕ) : parseUnsigned (Nat.toDigits 10 n) = some n := by
  have hall : ∀ c ∈ Nat.toDigits 10 n, c.isDigit = true := fun c => toDigits_isDigit
  unfold parseUnsigned
  split
  · next h => exact absurd (hall 'x' (by rw [h]; simp)) (by decide)
  · next h => exact absurd (hall 'X' (by rw [h]; simp)) (by decide)
  · rw [List.takeWhile_eq_self_iff.mpr hall]
    simp

/-- `parseInt` reads what `%d` wrote. -/
theorem parseInt_printInt (n : ℤ) : parseInt (printInt n) = some n := by
  have h := takeSign_toDigits (decide (n < 0)) n.natAbs []
  rw [List.append_nil] at h
  rw [parseInt, printInt_eq, h, parseUnsigned_toDigits, Option.map_some, applySign]
  by_cases hn : n < 0
  · rw [if_pos (decide_eq_true hn)]
    congr 1; omega
  · rw [if_neg (by simpa using hn)]
    congr 1; omega

/-! ## Two decimals -/

/-- What `%.2f` writes is the number of hundredths. -/
def fixed2 (x : ℚ) : ℚ := applySign (decide (x < 0)) ((hundredths x : ℚ) / 100)

theorem cast_hundredths (x : ℚ) : (hundredths x : ℚ) = roundHalfEven (|x| * 100) := by
  have hn : (hundredths x : ℤ) = roundHalfEven (|x| * 100) :=
    Int.natAbs_of_nonneg (roundHalfEven_nonneg (by positivity))
  exact_mod_cast congrArg (Int.cast (R := ℚ)) hn

theorem abs_fixed2_sub_le (x : ℚ) : |fixed2 x - x| ≤ 1 / 200 := by
  have hr := abs_roundHalfEven_sub (|x| * 100)
  rw [fixed2, applySign, cast_hundredths]
  rw [abs_le] at hr ⊢
  by_cases hx : x < 0
  · rw [if_pos (decide_eq_true hx)]
    rw [abs_of_neg hx] at hr ⊢
    constructor <;> linarith
  · rw [if_neg (by simpa using hx)]
    rw [abs_of_nonneg (not_lt.mp hx)] at hr ⊢
    constructor <;> linarith

theorem ofDigitChars_hundredths (n : ℕ) :
    Nat.ofDigitChars 10 (Nat.toDigits 10 (n / 100) ++
      [Nat.digitChar (n / 10 % 10), Nat.digitChar (n % 10)]) 0 = n := by
  rw [Nat.ofDigitChars_append, Nat.ofDigitChars_ten_toDigits,
    Nat.ofDigitChars_cons_digitChar_of_lt_ten (Nat.mod_lt _ (by decide)),
    Nat.ofDigitChars_cons_digitChar_of_lt_ten (Nat.mod_lt _ (by decide)), Nat.ofDigitChars_nil]
  omega

/-- `parseFloat` reads what `%.2f` wrote. -/
theorem parseFloat_printFixed2 (x : ℚ) : parseFloat (printFixed2 x) = some (fixed2 x) := by
  have hall : ∀ c ∈ Nat.toDigits 10 (hundredths x / 100), c.isDigit = true :=
    fun c => toDigits_isDigit
  have h1 := digitChar_isDigit (Nat.mod_lt (hundredths x / 10) (by decide : 0 < 10))
  have h2 := digitChar_isDigit (Nat.mod_lt (hundredths x) (by decide : 0 < 10))
  have hdot : Char.isDigit '.' = false := by decide
  have hsign := takeSign_toDigits (decide (x < 0)) (hundredths x / 100)
    ('.' :: [Nat.digitChar (hundredths x / 10 % 10), Nat.digitChar (hundredths x % 10)])
  simp only [decide_eq_true_eq] at hsign
  have htake :
      [Nat.digitChar (hundredths x / 10 % 10), Nat.digitChar (hundredths x % 10)].takeWhile
        Char.isDigit =
      [Nat.digitChar (hundredths x / 10 % 10), Nat.digitChar (hundredths x % 10)] := by
    simp [h1, h2]
  have hdrop : [Nat.digitChar (hundredths x / 10 % 10), Nat.digitChar (hundredths x % 10)].dropWhile
      Char.isDigit = [] := by simp [h1, h2]
  simp [parseFloat, printFixed2, hsign, List.takeWhile_append_of_pos hall,
    List.dropWhile_append_of_pos hall, hdot, htake, hdrop, ofDigitChars_hundredths, parseExponent,
    fixed2]
  norm_num

/-! ## Which characters, and how many -/

theorem not_mem_printInt {c : Char} (hd : c.isDigit = false) (hs : c ≠ '-') (n : ℤ) :
    c ∉ printInt n := by
  rw [printInt_eq, List.mem_append, not_or]
  refine ⟨?_, fun h => isDigit_ne (toDigits_isDigit h) hd rfl⟩
  split <;> simp [hs]

theorem not_mem_printFixed2 {c : Char} (hd : c.isDigit = false) (hs : c ≠ '-') (hp : c ≠ '.')
    (x : ℚ) : c ∉ printFixed2 x := by
  have h1 := digitChar_isDigit (Nat.mod_lt (hundredths x / 10) (by decide : 0 < 10))
  have h2 := digitChar_isDigit (Nat.mod_lt (hundredths x) (by decide : 0 < 10))
  simp only [printFixed2, List.mem_append, List.mem_cons, List.not_mem_nil, or_false, not_or]
  refine ⟨?_, fun h => isDigit_ne (toDigits_isDigit h) hd rfl, hp, (isDigit_ne h1 hd).symm,
    (isDigit_ne h2 hd).symm⟩
  split <;> simp [hs]

theorem printInt_length {n : ℤ} {k : ℕ} (hk : 0 < k) (h : n.natAbs < 10 ^ k) :
    (printInt n).length ≤ k + 1 := by
  have hd := (Nat.length_toDigits_le_iff (by decide) hk).mpr h
  rw [printInt_eq, List.length_append]
  split <;> simp <;> omega

theorem printFixed2_length {x : ℚ} {k : ℕ} (hk : 0 < k) (h : hundredths x / 100 < 10 ^ k) :
    (printFixed2 x).length ≤ k + 4 := by
  have hd := (Nat.length_toDigits_le_iff (by decide) hk).mpr h
  simp only [printFixed2, List.length_append, List.length_cons, List.length_nil]
  split <;> simp <;> omega

theorem hundredths_le (x : ℚ) : (hundredths x : ℚ) ≤ |x| * 100 + 1 / 2 := by
  have hr := (abs_le.mp (abs_roundHalfEven_sub (|x| * 100))).2
  rw [cast_hundredths]
  linarith

end IotController.NumberText
