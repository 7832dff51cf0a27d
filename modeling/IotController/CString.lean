import Mathlib.Data.List.Basic

/-! # C strings

A C string is what a buffer holds up to its first terminator. `strstr` looks for
one string in another; the lemmas say where a word can be in a text that is put
together around separators. -/
namespace IotController.CString

variable {α : Type}

/-- A buffer when `s` has been read into it and terminated. -/
def store {n : ℕ} (nul : α) (buf : Vector α n) (s : List α) (h : s.length < n) : Vector α n :=
  (Vector.ofFn fun i : Fin n => s.getD i buf[i]).set s.length nul h

theorem store_toList {n : ℕ} (nul : α) (buf : Vector α n) {s : List α} (h : s.length < n) :
    (store nul buf s h).toList = s ++ nul :: buf.toList.drop (s.length + 1) := by
  unfold store
  apply List.ext_getElem
  · simp
    omega
  · intro i hi _
    rw [Vector.getElem_toList, Vector.getElem_set]
    split
    · next hi => subst hi; simp
    · next hne =>
      rw [Vector.getElem_ofFn]
      rcases Nat.lt_or_ge i s.length with hlt | hge
      · simp [List.getElem_append_left, hlt]
      · obtain ⟨k, rfl⟩ := Nat.exists_eq_add_of_lt (Nat.lt_of_le_of_ne hge hne)
        simp [List.getElem_append_right, Nat.add_assoc, Nat.add_comm 1 k]

section Search
variable [DecidableEq α]

/-- The string in a buffer, with `nul` for the terminator. -/
def cstr (nul : α) (buf : List α) : List α := buf.takeWhile (· ≠ nul)

def strlen (nul : α) (buf : List α) : ℕ := (cstr nul buf).length

/-- The text from the first occurrence of `needle` on; `none` is `NULL`. -/
def strstr (needle : List α) : List α → Option (List α)
  | [] => if needle = [] then some [] else none
  | c :: s => if needle.isPrefixOf (c :: s) then some (c :: s) else strstr needle s

theorem strstr_isSome_iff (needle s : List α) : (strstr needle s).isSome ↔ needle <:+: s := by
  induction s with
  | nil =>
    rw [strstr, List.infix_nil]
    split <;> simp_all
  | cons c s ih =>
    rw [strstr, List.infix_cons_iff, ← List.isPrefixOf_iff_prefix]
    split
    · next h => simp [h]
    · next h => simp [h, ih]

theorem cstr_append {nul : α} {a : List α} (h : nul ∉ a) (b : List α) :
    cstr nul (a ++ b) = a ++ cstr nul b := by
  refine List.takeWhile_append_of_pos ?_
  intro c hc
  have hne : c ≠ nul := by rintro rfl; exact h hc
  simpa using hne

theorem cstr_of_notMem {nul : α} {a : List α} (h : nul ∉ a) : cstr nul a = a := by
  have happ := cstr_append h []
  rwa [List.append_nil, cstr, cstr, List.takeWhile_nil, List.append_nil] at happ

theorem cstr_terminated (nul : α) (a b : List α) : cstr nul (a ++ nul :: b) = cstr nul a := by
  induction a with
  | nil => simp [cstr]
  | cons c a ih =>
    rw [cstr, cstr] at ih
    simp only [cstr, List.cons_append, List.takeWhile_cons, ih]

/-- Nothing of what the buffer held before is left in its string. -/
theorem cstr_store {n : ℕ} (nul : α) (buf : Vector α n) {s : List α} (h : s.length < n) :
    cstr nul (store nul buf s h).toList = cstr nul s := by
  rw [store_toList, cstr_terminated]

theorem prefix_cstr {nul : α} {a s : List α} (h : nul ∉ a) (hp : a <+: s) : a <+: cstr nul s := by
  obtain ⟨t, rfl⟩ := hp
  rw [cstr_append h]
  exact List.prefix_append _ _

/-- The string of the beginning of a buffer begins the string of the buffer. -/
theorem cstr_mono {nul : α} {a b : List α} (h : a <+: b) : cstr nul a <+: cstr nul b := by
  obtain ⟨t, rfl⟩ := h
  by_cases hn : nul ∈ a
  · obtain ⟨l, r, rfl, hl⟩ := List.eq_append_cons_of_mem hn
    rw [List.append_assoc, cstr_append hl, cstr_append hl]
    simp [cstr]
  · rw [cstr_append hn, cstr_of_notMem hn]
    exact List.prefix_append _ _

end Search

/-! ## Words in a text -/

section Words
variable {x : α} {u v n a b : List α}

theorem prefix_append_cons (hv : x ∉ v) : v <+: a ++ x :: b ↔ v <+: a := by
  refine ⟨?_, fun h => h.trans (List.prefix_append _ _)⟩
  rintro ⟨t, ht⟩
  rcases List.append_eq_append_iff.mp ht with ⟨as, rfl, _⟩ | ⟨bs, rfl, hbs⟩
  · exact List.prefix_append _ _
  · cases bs with
    | nil => exact ⟨[], by simp⟩
    | cons y bs =>
      obtain ⟨rfl, _⟩ := List.cons.inj hbs
      exact absurd (by simp) hv

/-- A word without the separator is on one side of it. -/
theorem infix_append_cons (hx : x ∉ n) : n <:+: a ++ x :: b ↔ n <:+: a ∨ n <:+: b := by
  constructor
  · have on_right (l : List α) (hl : l <+: x :: b) (hxl : x ∉ l) : l = [] := by
      cases l with
      | nil => rfl
      | cons y l => exact absurd (by simp [(List.cons_prefix_cons.mp hl).1]) hxl
    rw [List.infix_append_iff, List.infix_cons_iff]
    rintro (h | (h | h) | ⟨l₁, l₂, rfl, h₁, h₂⟩)
    · exact .inl h
    · rw [on_right n h hx]
      exact .inl List.nil_infix
    · exact .inr h
    · rw [on_right l₂ h₂ fun hm => hx (List.mem_append_right _ hm), List.append_nil]
      exact .inl h₁.isInfix
  · rintro (h | h)
    · exact h.trans (List.prefix_append _ _).isInfix
    · exact h.trans ⟨a ++ [x], [], by simp⟩

/-- A word with one separator in it lies around the first separator of the text
or behind it. -/
theorem infix_around (hu : x ∉ u) (ha : x ∉ a) :
    u ++ x :: v <:+: a ++ x :: b ↔ u <:+ a ∧ v <+: b ∨ u ++ x :: v <:+: b := by
  constructor
  · rintro ⟨s, t, h⟩
    have h : s ++ u ++ x :: (v ++ t) = a ++ x :: b := by simpa using h
    rcases List.append_eq_append_iff.mp h with ⟨as, rfl, has⟩ | ⟨bs, hsu, hbs⟩
    · cases as with
      | nil =>
        obtain ⟨_, rfl⟩ := List.cons.inj has
        exact .inl ⟨⟨s, by simp⟩, List.prefix_append _ _⟩
      | cons y as =>
        obtain ⟨rfl, _⟩ := List.cons.inj has
        exact absurd (by simp) ha
    · cases bs with
      | nil =>
        obtain ⟨_, rfl⟩ := List.cons.inj hbs
        exact .inl ⟨⟨s, by simpa using hsu⟩, List.prefix_append _ _⟩
      | cons y bs =>
        obtain ⟨rfl, rfl⟩ := List.cons.inj hbs
        right
        rcases List.append_eq_append_iff.mp hsu with ⟨as, _, rfl⟩ | ⟨cs, _, hcs⟩
        · exact absurd (by simp) hu
        · cases cs with
          | nil => exact absurd (by rw [← List.nil_append u, ← hcs]; simp) hu
          | cons z cs =>
            obtain ⟨_, rfl⟩ := List.cons.inj hcs
            exact ⟨cs, t, by simp⟩
  · rintro (⟨⟨s, rfl⟩, ⟨t, rfl⟩⟩ | h)
    · exact ⟨s, t, by simp⟩
    · exact h.trans ⟨a ++ [x], [], by simp⟩

end Words

end IotController.CString
