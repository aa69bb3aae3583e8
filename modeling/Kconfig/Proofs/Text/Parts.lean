import Kconfig.Text.Blank
import Kconfig.Text.Hex
import Kconfig.Text.Split

/-!
# Parts of a text

Cutting a text at its separators gives back the parts that it was joined from, cutting blanks off
gives back what the blanks were put around, and the hexadecimal digits of a number are read as the
number.
-/

namespace Kconfig.Text

/-! ## Separators -/

/-- A text without the separator is one part. -/
theorem splitAt_of_not_mem {sep : Char} {cs : List Char} (h : sep ∉ cs) :
    splitAt sep cs = [cs] := by
  induction cs with
  | nil => rfl
  | cons c cs ih =>
    rw [List.mem_cons, not_or] at h
    rw [splitAt, if_neg (Ne.symm h.1), ih h.2]

/-- A text up to its first separator is its first part. -/
theorem splitAt_append {sep : Char} {part : List Char} (h : sep ∉ part) (rest : List Char) :
    splitAt sep (part ++ sep :: rest) = part :: splitAt sep rest := by
  induction part with
  | nil => rw [List.nil_append, splitAt, if_pos rfl]
  | cons c part ih =>
    rw [List.mem_cons, not_or] at h
    rw [List.cons_append, splitAt, if_neg (Ne.symm h.1), ih h.2]

/-! ## Blanks -/

/-- Cutting off what is cut off leaves nothing else out. -/
theorem dropWhile_eq_self {p : Char → Bool} {cs : List Char} (h : ∀ c ∈ cs, p c = false) :
    cs.dropWhile p = cs := by
  cases cs with
  | nil => rfl
  | cons c cs =>
    rw [List.dropWhile_cons_of_neg]
    simp [h c List.mem_cons_self]

/-- What nothing is cut off from in front, nothing is cut off from behind. -/
theorem dropWhile_reverse_eq_self {p : Char → Bool} {cs : List Char} (h : ∀ c ∈ cs, p c = false) :
    cs.reverse.dropWhile p = cs.reverse := by
  apply dropWhile_eq_self
  intro c hc
  exact h c (List.mem_reverse.mp hc)

/-- A text without blanks has none to take away. -/
theorem trim_eq_self {cs : List Char} (h : ∀ c ∈ cs, isBlank c = false) : trim cs = cs := by
  unfold trim
  rw [dropWhile_eq_self h, dropWhile_reverse_eq_self h, List.reverse_reverse]

/-- Blanks in front are cut off. -/
theorem trim_blank_cons {c : Char} (hc : isBlank c) (cs : List Char) :
    trim (c :: cs) = trim cs := by
  rw [trim, List.dropWhile_cons_of_pos hc, trim]

/-- A blank behind is cut off. -/
theorem trim_append_blank {cs : List Char} (h : ∀ c ∈ cs, isBlank c = false) {c : Char}
    (hc : isBlank c) : trim (cs ++ [c]) = cs := by
  cases cs with
  | nil =>
    rw [List.nil_append, trim_blank_cons hc]
    rfl
  | cons d cs =>
    have hd : ¬ isBlank d := by simp [h d List.mem_cons_self]
    unfold trim
    rw [List.cons_append, List.dropWhile_cons_of_neg hd, ← List.cons_append,
      List.reverse_append, List.reverse_singleton, List.singleton_append,
      List.dropWhile_cons_of_pos hc, dropWhile_reverse_eq_self h, List.reverse_reverse]

/-- A text with a character that is not blank in front does not go away. -/
theorem trim_ne_nil {c : Char} (hc : isBlank c = false) (cs : List Char) : trim (c :: cs) ≠ [] := by
  have hstay : (c :: cs).dropWhile isBlank = c :: cs := by
    rw [List.dropWhile_cons_of_neg]
    simp [hc]
  unfold trim
  rw [hstay, List.reverse_cons, List.dropWhile_append]
  split
  · simp [hc]
  · simp

/-! ## Hexadecimal digits -/

namespace Hex

/-- The value of a digit that is written. -/
theorem digit?_digitChar {n : Nat} (h : n < 16) : digit? n.digitChar = some n := by
  have : ∀ n : Fin 16, digit? n.val.digitChar = some n.val := by decide
  exact this ⟨n, h⟩

/-- The digits of a number are read from left to right. -/
theorem number?_append (n : Nat) (as bs : List Char) :
    number? n (as ++ bs) = (number? n as).bind fun k => number? k bs := by
  induction as generalizing n with
  | nil => rfl
  | cons c as ih =>
    rw [List.cons_append, number?, number?]
    rcases digit? c with _ | d
    · rfl
    · exact ih (16 * n + d)

/-- A number is read as it was written. -/
theorem number?_spell (n : Nat) : number? 0 (spell n) = some n := by
  unfold spell
  induction n using Nat.strongRecOn with
  | ind n ih =>
    by_cases hlt : n < 16
    · rw [Nat.toDigits_of_lt_base hlt, number?, digit?_digitChar hlt]
      simp [number?]
    · rw [Nat.toDigits_of_base_le (by decide) (by omega), number?_append, ih (n / 16) (by omega),
        Option.bind_some, number?, digit?_digitChar (by omega)]
      simp only [number?, Option.some.injEq]
      omega

/-- The digits of a number are digits. -/
theorem exists_of_mem_spell {n : Nat} {c : Char} (h : c ∈ spell n) :
    ∃ d, d < 16 ∧ c = d.digitChar := by
  unfold spell at h
  induction n using Nat.strongRecOn with
  | ind n ih =>
    by_cases hlt : n < 16
    · rw [Nat.toDigits_of_lt_base hlt, List.mem_singleton] at h
      exact ⟨n, hlt, h⟩
    · rw [Nat.toDigits_of_base_le (by decide) (by omega), List.mem_append,
        List.mem_singleton] at h
      rcases h with h | h
      · exact ih (n / 16) (by omega) h
      · exact ⟨n % 16, by omega, h⟩

/-- What every digit satisfies, the digits of every number do. -/
theorem forall_mem_spell {P : Char → Prop} (h : ∀ d : Fin 16, P d.val.digitChar) (n : Nat) :
    ∀ c ∈ spell n, P c := by
  intro c hc
  obtain ⟨d, hd, rfl⟩ := exists_of_mem_spell hc
  exact h ⟨d, hd⟩

end Hex

end Kconfig.Text
