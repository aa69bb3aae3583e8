import Kconfig.Proofs.Condition.Formula

/-!
# The lexemes of a condition's text

Both dialects have parentheses, words and comparison signs. The logic dialect has its connectives
and the negation among the words, and quoted texts besides; the boolean dialect has signs for them
and the word `defined`. The words `0` and `1` are values in either, and all other words are names.
Words are made of letters, digits and underscores.

The scanner takes one character at a time. A word ends where a character follows that no word has,
and a sign that may have a second character, as `!` and `<`, ends where that one does not follow.
-/

namespace Kconfig

/-- A word or sign of a condition's text. -/
inductive Lexeme where
  | openParen
  | closeParen
  | not
  | defined
  | operator (op : Operator)
  | operand (a : Atom)
deriving DecidableEq

namespace Lexeme

/-- A word of a dialect. -/
def ofWord (d : Dialect) (word : String) : Lexeme :=
  match d, word with
  | _, "0" => operand (.literal false)
  | _, "1" => operand (.literal true)
  | .logic, "not" => not
  | .logic, "and" => operator .and
  | .logic, "or" => operator .or
  | .boolean, "defined" => defined
  | _, word => operand (.name word)

/-- A sign of one character. -/
def ofSign? (d : Dialect) (c : Char) : Option Lexeme :=
  match d, c with
  | _, '<' => some (operator (.compare .less))
  | _, '>' => some (operator (.compare .greater))
  | .boolean, '!' => some not
  | _, _ => none

/-- A sign of two characters. -/
def ofPair? (d : Dialect) (a b : Char) : Option Lexeme :=
  match d, a, b with
  | _, '=', '=' => some (operator (.compare .equal))
  | _, '!', '=' => some (operator (.compare .unequal))
  | _, '<', '=' => some (operator (.compare .lessEqual))
  | _, '>', '=' => some (operator (.compare .greaterEqual))
  | .boolean, '&', '&' => some (operator .and)
  | .boolean, '|', '|' => some (operator .or)
  | _, _, _ => none

end Lexeme

/-- Whether words may have a character. -/
def isWordChar (c : Char) : Bool :=
  c.isAlphanum || c = '_'

/-- Whether a text is a name in a dialect: a word that the dialect has no other use for. -/
def Dialect.isName (d : Dialect) (s : String) : Bool :=
  !s.toList.isEmpty && s.toList.all isWordChar && Lexeme.ofWord d s = .operand (.name s)

/-- What the scanner is in the middle of. -/
inductive ScanMode where
  | between
  /-- A word, the latest character first. -/
  | word (chars : List Char)
  /-- A quoted text, the latest character first. -/
  | quoted (chars : List Char)
  /-- A sign that may have a second character. -/
  | sign (c : Char)

/-- The state of the scanner. -/
structure Scanner where
  mode : ScanMode := .between
  /-- The complete lexemes, the latest first. -/
  done : List Lexeme := []

namespace Scanner

/-- A character at which a lexeme may start, or a blank. -/
def start (d : Dialect) (done : List Lexeme) (c : Char) : Option Scanner :=
  if isWordChar c then some ⟨.word [c], done⟩
  else
    match d, c with
    | _, ' ' => some ⟨.between, done⟩
    | _, '(' => some ⟨.between, .openParen :: done⟩
    | _, ')' => some ⟨.between, .closeParen :: done⟩
    | .logic, '"' => some ⟨.quoted [], done⟩
    | _, '=' | _, '!' | _, '<' | _, '>' | _, '&' | _, '|' => some ⟨.sign c, done⟩
    | _, _ => none

/-- A character of words starts a word. -/
theorem start_of_isWordChar (d : Dialect) (done : List Lexeme) {c : Char} (h : isWordChar c) :
    start d done c = some ⟨.word [c], done⟩ := by
  unfold start
  rw [if_pos h]

/-- One character. -/
def step (d : Dialect) : Scanner → Char → Option Scanner
  | ⟨.between, done⟩, c => start d done c
  | ⟨.word chars, done⟩, c =>
    if isWordChar c then some ⟨.word (c :: chars), done⟩
    else start d (.ofWord d (String.ofList chars.reverse) :: done) c
  | ⟨.quoted chars, done⟩, c =>
    if c = '"' then some ⟨.between, .operand (.quoted (String.ofList chars.reverse)) :: done⟩
    else some ⟨.quoted (c :: chars), done⟩
  | ⟨.sign a, done⟩, c =>
    match Lexeme.ofPair? d a c with
    | some l => some ⟨.between, l :: done⟩
    | none =>
      match Lexeme.ofSign? d a with
      | some l => start d (l :: done) c
      | none => none

/-- The lexemes, the latest first, where the text may end. -/
def complete? (d : Dialect) : Scanner → Option (List Lexeme)
  | ⟨.between, done⟩ => some done
  | ⟨.word chars, done⟩ => some (.ofWord d (String.ofList chars.reverse) :: done)
  | ⟨.quoted _, _⟩ => none
  | ⟨.sign c, done⟩ => (Lexeme.ofSign? d c).map (· :: done)

/-- All the characters of a text. -/
def run (d : Dialect) (s : Scanner) (text : List Char) : Option Scanner :=
  text.foldlM (step d) s

/-- Where no text is left, the scanner stays as it is. -/
@[simp] theorem run_nil (d : Dialect) (s : Scanner) : run d s [] = some s := rfl

/-- A character is scanned by one step, and the text behind it from there. -/
@[simp] theorem run_cons (d : Dialect) (s : Scanner) (c : Char) (text : List Char) :
    run d s (c :: text) = (step d s c).bind fun s' => run d s' text := rfl

/-- A text is scanned through its parts. -/
theorem run_append (d : Dialect) (s : Scanner) (a b : List Char) :
    run d s (a ++ b) = (run d s a).bind fun s' => run d s' b := by
  simp only [run, List.foldlM_append]
  rfl

/-- Inside a word, the characters of words go on with it. -/
theorem run_word (d : Dialect) (done : List Lexeme) {text : List Char}
    (h : text.all isWordChar) (chars : List Char) :
    run d ⟨.word chars, done⟩ text = some ⟨.word (text.reverse ++ chars), done⟩ := by
  induction text generalizing chars with
  | nil => rfl
  | cons c text ih =>
    simp only [List.all_cons, Bool.and_eq_true] at h
    rw [run_cons, step, if_pos h.1, Option.bind_some, ih h.2]
    simp

/-- Inside a quoted text, all characters but the quote go on with it. -/
theorem run_quoted (d : Dialect) (done : List Lexeme) {text : List Char}
    (h : '"' ∉ text) (chars : List Char) :
    run d ⟨.quoted chars, done⟩ text = some ⟨.quoted (text.reverse ++ chars), done⟩ := by
  induction text generalizing chars with
  | nil => rfl
  | cons c text ih =>
    have hc : c ≠ '"' := by
      rintro rfl
      exact h List.mem_cons_self
    have ht : '"' ∉ text := by
      intro ht
      exact h (List.mem_cons_of_mem c ht)
    rw [run_cons, step, if_neg hc, Option.bind_some, ih ht]
    simp

end Scanner

/-- The lexemes of a text. -/
def lexemes? (d : Dialect) (text : String) : Option (List Lexeme) :=
  ((Scanner.run d {} text.toList).bind (Scanner.complete? d)).map List.reverse

end Kconfig
