import Kconfig.Proofs.Condition.ReadBack

/-!
# Texts with ranges

A range is no condition, but it may stand where a condition does, and is then written between
brackets. To a reader that knows ranges it is an operand: two operands between brackets. It stands
for itself by its text, as a name does; no name has brackets, so the two cannot be confused.

The scanner without ranges has no use for brackets but in quoted texts. So wherever it can take a
character it still does, and a bracket is one of a range only where it cannot
(`RangeScanner.step`). All that is read without ranges is read the same with them
(`Formula.ofRangedText?_of_ofText?`).
-/

namespace Kconfig

/-- The state of a scanner that knows ranges. -/
inductive RangeScanner where
  | outside (s : Scanner)
  /-- In a range: the lexemes before it, its characters, the latest first, and how far the scanner
  has come with them. -/
  | inside (done : List Lexeme) (chars : List Char) (s : Scanner)

namespace RangeScanner

/-- One character. -/
def step (d : Dialect) : RangeScanner → Char → Option RangeScanner
  | outside s, c =>
    match s.step d c with
    | some s' => some (outside s')
    | none => if c = '[' then (s.complete? d).map fun done => inside done [] {} else none
  | inside done chars s, c =>
    match s.step d c, s.complete? d with
    | some s', _ => some (inside done (c :: chars) s')
    | none, some [.operand _, .operand _] =>
      if c = ']' then
        some (outside ⟨.between,
          .operand (.name (String.ofList ('[' :: chars.reverse ++ [']']))) :: done⟩)
      else none
    | none, _ => none

/-- The lexemes, the latest first, where the text may end. -/
def complete? (d : Dialect) : RangeScanner → Option (List Lexeme)
  | outside s => s.complete? d
  | inside .. => none

/-- All the characters of a text. -/
def run (d : Dialect) (s : RangeScanner) (text : List Char) : Option RangeScanner :=
  text.foldlM (step d) s

/-- Where no text is left, the scanner stays as it is. -/
@[simp] theorem run_nil (d : Dialect) (s : RangeScanner) : run d s [] = some s := rfl

/-- A character is scanned by one step, and the text behind it from there. -/
@[simp] theorem run_cons (d : Dialect) (s : RangeScanner) (c : Char) (text : List Char) :
    run d s (c :: text) = (step d s c).bind fun s' => run d s' text := rfl

/-- A text is scanned through its parts. -/
theorem run_append (d : Dialect) (s : RangeScanner) (a b : List Char) :
    run d s (a ++ b) = (run d s a).bind fun s' => run d s' b := by
  simp only [run, List.foldlM_append]
  rfl

variable {d : Dialect} {s s' : Scanner} {text : List Char}

/-- Outside of ranges, what the scanner takes is taken. -/
theorem run_outside (h : s.run d text = some s') : run d (outside s) text = some (outside s') := by
  induction text generalizing s with
  | nil => exact congrArg (Option.map outside) h
  | cons c text ih =>
    rw [Scanner.run_cons] at h
    obtain ⟨s₁, hstep, hrun⟩ := Option.bind_eq_some_iff.mp h
    have hc : step d (outside s) c = some (outside s₁) := by
      simp only [step, hstep]
    rw [run_cons, hc, Option.bind_some, ih hrun]

/-- Inside of one too, and it becomes part of the range. -/
theorem run_inside (done : List Lexeme) (chars : List Char) (h : s.run d text = some s') :
    run d (inside done chars s) text = some (inside done (text.reverse ++ chars) s') := by
  induction text generalizing s chars with
  | nil => exact congrArg (Option.map (inside done chars)) h
  | cons c text ih =>
    rw [Scanner.run_cons] at h
    obtain ⟨s₁, hstep, hrun⟩ := Option.bind_eq_some_iff.mp h
    have hc : step d (inside done chars s) c = some (inside done (c :: chars) s₁) := by
      simp only [step, hstep]
    rw [run_cons, hc, Option.bind_some, ih _ hrun, List.reverse_cons, List.append_assoc,
      List.singleton_append]

end RangeScanner

/-- The lexemes of a text that may have ranges. -/
def rangedLexemes? (d : Dialect) (text : String) : Option (List Lexeme) :=
  ((RangeScanner.run d (.outside {}) text.toList).bind (RangeScanner.complete? d)).map List.reverse

/-- Reads the text of an expression that may have ranges. -/
def Formula.ofRangedText? (d : Dialect) (text : String) : Option Formula :=
  (rangedLexemes? d text).bind (Reading.read d (.operand []))

/-- A text that has lexemes without ranges has the same ones where ranges are known. -/
theorem rangedLexemes?_of_lexemes? {d : Dialect} {text : String} {ls : List Lexeme}
    (h : lexemes? d text = some ls) : rangedLexemes? d text = some ls := by
  obtain ⟨done, hdone, rfl⟩ := Option.map_eq_some_iff.mp h
  obtain ⟨s, hrun, hcomplete⟩ := Option.bind_eq_some_iff.mp hdone
  rw [rangedLexemes?, RangeScanner.run_outside hrun, Option.bind_some, RangeScanner.complete?,
    hcomplete]
  rfl

/-- A text without ranges is read as it is by a reader who does not know them. -/
theorem Formula.ofRangedText?_of_ofText? {d : Dialect} {text : String} {f : Formula}
    (h : Formula.ofText? d text = some f) : Formula.ofRangedText? d text = some f := by
  obtain ⟨ls, hls, hread⟩ := Option.bind_eq_some_iff.mp h
  rw [ofRangedText?, rangedLexemes?_of_lexemes? hls, Option.bind_some, hread]

namespace Printer

open Scanner

/-- The text of a range. -/
def rangeText (p : Printer) (low high : SymbolRef) : String :=
  "[" ++ p.className .plain (p.model.classOf low) ++ " " ++
    p.className .plain (p.model.classOf high) ++ "]"

/-- A value is never the test of a definition. -/
theorem atomLexemes_plain (p : Printer) (sym : SymbolRef) :
    atomLexemes (p.atom .plain sym) = [.operand (p.atom .plain sym)] := by
  unfold atom
  cases p.model.classOf sym with
  | truth b => rfl
  | value name => cases p.dialect <;> rfl
  | option name => cases p.dialect <;> rfl

/-- The bracket that opens a range does not go on with anything, so the range begins with it. -/
theorem step_openRange {d : Dialect} {ls : List Lexeme} {s : Scanner} (hs : Rests d false ls s) :
    RangeScanner.step d (.outside s) '[' = some (.inside ls [] {}) := by
  have hnone : s.step d '[' = none := by
    rw [step_of_rests hs (by decide)]
    cases d <;> rfl
  simp only [RangeScanner.step, hnone, complete?_of_rests hs]
  rfl

/-- After two operands, the bracket that closes a range ends it. -/
theorem step_closeRange {d : Dialect} {a b : Atom} {s : Scanner}
    (hs : Rests d true [.operand b, .operand a] s) (done : List Lexeme) (chars : List Char) :
    RangeScanner.step d (.inside done chars s) ']' =
      some (.outside ⟨.between,
        .operand (.name (String.ofList ('[' :: chars.reverse ++ [']']))) :: done⟩) := by
  have hnone : s.step d ']' = none := by
    rw [step_of_rests hs (by decide)]
    cases d <;> rfl
  simp only [RangeScanner.step, hnone, complete?_of_rests hs]
  rfl

/-- A range is scanned as the operand that its text stands for. -/
theorem run_range {p : Printer} {low high : SymbolRef} (hlow : p.isLegible low)
    (hhigh : p.isLegible high) {ls : List Lexeme} {s : Scanner} (hs : Rests p.dialect false ls s) :
    RangeScanner.run p.dialect (.outside s) (p.rangeText low high).toList =
      some (.outside ⟨.between, .operand (.name (p.rangeText low high)) :: ls⟩) := by
  -- between the brackets, the scanner takes one side, a blank and the other side
  obtain ⟨s₁, hrun₁, hs₁⟩ := run_operand .plain hlow (.between p.dialect false [])
  rw [atomLexemes_plain] at hs₁
  have hblank : s₁.step p.dialect ' ' = some ⟨.between, [.operand (p.atom .plain low)]⟩ := by
    rw [step_of_rests hs₁ (by decide)]
    cases p.dialect <;> rfl
  obtain ⟨s₂, hrun₂, hs₂⟩ := run_operand .plain hhigh
    (.between p.dialect false [.operand (p.atom .plain low)])
  rw [atomLexemes_plain] at hs₂
  have hsides : Scanner.run p.dialect {} ((p.className .plain (p.model.classOf low)).toList ++
      ' ' :: (p.className .plain (p.model.classOf high)).toList) = some s₂ := by
    rw [Scanner.run_append, hrun₁, Option.bind_some, Scanner.run_cons, hblank, Option.bind_some,
      hrun₂]
  have htext : (p.rangeText low high).toList =
      '[' :: (((p.className .plain (p.model.classOf low)).toList ++
        ' ' :: (p.className .plain (p.model.classOf high)).toList) ++ [']']) := by
    simp [rangeText, String.toList_append]
  rw [htext, RangeScanner.run_cons, step_openRange hs, Option.bind_some, RangeScanner.run_append,
    RangeScanner.run_inside _ _ hsides, Option.bind_some, RangeScanner.run_cons,
    step_closeRange hs₂, Option.bind_some, RangeScanner.run_nil, List.append_nil,
    List.reverse_reverse, List.cons_append, ← htext, String.ofList_toList]

end Printer

end Kconfig
