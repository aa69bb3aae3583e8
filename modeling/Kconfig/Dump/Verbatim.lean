import Kconfig.Condition.Class

/-!
# Expressions in the dump

The dump shows an expression as it is in the model: every compound node in parentheses of its own,
truth values by their letters and symbols by their ids, so that each can be found in the dump
again. Values are shown in single quotes, and symbols that the parser made up without a name are
not told apart.

Ordering comparisons are shown as `y` and reported. A node whose operator is not known cannot be
shown, and ends the dump; `context` says where it stood.
-/

namespace Kconfig.Dump

/-- A token of a dumped expression. -/
inductive Token where
  | text (s : String)
  | symbol (sym : SymbolRef)
  | ordering (op : Comparison)
  | unknown

/-- The tokens of a comparison. -/
def verbatimComparison (op : Comparison) (left right : SymbolRef) : List Token :=
  match op with
  | .equal => [.text "(", .symbol left, .text "=", .symbol right, .text ")"]
  | .unequal => [.text "(", .symbol left, .text "!=", .symbol right, .text ")"]
  | .less | .lessEqual | .greater | .greaterEqual => [.ordering op]

/-- The tokens of an expression, in front of what follows. -/
def verbatimOnto : Expr → List Token → List Token
  | .symbol s, rest => .symbol s :: rest
  | .not e, rest => .text "!" :: verbatimOnto e rest
  | .compare op l r, rest => verbatimComparison op l r ++ rest
  | .and l r, rest =>
    .text "(" :: verbatimOnto l (.text " &amp;&amp; " :: verbatimOnto r (.text ")" :: rest))
  | .or l r, rest =>
    .text "(" :: verbatimOnto l (.text " || " :: verbatimOnto r (.text ")" :: rest))
  | .listLast member, rest => .text "(" :: .symbol member :: .text ")" :: rest
  | .listCons member tail, rest =>
    .text "(" :: .symbol member :: .text " ^ " :: verbatimOnto tail (.text ")" :: rest)
  | .range low high, rest =>
    .text "[" :: .symbol low :: .text "," :: .symbol high :: .text "]" :: rest
  | .unknown, rest => .unknown :: rest

/-- The tokens of an expression. -/
def verbatim (e : Expr) : List Token :=
  verbatimOnto e []

/-- The tokens of an expression do not depend on what follows. -/
theorem verbatimOnto_append (e : Expr) (a b : List Token) :
    verbatimOnto e (a ++ b) = verbatimOnto e a ++ b := by
  induction e generalizing a b with
  | symbol | compare | listLast | range | unknown => simp [verbatimOnto]
  | not e ih => simp only [verbatimOnto, ih, List.cons_append]
  | and l r ihl ihr | or l r ihl ihr =>
    simp only [verbatimOnto, ← List.cons_append, ihl, ihr]
  | listCons member tail ih => simp only [verbatimOnto, ← List.cons_append, ih]

/-- Writing an expression in front of `rest` appends it to the tokens of the expression. -/
theorem verbatimOnto_eq (e : Expr) (rest : List Token) :
    verbatimOnto e rest = verbatim e ++ rest :=
  verbatimOnto_append e [] rest

/-- A symbol is shown as itself. -/
@[simp] theorem verbatim_symbol (s : SymbolRef) : verbatim (.symbol s) = [.symbol s] := rfl

/-- A negation is shown with a mark before its operand and no parentheses of its own. -/
@[simp] theorem verbatim_not (e : Expr) : verbatim (.not e) = .text "!" :: verbatim e := rfl

/-- A comparison is shown as its operator and its sides ask for. -/
@[simp] theorem verbatim_compare (op : Comparison) (l r : SymbolRef) :
    verbatim (.compare op l r) = verbatimComparison op l r :=
  List.append_nil _

/-- A conjunction is shown between parentheses, its sign in the form that character data allows. -/
@[simp] theorem verbatim_and (l r : Expr) :
    verbatim (.and l r) =
      [.text "("] ++ verbatim l ++ [.text " &amp;&amp; "] ++ verbatim r ++ [.text ")"] := by
  rw [verbatim, verbatimOnto, verbatimOnto_eq l, verbatimOnto_eq r]
  simp only [List.cons_append, List.append_assoc, List.nil_append]

/-- A disjunction is shown between parentheses. -/
@[simp] theorem verbatim_or (l r : Expr) :
    verbatim (.or l r) =
      [.text "("] ++ verbatim l ++ [.text " || "] ++ verbatim r ++ [.text ")"] := by
  rw [verbatim, verbatimOnto, verbatimOnto_eq l, verbatimOnto_eq r]
  simp only [List.cons_append, List.append_assoc, List.nil_append]

/-- The last member of a chain is shown between parentheses. -/
@[simp] theorem verbatim_listLast (member : SymbolRef) :
    verbatim (.listLast member) = [.text "(", .symbol member, .text ")"] := rfl

/-- A member of a chain is shown between parentheses with the rest of the chain. -/
@[simp] theorem verbatim_listCons (member : SymbolRef) (tail : Expr) :
    verbatim (.listCons member tail) =
      [.text "(", .symbol member, .text " ^ "] ++ verbatim tail ++ [.text ")"] := by
  rw [verbatim, verbatimOnto, verbatimOnto_eq tail]
  rfl

/-- A range is shown as its two bounds between brackets. -/
@[simp] theorem verbatim_range (low high : SymbolRef) :
    verbatim (.range low high) =
      [.text "[", .symbol low, .text ",", .symbol high, .text "]"] := rfl

/-- An unknown node has one token, which no text is given for. -/
@[simp] theorem verbatim_unknown : verbatim .unknown = [.unknown] := rfl

/-- The further members of a choice, each in front of the next. -/
def chainTail : List SymbolRef → List Token
  | [] => []
  | a :: rest => .text " ^ " :: .text "(" :: .symbol a :: chainTail rest

/-- The members of a choice as a chain of them would be shown. -/
def chain (members : List SymbolRef) : List Token :=
  match members with
  | [] => []
  | a :: rest =>
    .text "(" :: .symbol a :: chainTail rest ++ List.replicate members.length (.text ")")

/-- An entry of the table as the dump shows it. -/
def entryText (id : SymbolId) (s : Symbol) : String :=
  if s.isConstant || s.kind = .unknown then "'" ++ identifier "" (s.name.getD "") ++ "'"
  else if s.flags.contains .auto && !s.isChoice && s.name.isNone then "IGNORE"
  else id.label

/-- A reference as the dump shows it. -/
def symbolText (m : Model) : SymbolRef → Run String
  | .truth t => return t.letter
  | .entry id => do return entryText id (← m.find id)

/-- A token as the dump shows it. -/
def tokenText (m : Model) (context : String) : Token → Run String
  | .text s => return s
  | .symbol sym => symbolText m sym
  | .ordering op => do
    Run.log (.comparisonIgnored op context)
    return "y"
  | .unknown => Run.fail (.unrenderable context)

/-- Tokens as the dump shows them. -/
def tokensText (m : Model) (context : String) (tokens : List Token) : Run String := do
  return String.join (← tokens.mapM (tokenText m context))

/-- An expression as the dump shows it. -/
def exprText (m : Model) (context : String) (e : Expr) : Run String :=
  tokensText m context (verbatim e)

end Kconfig.Dump
