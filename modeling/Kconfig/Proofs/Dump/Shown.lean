import Kconfig.Proofs.Dump.Tokens
import Kconfig.Proofs.Model.Resolution
import Kconfig.Proofs.Run.Plan

/-!
# What expressions are shown as

The text of a token is found by a run, since the symbol that it is about is looked up. Where that
leads to something, the text is known without a run (`Dump.shown`): whatever is put into text is put
into this one (`Dump.eq_shown_of_tokensText`), and tokens that are signs or symbols of the table are
put into text without more ado (`Dump.tokensText_of_isLiteral`).
-/

namespace Kconfig.Dump

variable {m : Model}

/-- A reference as the dump shows it, where it leads to something. -/
def shownSymbol (m : Model) : SymbolRef → String
  | .truth t => t.letter
  | .entry id => ((m.symbol? id).map (entryText id)).getD ""

/-- A token as the dump shows it. One that cannot be shown has no text. -/
def Token.shown (m : Model) : Token → String
  | text s => s
  | symbol sym => shownSymbol m sym
  | ordering _ => "y"
  | unknown => ""

/-- Tokens as the dump shows them, one after the other. -/
def shown (m : Model) (tokens : List Token) : String :=
  String.join (tokens.map (Token.shown m))

/-- The first token is shown in front of the others. -/
theorem shown_cons (t : Token) (ts : List Token) : shown m (t :: ts) = t.shown m ++ shown m ts := by
  rw [shown, List.map_cons, String.join_cons]
  rfl

/-- Tokens in a row are shown one after the other. -/
theorem shown_append (ts ts' : List Token) : shown m (ts ++ ts') = shown m ts ++ shown m ts' := by
  rw [shown, List.map_append, String.join_append]
  rfl

/-! ## What is put into text -/

/-- A symbol of the table is shown as its entry. -/
theorem shownSymbol_of_symbol? {id : SymbolId} {s : Symbol} (h : m.symbol? id = some s) :
    shownSymbol m (.entry id) = entryText id s := by
  rw [shownSymbol, h, Option.map_some, Option.getD_some]

/-- A symbol that the table has comes to what is shown for it. -/
theorem symbolText_of_resolves {sym : SymbolRef} (h : m.Resolves sym) :
    symbolText m sym = pure (shownSymbol m sym) := by
  cases sym with
  | truth t => rfl
  | entry id =>
    obtain ⟨s, hs⟩ := h
    rw [shownSymbol_of_symbol? hs]
    simp only [symbolText, Model.find_of_symbol? hs, pure_bind]

/-- A token that has a text is shown by it. -/
theorem eq_shown_of_tokenText {context text : String} {t : Token}
    (h : (tokenText m context t).ending = .ok text) : text = t.shown m := by
  cases t with
  | text s => exact (Except.ok.inj h).symm
  | symbol sym =>
    cases sym with
    | truth t => exact (Except.ok.inj h).symm
    | entry id =>
      obtain ⟨s, hs, hok⟩ := Run.exists_of_bind_ok h
      obtain rfl : entryText id s = text := Except.ok.inj hok
      exact (shownSymbol_of_symbol? (Model.symbol?_of_find_ok hs)).symm
  | ordering op => exact (Except.ok.inj h).symm
  | unknown => cases h

/-- So are tokens that have texts, one after the other. -/
theorem eq_shown_of_tokensText {context text : String} {tokens : List Token}
    (h : (tokensText m context tokens).ending = .ok text) : text = shown m tokens := by
  obtain ⟨texts, htexts, hok⟩ := Run.exists_of_bind_ok h
  obtain rfl : String.join texts = text := Except.ok.inj hok
  clear h hok
  induction tokens generalizing texts with
  | nil =>
    obtain rfl : [] = texts := Except.ok.inj htexts
    rfl
  | cons t tokens ih =>
    rw [List.mapM_cons] at htexts
    obtain ⟨first, hfirst, hothers⟩ := Run.exists_of_bind_ok htexts
    obtain ⟨rest, hrest, hok⟩ := Run.exists_of_bind_ok hothers
    obtain rfl : first :: rest = texts := Except.ok.inj hok
    rw [String.join_cons, shown_cons, eq_shown_of_tokenText hfirst, ih rest hrest]

/-! ## What is put into text without more ado -/

/-- Whether a token is a sign, or a symbol that leads to something. -/
def Token.IsLiteral (m : Model) : Token → Prop
  | text _ => True
  | symbol sym => m.Resolves sym
  | ordering _ => False
  | unknown => False

/-- Tokens that are shown as they are come to their text, in whatever context. -/
theorem tokensText_of_isLiteral (context : String) {tokens : List Token}
    (h : ∀ t ∈ tokens, t.IsLiteral m) : tokensText m context tokens = pure (shown m tokens) := by
  have htoken : ∀ t ∈ tokens, tokenText m context t = ⟨[], .ok (t.shown m)⟩ := by
    intro t ht
    have hliteral := h t ht
    cases t with
    | text s => rfl
    | symbol sym => exact symbolText_of_resolves hliteral
    | ordering op => exact hliteral.elim
    | unknown => exact hliteral.elim
  have hevents : (tokens.flatMap fun _ => ([] : List Event)) = [] :=
    List.flatMap_eq_nil_iff.mpr fun _ _ => rfl
  rw [tokensText, Run.mapM_of_ok htoken, hevents]
  rfl

end Kconfig.Dump
