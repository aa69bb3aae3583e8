import Kconfig.Proofs.Dump.Contents
import Kconfig.Proofs.Dump.Tokens
import Kconfig.Proofs.Menu.Preorder
import Kconfig.Proofs.Model.Soundness
import Kconfig.Proofs.Run.Plan

/-!
# The dump is properly nested

A dump is markup if no name has a `<` in it and no text holds the end of the section that it stands
in (`Model.FitsMarkup`): names are written as they are, but for `&`. Both are so if names and texts
have no angle brackets at all (`Model.IsTagFree`).

The steps of a plan that is taken to its end have then written nodes, and have opened no tags but
those of the pieces (`Dump.Marks`). This is kept by what plans are put together with: plans one
after the other, and a plan between the pieces that open and close an element.
-/

namespace Kconfig

open Markup

/-- Whether names and texts of a model have no angle brackets. -/
structure Model.IsTagFree (m : Model) : Prop where
  name : ∀ s ∈ m.symbols, ∀ name ∈ s.name, '<' ∉ name.toList ∧ '>' ∉ name.toList
  text : ∀ s ∈ m.symbols, ∀ p ∈ s.properties, ∀ text ∈ p.text,
    '<' ∉ text.toList ∧ '>' ∉ text.toList

/-- Whether names and texts of a model have nothing in them that a dump would be read wrong by: no
name starts a tag, and no text ends its section. -/
structure Model.FitsMarkup (m : Model) : Prop where
  name : ∀ s ∈ m.symbols, ∀ name ∈ s.name, '<' ∉ name.toList
  text : ∀ s ∈ m.symbols, ∀ p ∈ s.properties, ∀ text ∈ p.text,
    ¬ "]]>".toList <:+: text.toList

/-- A model without angle brackets has nothing in it that a dump would be read wrong by. -/
theorem Model.IsTagFree.fitsMarkup {m : Model} (h : m.IsTagFree) : m.FitsMarkup where
  name := fun s hs name hname => (h.name s hs name hname).1
  text := by
    intro s hs p hp text htext hend
    have hbracket : '>' ∈ "]]>".toList := by decide
    exact (h.text s hs p hp text htext).2 (hend.subset hbracket)

namespace Dump

open Step (runAll runAll_append)

/-! ## Words -/

/-- A number is a word. -/
theorem isWord_number (n : Nat) : IsWord (toString n) := by
  intro c hc
  simp only [toString, Nat.toList_repr] at hc
  have hdigit := Nat.isDigit_of_mem_toDigits (by decide) (by decide) hc
  simp [Char.isAlphanum, hdigit]

/-- The name of a symbol's kind is a word. -/
theorem isWord_symbolKind (kind : SymbolKind) : IsWord kind.dumpName := by
  cases kind <;> decide

/-- The name of a property's kind is a word. -/
theorem isWord_propertyKind (kind : PropertyKind) : IsWord kind.dumpName := by
  cases kind <;> decide

/-! ## Tags -/

/-- The tag of a property. -/
def propertyTag (kind : PropertyKind) : Tag :=
  ⟨"property", [("type", kind.dumpName)]⟩

/-- The tag of a symbol. -/
def symbolTag (kind : SymbolKind) (flags : SymbolFlags) (id : SymbolId) : Tag :=
  ⟨"symbol", [("type", kind.dumpName), ("flags", toString flags.bits.toNat),
    ("id", toString id.position)]⟩

/-- The tag of a menu. -/
def menuTag (flags : MenuFlags) : Tag :=
  ⟨"menu", [("flags", toString flags.bits.toNat)]⟩

/-- The tag of a list of menus. -/
def submenuTag : Tag :=
  ⟨"submenu", []⟩

/-- The tag of a property is made of words. -/
theorem propertyTag_isPlain (kind : PropertyKind) : (propertyTag kind).IsPlain := by
  have hname : IsWord "property" := by decide
  have htype : IsWord "type" := by decide
  exact ⟨hname, List.forall_mem_singleton.mpr ⟨htype, isWord_propertyKind kind⟩⟩

/-- The tag of a symbol is made of words, its flags and its id being numbers. -/
theorem symbolTag_isPlain (kind : SymbolKind) (flags : SymbolFlags) (id : SymbolId) :
    (symbolTag kind flags id).IsPlain := by
  have hname : IsWord "symbol" := by decide
  have htype : IsWord "type" := by decide
  have hflags : IsWord "flags" := by decide
  have hid : IsWord "id" := by decide
  refine ⟨hname, ?_⟩
  simp only [symbolTag, List.forall_mem_cons]
  exact ⟨⟨htype, isWord_symbolKind kind⟩, ⟨hflags, isWord_number _⟩, ⟨hid, isWord_number _⟩, nofun⟩

/-- The tag of a menu is made of words. -/
theorem menuTag_isPlain (flags : MenuFlags) : (menuTag flags).IsPlain := by
  have hname : IsWord "menu" := by decide
  have hflags : IsWord "flags" := by decide
  exact ⟨hname, List.forall_mem_singleton.mpr ⟨hflags, isWord_number _⟩⟩

/-- The tag of a list of menus is made of words. -/
theorem submenuTag_isPlain : submenuTag.IsPlain :=
  ⟨(by decide : IsWord "submenu"), nofun⟩

/-- The tags that a piece opens. -/
def Piece.tags : Piece → List Tag
  | openSubmenu => [submenuTag]
  | openMenu flags => [menuTag flags]
  | dep _ => [⟨"dep", []⟩]
  | openSymbol kind flags id => [symbolTag kind flags id]
  | name _ => [⟨"name", []⟩]
  | openProperty kind => [propertyTag kind]
  | text _ => [⟨"text", []⟩]
  | value _ _ => [⟨"expr", []⟩]
  | visible _ _ => [⟨"visible", []⟩, ⟨"expr", []⟩]
  | members _ => [propertyTag .choice, ⟨"expr", []⟩]
  | closeSubmenu | closeMenu | closeSymbol | closeProperty => []

/-- The tags that a plan opens. -/
def planTags (plan : List (Step Piece)) : List Tag :=
  (Step.written plan).flatMap Piece.tags

/-- The tags of plans in a row, the first of which does not stop, are those of the first, then those
of the other. -/
theorem planTags_append {a : List (Step Piece)} (h : Step.ending a = .ok ())
    (b : List (Step Piece)) : planTags (a ++ b) = planTags a ++ planTags b := by
  rw [planTags, Step.written_append h, List.flatMap_append, planTags, planTags]

/-! ## Expressions -/

variable {m : Model}

/-- Identifiers have no `&` in them, and no `<` that is not in the name. -/
theorem not_mem_identifier {name : String} (h : '<' ∉ name.toList) :
    '<' ∉ (identifier "" name).toList ∧ '&' ∉ (identifier "" name).toList := by
  have hchar : ∀ c ∈ (identifier "" name).toList, c = '_' ∨ c ∈ name.toList ∧ c ≠ '&' := by
    intro c hc
    simp only [identifier, String.empty_append, String.toList_ofList, List.mem_map] at hc
    obtain ⟨d, hd, rfl⟩ := hc
    by_cases hamp : d = '&'
    · exact .inl (if_pos hamp)
    · rw [if_neg hamp]
      exact .inr ⟨hd, hamp⟩
  constructor
  · intro hmem
    rcases hchar _ hmem with heq | ⟨hname, -⟩
    · cases heq
    · exact h hname
  · intro hmem
    rcases hchar _ hmem with heq | ⟨-, hne⟩
    · cases heq
    · exact hne rfl

/-- An identifier without angle brackets spells characters. -/
theorem spells_identifier {name : String} (h : '<' ∉ name.toList) :
    Spells (identifier "" name) (charNodes (identifier "" name)) :=
  .chars (not_mem_identifier h).1 (not_mem_identifier h).2

/-- What an entry is shown as has no tags in it. -/
theorem spells_entryText (id : SymbolId) {s : Symbol} (h : ∀ name ∈ s.name, '<' ∉ name.toList) :
    Spells (entryText id s) (charNodes (entryText id s)) := by
  have hname : '<' ∉ (s.name.getD "").toList := by
    rcases hs : s.name with _ | name
    · exact List.not_mem_nil
    · exact h name hs
  have hlabel : ∀ c, c.isAlphanum = false → c ≠ '@' → c ∉ id.label.toList := by
    intro c hc hat
    have hstart : c ∉ "S@".toList := by
      intro hmem
      rcases List.mem_cons.mp hmem with rfl | hmem
      · cases hc
      · exact hat (List.mem_singleton.mp hmem)
    rw [SymbolId.label, String.toList_append, List.mem_append, not_or]
    exact ⟨hstart, (isWord_number _).not_mem hc⟩
  unfold entryText
  split
  · have hid := not_mem_identifier hname
    apply Spells.chars
    · simp [hid.1]
    · simp [hid.2]
  · split
    · exact .chars (by decide) (by decide)
    · exact .chars (hlabel _ rfl (by decide)) (hlabel _ rfl (by decide))

/-- Signs spell characters, also the one with entities in it. -/
theorem exists_spells_of_mem_signs : ∀ s ∈ signs, ∃ chars, Spells s (charNodes chars) := by
  have hplain : ∀ s ∈ signs, s ≠ " &amp;&amp; " → '<' ∉ s.toList ∧ '&' ∉ s.toList := by decide
  intro s hs
  by_cases hamp : s = " &amp;&amp; "
  · rw [hamp]
    exact ⟨" && ", fun _ => rfl⟩
  · obtain ⟨hopen, hentity⟩ := hplain s hs hamp
    exact ⟨s, .chars hopen hentity⟩

/-- Whether a token that has a text spells characters. -/
def Token.IsMarkup (m : Model) (t : Token) : Prop :=
  ∀ context text, (tokenText m context t).ending = .ok text →
    ∃ chars, Spells text (charNodes chars)

/-- A sign of the dump spells characters. -/
theorem Token.isMarkup_sign {s : String} (hs : s ∈ signs) : (Token.text s).IsMarkup m := by
  intro context text htext
  obtain rfl : s = text := Except.ok.inj htext
  exact exists_spells_of_mem_signs s hs

/-- A symbol spells characters, if the names of the model fit. -/
theorem Token.isMarkup_symbol (h : m.FitsMarkup) (sym : SymbolRef) :
    (Token.symbol sym).IsMarkup m := by
  intro context text htext
  cases sym with
  | truth t =>
    obtain rfl : t.letter = text := Except.ok.inj htext
    cases t <;> exact ⟨_, .chars (by decide) (by decide)⟩
  | entry id =>
    obtain ⟨s, hs, hok⟩ := Run.exists_of_bind_ok htext
    obtain rfl : entryText id s = text := Except.ok.inj hok
    have hmem : s ∈ m.symbols := Model.mem_symbols_of_symbol? (Model.symbol?_of_find_ok hs)
    exact ⟨_, spells_entryText id fun name hname => h.name s hmem name hname⟩

/-- An ordering comparison spells the character that is shown for it. -/
theorem Token.isMarkup_ordering (op : Comparison) : (Token.ordering op).IsMarkup m := by
  intro context text htext
  obtain rfl : "y" = text := Except.ok.inj htext
  exact ⟨_, .chars (by decide) (by decide)⟩

/-- An unknown node has no text, and so nothing to spell. -/
theorem Token.isMarkup_unknown : Token.unknown.IsMarkup m := by
  intro context text htext
  cases htext

/-- Tokens that have texts spell characters together. -/
theorem exists_spells_tokensText {context : String} {tokens : List Token}
    (h : ∀ t ∈ tokens, t.IsMarkup m) {text : String}
    (htext : (tokensText m context tokens).ending = .ok text) :
    ∃ chars, Spells text (charNodes chars) := by
  obtain ⟨texts, htexts, hok⟩ := Run.exists_of_bind_ok htext
  obtain rfl : String.join texts = text := Except.ok.inj hok
  clear htext hok
  induction tokens generalizing texts with
  | nil =>
    obtain rfl : [] = texts := Except.ok.inj htexts
    exact ⟨"", .nil⟩
  | cons t tokens ih =>
    rw [List.forall_mem_cons] at h
    rw [List.mapM_cons] at htexts
    obtain ⟨first, hfirst, hothers⟩ := Run.exists_of_bind_ok htexts
    obtain ⟨rest, hrest, hok⟩ := Run.exists_of_bind_ok hothers
    obtain rfl : first :: rest = texts := Except.ok.inj hok
    obtain ⟨chars, hchars⟩ := h.1 context first hfirst
    obtain ⟨chars', hchars'⟩ := ih h.2 rest hrest
    refine ⟨chars ++ chars', ?_⟩
    rw [String.join_cons, charNodes_append]
    exact hchars.append hchars'

/-- An expression that can be shown spells characters. -/
theorem exists_spells_exprText (h : m.FitsMarkup) {context : String} {e : Expr} {text : String}
    (htext : (exprText m context e).ending = .ok text) :
    ∃ chars, Spells text (charNodes chars) := by
  refine exists_spells_tokensText ?_ htext
  exact forall_mem_verbatim (fun _ => Token.isMarkup_sign) Token.isMarkup_ordering
    Token.isMarkup_unknown fun sym _ => Token.isMarkup_symbol h sym

/-- The chain of some members spells characters. -/
theorem exists_spells_chain (h : m.FitsMarkup) {context : String} {members : List SymbolRef}
    {text : String} (htext : (tokensText m context (chain members)).ending = .ok text) :
    ∃ chars, Spells text (charNodes chars) := by
  refine exists_spells_tokensText ?_ htext
  exact forall_mem_chain (fun _ => Token.isMarkup_sign) fun sym _ => Token.isMarkup_symbol h sym

/-! ## Pieces -/

/-- Nothing is written while a token is put into text. -/
theorem writes_tokenText (m : Model) (context : String) (t : Token) :
    (tokenText m context t).writes = [] := by
  cases t with
  | symbol sym =>
    cases sym with
    | truth t => rfl
    | entry id =>
      have hfind : (m.find id).writes = [] := by
        unfold Model.find
        cases m.symbol? id <;> rfl
      exact Run.writes_bind_eq_nil hfind fun _ => rfl
  | text | ordering | unknown => rfl

/-- Nothing is written while tokens are put into text. -/
theorem writes_tokensText (m : Model) (context : String) (tokens : List Token) :
    (tokensText m context tokens).writes = [] :=
  Run.writes_bind_eq_nil (Run.writes_mapM_eq_nil (writes_tokenText m context) tokens) fun _ => rfl

/-- Finding the text of a piece writes nothing. -/
theorem writes_render (m : Model) (piece : Piece) : (piece.render m).writes = [] := by
  cases piece with
  | dep | value | visible | members =>
    exact Run.writes_bind_eq_nil (writes_tokensText m _ _) fun _ => rfl
  | openSubmenu | closeSubmenu | openMenu | closeMenu | openSymbol | closeSymbol | name
  | openProperty | closeProperty | text => rfl

/-- A piece by itself. -/
theorem exists_of_write_ok {piece : Piece}
    (h : (runAll (Piece.render m) [.write piece]).ending = .ok ()) :
    ∃ text, (piece.render m).ending = .ok text ∧
      (runAll (Piece.render m) [.write piece]).output = text := by
  rw [Step.runAll_cons] at h
  obtain ⟨_, hstep, -⟩ := Run.exists_of_bind_ok h
  obtain ⟨text, htext, -⟩ := Run.exists_of_bind_ok hstep
  refine ⟨text, htext, ?_⟩
  rw [Run.output_eq_join, Step.runAll_cons, Run.writes_bind_of_ok hstep, Step.run,
    Run.writes_bind_of_ok htext, writes_render]
  simp [Run.write, Run.writes, String.join]

/-- Plans one after the other. -/
theorem exists_of_append_ok {a b : List (Step Piece)}
    (h : (runAll (Piece.render m) (a ++ b)).ending = .ok ()) :
    (runAll (Piece.render m) a).ending = .ok () ∧ (runAll (Piece.render m) b).ending = .ok () ∧
      (runAll (Piece.render m) (a ++ b)).output =
        (runAll (Piece.render m) a).output ++ (runAll (Piece.render m) b).output := by
  rw [runAll_append] at h ⊢
  obtain ⟨_, ha, hb⟩ := Run.exists_of_bind_ok h
  refine ⟨ha, hb, ?_⟩
  rw [Run.output_eq_join, Run.writes_bind_of_ok ha, String.join_append]
  rfl

/-! ## Plans -/

/-- Whether a plan that is taken to its end has written nodes of a kind, with no tags but those of
its pieces. -/
def Marks (m : Model) (plan : List (Step Piece)) (P : List Node → Prop) : Prop :=
  (runAll (Piece.render m) plan).ending = .ok () →
    ∃ nodes, Spells (runAll (Piece.render m) plan).output nodes ∧
      nodesTags nodes = planTags plan ∧ P nodes

namespace Marks

variable {P Q : List Node → Prop} {a b plan : List (Step Piece)}

/-- A plan that writes nodes of a kind writes nodes of a wider one. -/
theorem mono (h : Marks m plan P) (hPQ : ∀ nodes, P nodes → Q nodes) : Marks m plan Q := by
  intro hending
  obtain ⟨nodes, hspells, htags, hnodes⟩ := h hending
  exact ⟨nodes, hspells, htags, hPQ nodes hnodes⟩

/-- A plan without steps writes no nodes. -/
theorem nil : Marks m [] (· = []) := fun _ => ⟨[], .nil, rfl, rfl⟩

/-- A message writes no nodes. -/
theorem note (message : Diagnostic) : Marks m [.note message] (· = []) :=
  fun _ => ⟨[], .nil, rfl, rfl⟩

/-- A plan that stops is not taken to its end. -/
theorem stop (reason : Stop) : Marks m [.stop reason] P := nofun

/-- A piece writes nodes of a kind, if its text spells them and has its tags. -/
theorem write {piece : Piece}
    (h : ∀ text, (piece.render m).ending = .ok text →
      ∃ nodes, Spells text nodes ∧ nodesTags nodes = piece.tags ∧ P nodes) :
    Marks m [.write piece] P := by
  intro hending
  obtain ⟨text, htext, houtput⟩ := exists_of_write_ok hending
  obtain ⟨nodes, hspells, htags, hnodes⟩ := h text htext
  have hplan : planTags [.write piece] = piece.tags := List.append_nil _
  rw [houtput, hplan]
  exact ⟨nodes, hspells, htags, hnodes⟩

/-- Plans in a row write nodes of the first kind, then nodes of the other. -/
theorem append (ha : Marks m a P) (hb : Marks m b Q) :
    Marks m (a ++ b) fun nodes => ∃ x y, P x ∧ Q y ∧ nodes = x ++ y := by
  intro hending
  obtain ⟨hendingA, hendingB, houtput⟩ := exists_of_append_ok hending
  obtain ⟨x, hx, htagsX, hP⟩ := ha hendingA
  obtain ⟨y, hy, htagsY, hQ⟩ := hb hendingB
  rw [houtput, planTags_append (Step.ending_of_runAll_ok hendingA), ← htagsX, ← htagsY,
    ← nodesTags_append]
  exact ⟨x ++ y, hx.append hy, rfl, x, y, hP, hQ, rfl⟩

/-- A plan between the pieces that open and close an element. The first piece may go on after the
opening tag with nodes of its own. -/
theorem element {tag : Tag} (htag : tag.IsPlain) {opening closing : Piece}
    (hopening : ∀ text, (opening.render m).ending = .ok text →
      ∃ lead nodes, text = "<" ++ tag.text ++ ">" ++ lead ∧ Spells lead nodes ∧
        opening.tags = tag :: nodesTags nodes ∧ P nodes)
    (hclosing : closing.render m = pure ("</" ++ tag.name ++ ">\n")) (hclosed : closing.tags = [])
    (h : Marks m plan Q) :
    Marks m ([.write opening] ++ plan ++ [.write closing]) fun nodes =>
      ∃ x y, P x ∧ Q y ∧ nodes = [.element tag (x ++ y), .char '\n'] := by
  intro hending
  obtain ⟨hfirst, hlast, houtput⟩ := exists_of_append_ok hending
  obtain ⟨hstart, hplan, houtput'⟩ := exists_of_append_ok hfirst
  have hplanTags : planTags ([.write opening] ++ plan ++ [.write closing]) =
      opening.tags ++ planTags plan := by
    rw [planTags_append (Step.ending_of_runAll_ok hfirst), planTags_append rfl]
    simp [planTags, Step.written, hclosed]
  obtain ⟨start, hstart, hstartText⟩ := exists_of_write_ok hstart
  obtain ⟨last, hlast, hlastText⟩ := exists_of_write_ok hlast
  obtain ⟨lead, x, rfl, hlead, htagsX, hx⟩ := hopening start hstart
  obtain ⟨y, hspells, htagsY, hy⟩ := h hplan
  rw [hclosing] at hlast
  obtain rfl : "</" ++ tag.name ++ ">\n" = last := Except.ok.inj hlast
  have hall := (Spells.element htag (hlead.append hspells)).append .newline
  refine ⟨[.element tag (x ++ y)] ++ [.char '\n'], ?_, ?_, x, y, hx, hy, rfl⟩
  · have hend : ">\n" = ">" ++ "\n" := rfl
    rw [houtput, houtput', hstartText, hlastText, hend]
    simpa only [String.append_assoc] using hall
  · have htags : nodesTags ([.element tag (x ++ y)] ++ [.char '\n']) =
        tag :: (nodesTags x ++ nodesTags y) := by
      simp [nodesTags, Node.tags, nodesTags_append]
    rw [hplanTags, htagsX, ← htagsY, htags, List.cons_append]

/-- What may be absent. -/
theorem optional {α : Type} {piece : α → Piece} {a : Option α} (hnone : P [])
    (h : ∀ x ∈ a, Marks m [.write (piece x)] P) : Marks m (Dump.optionalPiece piece a) P := by
  rcases a with _ | x
  · apply Marks.nil.mono
    rintro _ rfl
    exact hnone
  · exact h x rfl

end Marks

/-! ## Elements -/

/-- An element without attributes. -/
theorem spells_element {name content text : String} (hname : IsWord name)
    (htext : text = "<" ++ name ++ ">" ++ content ++ "</" ++ name ++ ">") {nodes : List Node}
    (h : Spells content nodes) : Spells text [.element ⟨name, []⟩ nodes] := by
  have htag : (Tag.mk name []).IsPlain := ⟨hname, nofun⟩
  have htagText : (Tag.mk name []).text = name := by simp [Tag.text]
  have helement := Spells.element htag h
  rwa [htagText, ← htext] at helement

section

variable {shown : String} {nodes : List Node} (h : Spells shown nodes)

include h

/-- A dependency spells its element. -/
theorem spells_dep : Spells ("<dep>" ++ shown ++ "</dep>") [.element ⟨"dep", []⟩ nodes] := by
  refine spells_element (by decide) ?_ h
  simp [← String.toList_inj]

/-- A value spells its element. -/
theorem spells_expr : Spells ("<expr>" ++ shown ++ "</expr>") [.element ⟨"expr", []⟩ nodes] := by
  refine spells_element (by decide) ?_ h
  simp [← String.toList_inj]

/-- A condition spells its element, with an expression in it. -/
theorem spells_visible :
    Spells ("<visible><expr>" ++ shown ++ "</expr></visible>")
      [.element ⟨"visible", []⟩ [.element ⟨"expr", []⟩ nodes]] := by
  refine spells_element (by decide) ?_ (spells_expr h)
  simp [← String.toList_inj]

end

/-- A piece that shows an expression spells what it puts around the expression. -/
theorem exists_spells_shown (h : m.FitsMarkup) {context : String} {e : Expr}
    {frame : String → String} {element : List Node → Node}
    (hframe : ∀ {shown nodes}, Spells shown nodes → Spells (frame shown) [element nodes])
    {text : String}
    (hending : (do return frame (← exprText m context e) : Run String).ending = .ok text) :
    ∃ chars, Spells text [element (charNodes chars)] := by
  obtain ⟨shown, hshown, hok⟩ := Run.exists_of_bind_ok hending
  obtain rfl : frame shown = text := Except.ok.inj hok
  obtain ⟨chars, hchars⟩ := exists_spells_exprText h hshown
  exact ⟨chars, hframe hchars⟩

/-- An element that holds characters opens no other tag. -/
theorem nodesTags_element (tag : Tag) (chars : String) :
    nodesTags [.element tag (charNodes chars)] = [tag] := by
  rw [nodesTags, Node.tags, nodesTags_charNodes]
  rfl

/-- The condition of a menu. -/
theorem marks_dep (h : m.FitsMarkup) (e : Expr) :
    Marks m [.write (.dep e)] fun nodes =>
      ∃ chars, nodes = [.element ⟨"dep", []⟩ (charNodes chars)] := by
  apply Marks.write
  intro text hending
  obtain ⟨chars, hspells⟩ := exists_spells_shown h spells_dep hending
  exact ⟨_, hspells, nodesTags_element _ chars, chars, rfl⟩

/-- The value of a property writes an element that holds characters. -/
theorem marks_value (h : m.FitsMarkup) (context : String) (e : Expr) :
    Marks m [.write (.value context e)] fun nodes =>
      ∃ chars, nodes = [.element ⟨"expr", []⟩ (charNodes chars)] := by
  apply Marks.write
  intro text hending
  obtain ⟨chars, hspells⟩ := exists_spells_shown h spells_expr hending
  exact ⟨_, hspells, nodesTags_element _ chars, chars, rfl⟩

/-- The condition of a property writes an element for it. -/
theorem marks_visible (h : m.FitsMarkup) (context : String) (e : Expr) :
    Marks m [.write (.visible context e)] fun nodes =>
      ∃ inner, nodes = [.element ⟨"visible", []⟩ inner] := by
  apply Marks.write
  intro text hending
  obtain ⟨chars, hspells⟩ := exists_spells_shown h (fun h => spells_visible h) hending
  refine ⟨_, hspells, ?_, _, rfl⟩
  rw [nodesTags, Node.tags, nodesTags_element]
  rfl

/-- A name is written on a line of its own. -/
theorem marks_name {name : String} (h : '<' ∉ name.toList) :
    Marks m [.write (.name name)] fun nodes =>
      nodes = [.element ⟨"name", []⟩ (charNodes (identifier "" name)), .char '\n'] := by
  apply Marks.write
  intro text hending
  obtain rfl : "<name>" ++ identifier "" name ++ "</name>\n" = text := Except.ok.inj hending
  have hline : "<name>" ++ identifier "" name ++ "</name>\n" =
      "<" ++ "name" ++ ">" ++ identifier "" name ++ "</" ++ "name" ++ ">" ++ "\n" := by
    simp [← String.toList_inj]
  have hname : Spells ("<" ++ "name" ++ ">" ++ identifier "" name ++ "</" ++ "name" ++ ">") _ :=
    spells_element (by decide) rfl (spells_identifier h)
  rw [hline]
  exact ⟨_, hname.append .newline, nodesTags_element _ _, rfl⟩

/-- The text of a property is a section of its own. -/
theorem marks_text {s : String} (h : ¬ "]]>".toList <:+: s.toList) :
    Marks m [.write (.text s)] fun nodes =>
      nodes = [.element ⟨"text", []⟩ (charNodes s)] := by
  apply Marks.write
  intro text hending
  obtain rfl : "<text><![CDATA[" ++ s ++ "]]></text>" = text := Except.ok.inj hending
  have htext : "<text><![CDATA[" ++ s ++ "]]></text>" =
      "<" ++ "text" ++ ">" ++ ("<![CDATA[" ++ s ++ "]]>") ++ "</" ++ "text" ++ ">" := by
    simp [← String.toList_inj]
  exact ⟨_, spells_element (by decide) htext (.cdata h), nodesTags_element _ s, rfl⟩

/-! ## Properties, symbols and menus -/

/-- A tag on a line of its own. -/
theorem exists_of_tag_line {tag : Tag} {piece : Piece}
    (h : piece.render m = pure ("<" ++ tag.text ++ ">\n")) (htags : piece.tags = [tag])
    {text : String} (hending : (piece.render m).ending = .ok text) :
    ∃ lead nodes, text = "<" ++ tag.text ++ ">" ++ lead ∧ Spells lead nodes ∧
      piece.tags = tag :: nodesTags nodes ∧ nodes = [.char '\n'] := by
  rw [h] at hending
  obtain rfl : "<" ++ tag.text ++ ">\n" = text := Except.ok.inj hending
  refine ⟨"\n", [.char '\n'], ?_, .newline, htags, rfl⟩
  simp [← String.toList_inj]

/-- Whether nodes are what a symbol has in its element beside its name: its properties, each with
its texts. -/
def ShowsProperties (shown : List ShownProperty) (nodes : List Node) : Prop :=
  contents "name" nodes = [] ∧ shownProperties nodes = shown

/-- Properties are shown one after the other. -/
theorem ShowsProperties.append {a b : List ShownProperty} {x y : List Node}
    (hx : ShowsProperties a x) (hy : ShowsProperties b y) : ShowsProperties (a ++ b) (x ++ y) := by
  unfold ShowsProperties
  rw [contents_append, hx.1, hy.1, shownProperties_append, hx.2, hy.2]
  exact ⟨rfl, rfl⟩

/-- The element of a property. -/
theorem showsProperties_element (kind : PropertyKind) {content : List Node}
    {texts : List (Option String)} (h : contents "text" content = texts) :
    ShowsProperties [⟨some kind.dumpName, texts⟩]
      [.element (propertyTag kind) content, .char '\n'] := by
  subst h
  exact ⟨rfl, rfl⟩

/-- There is no text in the element of a value. -/
theorem contents_of_marks_value {nodes : List Node}
    (h : ∃ chars, nodes = [.element ⟨"expr", []⟩ (charNodes chars)]) :
    contents "text" nodes = [] := by
  obtain ⟨chars, rfl⟩ := h
  rfl

/-- The condition of a property has no texts. -/
theorem contents_of_marks_visible {nodes : List Node}
    (h : ∃ inner, nodes = [.element ⟨"visible", []⟩ inner]) : contents "text" nodes = [] := by
  obtain ⟨inner, rfl⟩ := h
  rfl

/-- The steps of a property show it. -/
theorem marks_propertySteps (h : m.FitsMarkup) {s : Symbol} (hs : s ∈ m.symbols) {p : Property}
    (hp : p ∈ s.properties) :
    Marks m (propertySteps p) (ShowsProperties [.ofProperty p]) := by
  have hopening : ∀ text, ((Piece.openProperty p.kind).render m).ending = .ok text →
      ∃ lead nodes, text = "<" ++ (propertyTag p.kind).text ++ ">" ++ lead ∧ Spells lead nodes ∧
        (Piece.openProperty p.kind).tags = propertyTag p.kind :: nodesTags nodes ∧ nodes = [] := by
    intro text hending
    obtain rfl : "<property type=\"" ++ p.kind.dumpName ++ "\">" = text := Except.ok.inj hending
    refine ⟨"", [], ?_, .nil, rfl, rfl⟩
    simp [← String.toList_inj, propertyTag, Tag.text, Tag.attributeText]
  have hclosing : Piece.closeProperty.render m =
      pure ("</" ++ (propertyTag p.kind).name ++ ">\n") := rfl
  have htext : Marks m (optionalPiece .text p.text) fun nodes =>
      contents "text" nodes = p.text.toList.map some := by
    cases htext : p.text with
    | none => exact Marks.nil.mono fun _ hnodes => hnodes ▸ rfl
    | some text =>
      apply (marks_text (h.text s hs p hp text htext)).mono
      rintro _ rfl
      exact congrArg (· :: []) (chars?_charNodes text)
  have hvalue : Marks m (optionalPiece (.value p.kind.dumpName) p.expr) fun nodes =>
      contents "text" nodes = [] :=
    .optional rfl fun e _ => (marks_value h _ e).mono fun _ => contents_of_marks_value
  have hvisible : Marks m (optionalPiece (.visible p.kind.dumpName) p.visible) fun nodes =>
      contents "text" nodes = [] :=
    .optional rfl fun e _ => (marks_visible h _ e).mono fun _ => contents_of_marks_visible
  have helement := Marks.element (propertyTag_isPlain p.kind) hopening hclosing rfl
    ((htext.append hvalue).append hvisible)
  simp only [← List.append_assoc] at helement
  apply helement.mono
  rintro _ ⟨_, _, rfl, ⟨_, visible, ⟨text, value, htext, hvalue, rfl⟩, hvisible, rfl⟩, rfl⟩
  apply showsProperties_element
  rw [List.nil_append, contents_append, contents_append, htext, hvalue, hvisible, List.append_nil,
    List.append_nil]

/-- Properties, one after the other. -/
theorem marks_properties {properties : List Property}
    (h : ∀ p ∈ properties, Marks m (propertySteps p) (ShowsProperties [.ofProperty p])) :
    Marks m (properties.flatMap propertySteps) (ShowsProperties (properties.map .ofProperty)) := by
  induction properties with
  | nil =>
    apply Marks.nil.mono
    rintro _ rfl
    exact ⟨rfl, rfl⟩
  | cons p properties ih =>
    rw [List.forall_mem_cons] at h
    rw [List.flatMap_cons]
    apply (h.1.append (ih h.2)).mono
    rintro _ ⟨x, y, hx, hy, rfl⟩
    exact hx.append hy

/-- The list of the members of a choice begins with the tag of its property. -/
theorem marks_membersSteps (h : m.FitsMarkup) (id : SymbolId) (s : Symbol) :
    Marks m (membersSteps m id s) (ShowsProperties [⟨some "choice", []⟩]) := by
  have hopening : ∀ text,
      ((Piece.members (m.choiceMembers id s)).render m).ending = .ok text →
        ∃ lead nodes, text = "<" ++ (propertyTag .choice).text ++ ">" ++ lead ∧
          Spells lead nodes ∧
          (Piece.members (m.choiceMembers id s)).tags = propertyTag .choice :: nodesTags nodes ∧
          contents "text" nodes = [] := by
    intro text hending
    obtain ⟨shown, hshown, hok⟩ := Run.exists_of_bind_ok hending
    obtain rfl : "<property type=\"choice\"><expr>" ++ shown ++ "</expr>" = text :=
      Except.ok.inj hok
    obtain ⟨chars, hchars⟩ := exists_spells_chain h hshown
    refine ⟨"<expr>" ++ shown ++ "</expr>", _, ?_, spells_expr hchars, ?_, rfl⟩
    · simp [← String.toList_inj, propertyTag, Tag.text, Tag.attributeText, PropertyKind.dumpName,
        PropertyKind.label]
    · rw [nodesTags_element]
      rfl
  have hclosing : Piece.closeProperty.render m =
      pure ("</" ++ (propertyTag .choice).name ++ ">\n") := rfl
  have hvisible : Marks m (optionalPiece (.visible "choice visibility")
      ((s.propertiesOf .symbol).getLast?.bind Property.visible)) fun nodes =>
        contents "text" nodes = [] :=
    .optional rfl fun e _ => (marks_visible h _ e).mono fun _ => contents_of_marks_visible
  have helement := Marks.element (propertyTag_isPlain .choice) hopening hclosing rfl hvisible
  apply helement.mono
  rintro _ ⟨members, visible, hmembers, hvisible, rfl⟩
  apply showsProperties_element .choice
  rw [contents_append, hmembers, hvisible]
  rfl

/-- A symbol is shown as an element, and the line ends after it. -/
theorem marks_symbolSteps (h : m.FitsMarkup) (id : SymbolId) {s : Symbol} (hs : s ∈ m.symbols) :
    Marks m (symbolSteps m id s) fun nodes =>
      ∃ content, nodes = [.element (symbolTag s.kind s.flags id) content, .char '\n'] ∧
        ShownSymbol.ofElement (symbolTag s.kind s.flags id) content = .ofSymbol m id s := by
  unfold symbolSteps
  split
  · exact .stop _
  · have hopening : (Piece.openSymbol s.kind s.flags id).render m =
        pure ("<" ++ (symbolTag s.kind s.flags id).text ++ ">\n") := by
      refine congrArg pure ?_
      simp [← String.toList_inj, symbolTag, Tag.text, Tag.attributeText]
    have hclosing : Piece.closeSymbol.render m =
        pure ("</" ++ (symbolTag s.kind s.flags id).name ++ ">\n") := rfl
    have hnote : Marks m (if s.kind = .unknown then [.note (.untypedDumped id)] else [])
        (· = []) := by
      split
      · exact .note _
      · exact .nil
    have hname : Marks m (optionalPiece .name s.name) fun nodes =>
        contents "name" nodes = (s.name.map (identifier "")).toList.map some ∧
          shownProperties nodes = [] := by
      cases hname : s.name with
      | none =>
        apply Marks.nil.mono
        rintro _ rfl
        exact ⟨rfl, rfl⟩
      | some name =>
        apply (marks_name (h.name s hs name hname)).mono
        rintro _ rfl
        exact ⟨congrArg (· :: []) (chars?_charNodes (identifier "" name)), rfl⟩
    have hproperties : Marks m (s.properties.flatMap propertySteps)
        (ShowsProperties (s.properties.map .ofProperty)) :=
      marks_properties fun p hp => marks_propertySteps h hs hp
    have hmembers : Marks m (if s.isChoice && m.capabilities.choiceMembers = .menu then
        membersSteps m id s else []) (ShowsProperties
          (if s.isChoice && m.capabilities.choiceMembers = .menu then [⟨some "choice", []⟩]
            else [])) := by
      split
      · exact marks_membersSteps h id s
      · apply Marks.nil.mono
        rintro _ rfl
        exact ⟨rfl, rfl⟩
    -- name, properties and members in turn, between the tags of the symbol
    have helement := Marks.element (symbolTag_isPlain s.kind s.flags id)
      (fun _ => exists_of_tag_line hopening rfl) hclosing rfl
      ((hname.append hproperties).append hmembers)
    have hall := hnote.append helement
    simp only [← List.append_assoc] at hall
    apply hall.mono
    rintro nodes ⟨_, _, rfl, ⟨_, _, rfl, ⟨_, members, ⟨name, properties, hname, hproperties, rfl⟩,
      hmembers, rfl⟩, rfl⟩, rfl⟩
    refine ⟨_, rfl, ?_⟩
    have hlead : contents "name" [.char '\n'] = [] ∧ shownProperties [.char '\n'] = [] := ⟨rfl, rfl⟩
    rw [ShownSymbol.ofElement, ShownSymbol.ofSymbol]
    simp only [contents_append, shownProperties_append, hlead, hname, hproperties.1, hproperties.2,
      hmembers.1, hmembers.2, List.nil_append, List.append_nil]
    rfl

/-- Whether nodes are what a menu shows of its symbol. -/
def ShowsSymbol (m : Model) (symbol : Option SymbolId) (nodes : List Node) : Prop :=
  match symbol with
  | none => nodes = []
  | some id => ∃ s content, m.symbol? id = some s ∧
      nodes = [.element (symbolTag s.kind s.flags id) content, .char '\n'] ∧
      ShownSymbol.ofElement (symbolTag s.kind s.flags id) content = .ofSymbol m id s

/-- The steps of a menu are those of its symbol and of its condition, between its tags. -/
theorem exists_menuSteps_eq (h : m.FitsMarkup) (menu : Menu) :
    ∃ symbolPlan,
      menuSteps m menu = [.write (.openMenu menu.flags)] ++
        (symbolPlan ++ optionalPiece .dep menu.dep) ++ [.write .closeMenu] ∧
        Marks m symbolPlan (ShowsSymbol m menu.symbol) := by
  unfold menuSteps
  rcases menu.symbol with _ | id
  · exact ⟨[], rfl, Marks.nil⟩
  · rcases hs : m.symbol? id with _ | s
    · refine ⟨[.stop (.outOfTable id)], ?_, .stop _⟩
      simp only [hs, List.append_assoc]
    · refine ⟨symbolSteps m id s, ?_, ?_⟩
      · simp only [hs, List.append_assoc]
      · apply (marks_symbolSteps h id (Model.mem_symbols_of_symbol? hs)).mono
        rintro _ ⟨content, rfl, hcontent⟩
        exact ⟨s, content, hs, rfl, hcontent⟩

/-- A menu is shown as an element, with its flags, its symbol and its condition. -/
theorem marks_menuSteps (h : m.FitsMarkup) (menu : Menu) :
    Marks m (menuSteps m menu) fun nodes => ∃ symbol dep,
      nodes = [.element (menuTag menu.flags) (.char '\n' :: (symbol ++ dep)), .char '\n'] ∧
        ShowsSymbol m menu.symbol symbol ∧
        (dep = [] ∨ ∃ chars, dep = [.element ⟨"dep", []⟩ (charNodes chars)]) := by
  have hopening : (Piece.openMenu menu.flags).render m =
      pure ("<" ++ (menuTag menu.flags).text ++ ">\n") := by
    refine congrArg pure ?_
    simp [← String.toList_inj, menuTag, Tag.text, Tag.attributeText]
  have hclosing : Piece.closeMenu.render m =
      pure ("</" ++ (menuTag menu.flags).name ++ ">\n") := rfl
  have hdep : Marks m (optionalPiece .dep menu.dep) fun nodes =>
      nodes = [] ∨ ∃ chars, nodes = [.element ⟨"dep", []⟩ (charNodes chars)] :=
    .optional (.inl rfl) fun e _ => (marks_dep h e).mono fun _ => .inr
  obtain ⟨symbolPlan, hsteps, hsymbol⟩ := exists_menuSteps_eq h menu
  have helement := Marks.element (menuTag_isPlain menu.flags)
    (fun _ => exists_of_tag_line hopening rfl) hclosing rfl (hsymbol.append hdep)
  rw [hsteps]
  apply helement.mono
  rintro _ ⟨_, _, rfl, ⟨symbol, dep, hsymbol, hdep, rfl⟩, rfl⟩
  exact ⟨symbol, dep, rfl, hsymbol, hdep⟩

/-- The pieces around a list of menus make an element of what is written for them. -/
theorem marks_submenu {plan : List (Step Piece)} {P : List Node → Prop} (h : Marks m plan P) :
    Marks m ([.write .openSubmenu] ++ plan ++ [.write .closeSubmenu]) fun nodes =>
      ∃ inner, nodes = [.element submenuTag (.char '\n' :: inner), .char '\n'] ∧ P inner := by
  have hopening : Piece.openSubmenu.render m = pure ("<" ++ submenuTag.text ++ ">\n") := rfl
  have hclosing : Piece.closeSubmenu.render m = pure ("</" ++ submenuTag.name ++ ">\n") := rfl
  have helement := Marks.element submenuTag_isPlain
    (fun _ => exists_of_tag_line hopening rfl) hclosing rfl h
  apply helement.mono
  rintro _ ⟨_, inner, rfl, hinner, rfl⟩
  exact ⟨inner, rfl, hinner⟩

/-- A dump is its note, and what is written for the menus below the root between the pieces around a
list of menus. -/
theorem steps_eq (m : Model) :
    steps m = [.note .dumping] ++ ([.write .openSubmenu] ++
      (WalkEvent.ofMenus m.root.children).flatMap (eventSteps m) ++ [.write .closeSubmenu]) := by
  rw [steps, Menu.walk_events, List.flatMap_append]
  rfl

end Dump

end Kconfig
