import Kconfig.Proofs.Markup.Scanner

/-!
# Markup as a tree

Markup is properly nested if every tag that is opened is closed by its name, the last one first, and
nothing else is closed. Then it is a list of nodes: characters and elements (`Markup.ofText?`).

A text that spells nodes does so wherever it stands between tags (`Markup.Spells`), so spelling is
kept by what markup is put together with: texts one after the other, and a text between the tags of
an element. Text that spells nodes is properly nested and is read as these nodes
(`Spells.ofText?_eq`).
-/

namespace Kconfig.Markup

/-- A node of markup. -/
inductive Node where
  | char (c : Char)
  | element (tag : Tag) (content : List Node)

mutual

/-- The tokens of a node. -/
def Node.tokens : Node → List Token
  | .char c => [.char c]
  | .element tag content => .opening tag :: nodesTokens content ++ [.closing tag.name]

/-- The tokens of nodes. -/
def nodesTokens : List Node → List Token
  | [] => []
  | node :: nodes => node.tokens ++ nodesTokens nodes

end

/-- Characters as nodes. -/
def charNodes (s : String) : List Node :=
  s.toList.map .char

/-- The tokens of nodes in a row are those of the first, then those of the others. -/
theorem nodesTokens_append (a b : List Node) :
    nodesTokens (a ++ b) = nodesTokens a ++ nodesTokens b := by
  induction a with
  | nil => rfl
  | cons node a ih => rw [List.cons_append, nodesTokens, nodesTokens, ih, List.append_assoc]

mutual

/-- The tags of a node, in the order in which they are opened. -/
def Node.tags : Node → List Tag
  | .char _ => []
  | .element tag content => tag :: nodesTags content

/-- The tags of nodes. -/
def nodesTags : List Node → List Tag
  | [] => []
  | node :: nodes => node.tags ++ nodesTags nodes

end

/-- The tags of nodes in a row are those of the first, then those of the others. -/
theorem nodesTags_append (a b : List Node) : nodesTags (a ++ b) = nodesTags a ++ nodesTags b := by
  induction a with
  | nil => rfl
  | cons node a ih => rw [List.cons_append, nodesTags, nodesTags, ih, List.append_assoc]

/-- Characters have no tags. -/
theorem nodesTags_charNodes (s : String) : nodesTags (charNodes s) = [] := by
  unfold charNodes
  induction s.toList with
  | nil => rfl
  | cons c cs ih => exact ih

/-- The nodes of a text are those of its parts. -/
theorem charNodes_append (s t : String) : charNodes (s ++ t) = charNodes s ++ charNodes t := by
  rw [charNodes, String.toList_append, List.map_append, charNodes, charNodes]

/-- The tokens of characters are the characters. -/
theorem nodesTokens_charNodes (s : String) :
    nodesTokens (charNodes s) = s.toList.map .char := by
  unfold charNodes
  induction s.toList with
  | nil => rfl
  | cons c cs ih =>
    rw [List.map_cons, nodesTokens, ih]
    rfl

/-! ## Nesting -/

/-- Makes nodes of tokens. `opened` are the tags that are open, the innermost first, each with the
nodes before it, and `done` are the nodes after the last of them, the latest first. -/
def nest (opened : List (Tag × List Node)) (done : List Node) : List Token → Option (List Node)
  | [] => if opened.isEmpty then some done.reverse else none
  | .char c :: tokens => nest opened (.char c :: done) tokens
  | .opening tag :: tokens => nest ((tag, done) :: opened) [] tokens
  | .closing name :: tokens =>
    match opened with
    | [] => none
    | (tag, before) :: opened =>
      if tag.name = name then nest opened (.element tag done.reverse :: before) tokens else none

mutual

/-- The tokens of a node are put together as the node, in front of whatever comes next. -/
theorem nest_tokens : ∀ (node : Node) (opened : List (Tag × List Node)) (done : List Node)
    (rest : List Token), nest opened done (node.tokens ++ rest) = nest opened (node :: done) rest
  | .char c, opened, done, rest => rfl
  | .element tag content, opened, done, rest => by
    have hcontent := nest_nodesTokens content ((tag, done) :: opened) [] (.closing tag.name :: rest)
    rw [Node.tokens, List.cons_append, List.cons_append, List.append_assoc, nest,
      List.singleton_append, hcontent, nest, if_pos rfl, List.append_nil, List.reverse_reverse]

/-- The tokens of nodes make these nodes, inside any elements and after any nodes. -/
theorem nest_nodesTokens : ∀ (nodes : List Node) (opened : List (Tag × List Node))
    (done : List Node) (rest : List Token),
    nest opened done (nodesTokens nodes ++ rest) = nest opened (nodes.reverse ++ done) rest
  | [], opened, done, rest => rfl
  | node :: nodes, opened, done, rest => by
    rw [nodesTokens, List.append_assoc, nest_tokens node, nest_nodesTokens nodes,
      List.reverse_cons, List.append_assoc, List.singleton_append]

end

/-- The nodes of a text that is properly nested. -/
def ofText? (text : String) : Option (List Node) :=
  (tokens? text).bind (nest [] [])

example : ofText? "<a x=\"1\">&lt;</a>" = some [.element ⟨"a", [("x", "1")]⟩ [.char '<']] := rfl

/-- Elements that are closed in the order in which they were opened are not nested. -/
example : ofText? "<a><b></a></b>" = none := rfl

/-! ## Texts and the nodes that they spell -/

/-- Whether a text spells nodes, wherever it stands between tags. -/
def Spells (text : String) (nodes : List Node) : Prop :=
  ∀ done, Scanner.run ⟨.text, done⟩ text.toList =
    some ⟨.text, (nodesTokens nodes).reverse ++ done⟩

namespace Spells

variable {text text' : String} {nodes nodes' : List Node}

/-- A text that spells nodes is properly nested, and they are its nodes. -/
theorem ofText?_eq (h : Spells text nodes) : ofText? text = some nodes := by
  have htokens : tokens? text = some (nodesTokens nodes) := by
    rw [tokens?, h [], Option.bind_some, List.append_nil]
    exact congrArg some (List.reverse_reverse _)
  rw [ofText?, htokens, Option.bind_some, ← List.append_nil (nodesTokens nodes), nest_nodesTokens]
  simp [nest]

/-- The empty text spells no nodes. -/
theorem nil : Spells "" [] := fun _ => rfl

/-- Texts in a row spell the nodes of each. -/
theorem append (h : Spells text nodes) (h' : Spells text' nodes') :
    Spells (text ++ text') (nodes ++ nodes') := by
  intro done
  rw [String.toList_append, Scanner.run_append, h done, Option.bind_some, h', nodesTokens_append,
    List.reverse_append, List.append_assoc]

/-- The end of a line spells itself. -/
theorem newline : Spells "\n" [.char '\n'] := fun _ => rfl

/-- Characters that start nothing spell themselves. -/
theorem chars (hopen : '<' ∉ text.toList) (hamp : '&' ∉ text.toList) :
    Spells text (charNodes text) := by
  intro done
  rw [Scanner.run_chars hopen hamp, nodesTokens_charNodes]

/-- So do the characters of a section, if they do not hold its end. -/
theorem cdata (h : ¬ "]]>".toList <:+: text.toList) :
    Spells ("<![CDATA[" ++ text ++ "]]>") (charNodes text) := by
  intro done
  have hstart : Scanner.run ⟨.text, done⟩ "<![CDATA[".toList = some ⟨.cdata 0, done⟩ := rfl
  have hsection : Scanner.run ⟨.cdata 0, done⟩ (text.toList ++ "]]>".toList) =
      some ⟨.text, (text.toList.map .char).reverse ++ done⟩ :=
    Scanner.run_cdata (Nat.zero_le 2) h done
  rw [String.toList_append, String.toList_append, List.append_assoc, Scanner.run_append, hstart,
    Option.bind_some, hsection, nodesTokens_charNodes]

/-- A text between the tags of an element spells the element. -/
theorem element {tag : Tag} (htag : tag.IsPlain) (h : Spells text nodes) :
    Spells ("<" ++ tag.text ++ ">" ++ text ++ "</" ++ tag.name ++ ">") [.element tag nodes] := by
  intro done
  have hopening := Scanner.run_brackets (htag.not_mem_text rfl (by decide))
    (htag.not_mem_text rfl (by decide)) (htag.not_mem_text rfl (by decide))
    (Token.ofChars?_text htag) done
  have hclosing : ∀ done, Scanner.run ⟨.text, done⟩ ('<' :: ('/' :: tag.name.toList) ++ ['>']) =
      some ⟨.text, .closing tag.name :: done⟩ := by
    intro done
    have hslash : ∀ c, c.isAlphanum = false → c ≠ '/' → c ∉ '/' :: tag.name.toList := by
      intro c hc hne
      rw [List.mem_cons, not_or]
      exact ⟨hne, htag.name.not_mem hc⟩
    exact Scanner.run_brackets (hslash _ rfl (by decide)) (hslash _ rfl (by decide))
      (hslash _ rfl (by decide)) (Token.ofChars?_slash tag.name) done
  have htext : ("<" ++ tag.text ++ ">" ++ text ++ "</" ++ tag.name ++ ">").toList =
      ('<' :: tag.text.toList ++ ['>']) ++ (text.toList ++
        ('<' :: ('/' :: tag.name.toList) ++ ['>'])) := by
    simp
  rw [htext, Scanner.run_append, hopening, Option.bind_some, Scanner.run_append, h,
    Option.bind_some, hclosing]
  simp [nodesTokens, Node.tokens]

end Spells

end Kconfig.Markup
