import Kconfig.Proofs.Text.Parts

/-!
# The tokens of markup

Markup is text with tags in it. Outside of tags `&` starts an entity, which stands for one
character, and `<` starts a tag, which runs to the next `>`. Between `<![CDATA[` and the first `]]>`
after it all characters stand for themselves.

The scanner takes one character at a time. A tag is cut up when it is complete: first its name, and
then attributes, with their values in quotes.
-/

namespace Kconfig.Markup

/-! ## Tags -/

/-- An opening tag: its name and its attributes, each with its value. -/
structure Tag where
  name : String
  attributes : List (String × String) := []
deriving DecidableEq

/-- Whether a text is made of letters and digits. -/
def IsWord (s : String) : Prop :=
  ∀ c ∈ s.toList, c.isAlphanum

instance (s : String) : Decidable (IsWord s) :=
  decidable_of_iff (s.toList.all Char.isAlphanum) List.all_eq_true

/-- A word has letters and digits only. -/
theorem IsWord.not_mem {s : String} (h : IsWord s) {c : Char} (hc : c.isAlphanum = false) :
    c ∉ s.toList := by
  intro hmem
  rw [h c hmem] at hc
  cases hc

namespace Tag

/-- An attribute as it is written. -/
def attributeText (a : String × String) : String :=
  " " ++ a.1 ++ "=\"" ++ a.2 ++ "\""

/-- What stands between the angle brackets of a tag. -/
def text (tag : Tag) : String :=
  tag.name ++ String.join (tag.attributes.map attributeText)

/-- The name of an attribute, from what stands before its value. -/
def key? : List Char → Option String
  | ' ' :: cs => if cs.getLast? = some '=' then some (String.ofList cs.dropLast) else none
  | _ => none

/-- Attributes, from the parts of a text between quotes. Names and values take turns. -/
def attributes? : List (List Char) → Option (List (String × String))
  | [[]] => some []
  | before :: value :: parts => do
    return (← key? before, String.ofList value) :: (← attributes? parts)
  | _ => none

/-- An opening tag, from what stands between its angle brackets. -/
def ofChars? (cs : List Char) : Option Tag :=
  (attributes? (Text.splitAt '"' (cs.dropWhile (· ≠ ' ')))).map fun attributes =>
    ⟨String.ofList (cs.takeWhile (· ≠ ' ')), attributes⟩

/-- Whether a tag is made of words. -/
structure IsPlain (tag : Tag) : Prop where
  name : IsWord tag.name
  attributes : ∀ a ∈ tag.attributes, IsWord a.1 ∧ IsWord a.2

/-- A key is found between the blank before it and the sign behind it. -/
theorem key?_text (key : String) : key? (" " ++ key ++ "=").toList = some key := by
  simp [key?]

/-- Attributes that are words are read back. -/
theorem attributes?_text {attributes : List (String × String)}
    (h : ∀ a ∈ attributes, IsWord a.1 ∧ IsWord a.2) :
    attributes? (Text.splitAt '"' (String.join (attributes.map attributeText)).toList) =
      some attributes := by
  induction attributes with
  | nil => rfl
  | cons a attributes ih =>
    obtain ⟨⟨hkey, hvalue⟩, hrest⟩ := List.forall_mem_cons.mp h
    have hbefore : '"' ∉ (" " ++ a.1 ++ "=").toList := by
      simpa using hkey.not_mem (c := '"') rfl
    have htext : (String.join ((a :: attributes).map attributeText)).toList =
        (" " ++ a.1 ++ "=").toList ++ '"' :: (a.2.toList ++ '"' ::
          (String.join (attributes.map attributeText)).toList) := by
      simp [attributeText]
    rw [htext, Text.splitAt_append hbefore, Text.splitAt_append (hvalue.not_mem rfl)]
    simp only [attributes?, key?_text, ih hrest, String.ofList_toList]
    rfl

/-- A tag made of words is read back. -/
theorem ofChars?_text {tag : Tag} (h : tag.IsPlain) : ofChars? tag.text.toList = some tag := by
  have hname : ∀ c ∈ tag.name.toList, decide (c ≠ ' ') = true := by
    intro c hc
    rw [decide_eq_true_iff]
    rintro rfl
    exact h.name.not_mem rfl hc
  have hattributes := attributes?_text h.attributes
  have hblank : ∀ attributes : List (String × String),
      ((String.join (attributes.map attributeText)).toList.takeWhile (· ≠ ' ') = []) ∧
        (String.join (attributes.map attributeText)).toList.dropWhile (· ≠ ' ') =
          (String.join (attributes.map attributeText)).toList := by
    intro attributes
    cases attributes <;> simp [attributeText]
  unfold ofChars? text
  rw [String.toList_append, List.takeWhile_append_of_pos hname, List.dropWhile_append_of_pos hname,
    (hblank _).1, (hblank _).2, hattributes, List.append_nil, String.ofList_toList]
  rfl

/-- A tag made of words has no other characters in it but those around values. -/
theorem IsPlain.not_mem_text {tag : Tag} (h : tag.IsPlain) {c : Char} (hc : c.isAlphanum = false)
    (hsigns : c ∉ [' ', '=', '"']) : c ∉ tag.text.toList := by
  have hattributes : ∀ a ∈ tag.attributes, c ∉ (attributeText a).toList := by
    intro a ha
    have hkey := (h.attributes a ha).1.not_mem hc
    have hvalue := (h.attributes a ha).2.not_mem hc
    simp only [List.mem_cons, List.not_mem_nil, or_false, not_or] at hsigns
    simp [attributeText, hkey, hvalue, hsigns]
  rw [text, String.toList_append, String.toList_join, List.mem_append, not_or, List.mem_flatMap]
  refine ⟨h.name.not_mem hc, ?_⟩
  rintro ⟨s, hs, hmem⟩
  obtain ⟨a, ha, rfl⟩ := List.mem_map.mp hs
  exact hattributes a ha hmem

end Tag

/-! ## Tokens -/

/-- A token of markup. -/
inductive Token where
  | opening (tag : Tag)
  | closing (name : String)
  /-- A character of the text between tags. -/
  | char (c : Char)
deriving DecidableEq

/-- A tag, from what stands between its angle brackets. -/
def Token.ofChars? : List Char → Option Token
  | '/' :: name => some (.closing (String.ofList name))
  | cs => (Tag.ofChars? cs).map .opening

/-- The text of a plain tag is read as the tag that it opens. -/
theorem Token.ofChars?_text {tag : Tag} (h : tag.IsPlain) :
    Token.ofChars? tag.text.toList = some (.opening tag) := by
  have hslash : '/' ∉ tag.text.toList := h.not_mem_text rfl (by decide)
  unfold ofChars?
  split
  · next name heq =>
    rw [heq] at hslash
    exact absurd List.mem_cons_self hslash
  · rw [Tag.ofChars?_text h]
    rfl

/-- A name behind a slash is read as the tag that it closes. -/
theorem Token.ofChars?_slash (name : String) :
    Token.ofChars? ('/' :: name.toList) = some (.closing name) := by
  rw [ofChars?, String.ofList_toList]

/-- The character that an entity stands for. -/
def entity? : String → Option Char
  | "amp" => some '&'
  | "lt" => some '<'
  | "gt" => some '>'
  | "quot" => some '"'
  | "apos" => some '\''
  | _ => none

/-! ## The scanner -/

/-- What the scanner is in the middle of. -/
inductive Mode where
  | text
  /-- An entity, the latest character first. -/
  | entity (chars : List Char)
  /-- A tag, the latest character first. -/
  | tag (chars : List Char)
  /-- A section in which all characters stand for themselves. The latest characters may be the
  first of its end: this many brackets, at most two. -/
  | cdata (brackets : Nat)

/-- The state of the scanner. -/
structure Scanner where
  mode : Mode := .text
  /-- The complete tokens, the latest first. -/
  done : List Token := []

namespace Scanner

/-- One character. -/
def step : Scanner → Char → Option Scanner
  | ⟨.text, done⟩, c =>
    if c = '<' then some ⟨.tag [], done⟩
    else if c = '&' then some ⟨.entity [], done⟩
    else some ⟨.text, .char c :: done⟩
  | ⟨.entity chars, done⟩, c =>
    if c = ';' then
      (entity? (String.ofList chars.reverse)).map fun c => ⟨.text, .char c :: done⟩
    else some ⟨.entity (c :: chars), done⟩
  | ⟨.tag chars, done⟩, c =>
    if c = '>' then (Token.ofChars? chars.reverse).map fun t => ⟨.text, t :: done⟩
    else if c = '<' then none
    else if c = '[' ∧ chars.reverse = "![CDATA".toList then some ⟨.cdata 0, done⟩
    else some ⟨.tag (c :: chars), done⟩
  | ⟨.cdata brackets, done⟩, c =>
    if c = ']' then
      if brackets < 2 then some ⟨.cdata (brackets + 1), done⟩
      else some ⟨.cdata 2, .char ']' :: done⟩
    else if c = '>' ∧ brackets = 2 then some ⟨.text, done⟩
    else some ⟨.cdata 0, .char c :: (List.replicate brackets (.char ']') ++ done)⟩

/-- All the characters of a text. -/
def run (s : Scanner) (text : List Char) : Option Scanner :=
  text.foldlM step s

/-- Where no text is left, the scanner stays as it is. -/
@[simp] theorem run_nil (s : Scanner) : run s [] = some s := rfl

/-- A character is scanned by one step, and the text behind it from there. -/
@[simp] theorem run_cons (s : Scanner) (c : Char) (text : List Char) :
    run s (c :: text) = (step s c).bind fun s' => run s' text := rfl

/-- A text is scanned through its parts. -/
theorem run_append (s : Scanner) (a b : List Char) :
    run s (a ++ b) = (run s a).bind fun s' => run s' b := by
  simp only [run, List.foldlM_append]
  rfl

/-- Characters that start nothing stand for themselves. -/
theorem run_chars {text : List Char} (hopen : '<' ∉ text) (hamp : '&' ∉ text)
    (done : List Token) :
    run ⟨.text, done⟩ text = some ⟨.text, (text.map .char).reverse ++ done⟩ := by
  induction text generalizing done with
  | nil => rfl
  | cons c text ih =>
    rw [List.mem_cons, not_or] at hopen hamp
    rw [run_cons, step, if_neg (Ne.symm hopen.1), if_neg (Ne.symm hamp.1), Option.bind_some,
      ih hopen.2 hamp.2]
    simp

/-- Inside a tag, all characters but brackets go on with it. -/
theorem run_tag {text : List Char} (hopen : '<' ∉ text) (hclose : '>' ∉ text)
    (hsection : '[' ∉ text) (chars : List Char) (done : List Token) :
    run ⟨.tag chars, done⟩ text = some ⟨.tag (text.reverse ++ chars), done⟩ := by
  induction text generalizing chars with
  | nil => rfl
  | cons c text ih =>
    rw [List.mem_cons, not_or] at hopen hclose hsection
    have hno : ¬ (c = '[' ∧ chars.reverse = "![CDATA".toList) :=
      fun h => hsection.1 h.1.symm
    rw [run_cons, step, if_neg (Ne.symm hclose.1), if_neg (Ne.symm hopen.1), if_neg hno,
      Option.bind_some, ih hopen.2 hclose.2 hsection.2]
    simp

/-- A tag between its brackets. -/
theorem run_brackets {text : List Char} (hopen : '<' ∉ text) (hclose : '>' ∉ text)
    (hsection : '[' ∉ text) {t : Token} (ht : Token.ofChars? text = some t) (done : List Token) :
    run ⟨.text, done⟩ ('<' :: text ++ ['>']) = some ⟨.text, t :: done⟩ := by
  have hstart : step ⟨.text, done⟩ '<' = some ⟨.tag [], done⟩ := rfl
  have hend : step ⟨.tag text.reverse, done⟩ '>' = some ⟨.text, t :: done⟩ := by
    simp [step, ht]
  rw [List.cons_append, run_cons, hstart, Option.bind_some, run_append,
    run_tag hopen hclose hsection, Option.bind_some, List.append_nil, run_cons, hend]
  rfl

/-- In a section, a text stands for itself up to the end of the section, if it does not hold that
end. The brackets that came before it turn out to be text as well. -/
theorem run_cdata {text : List Char} {brackets : Nat} (hb : brackets ≤ 2)
    (h : ¬ "]]>".toList <:+: List.replicate brackets ']' ++ text) (done : List Token) :
    run ⟨.cdata brackets, done⟩ (text ++ "]]>".toList) =
      some ⟨.text, (text.map .char).reverse ++ (List.replicate brackets (.char ']') ++ done)⟩ := by
  -- what does not occur in a text does not occur in the rest of it
  have hshorter : ∀ before after : List Char,
      ¬ "]]>".toList <:+: before ++ after → ¬ "]]>".toList <:+: after :=
    fun _ _ hno hend => hno (hend.trans (List.suffix_append _ _).isInfix)
  induction text generalizing brackets done with
  | nil =>
    obtain rfl | rfl | rfl : brackets = 0 ∨ brackets = 1 ∨ brackets = 2 := by omega
    · rfl
    · rfl
    · rfl
  | cons c text ih =>
    rw [List.cons_append, run_cons, step]
    by_cases hc : c = ']'
    · subst hc
      have hmore : ¬ "]]>".toList <:+: List.replicate (brackets + 1) ']' ++ text := by
        rwa [List.replicate_succ', List.append_assoc]
      rw [if_pos rfl]
      by_cases hlt : brackets < 2
      · rw [if_pos hlt, Option.bind_some, ih hlt hmore]
        simp [List.replicate_succ]
      -- a third bracket in a row: the first is text, and the other two may begin the end
      · obtain rfl : brackets = 2 := by omega
        rw [if_neg hlt, Option.bind_some, ih (Nat.le_refl 2) (hshorter [']'] _ hmore)]
        simp [List.replicate]
    · have hend : ¬ (c = '>' ∧ brackets = 2) := by
        rintro ⟨rfl, rfl⟩
        exact h (List.prefix_append "]]>".toList text).isInfix
      have hrest : ¬ "]]>".toList <:+: List.replicate 0 ']' ++ text :=
        hshorter (List.replicate brackets ']' ++ [c]) _ (by simpa using h)
      rw [if_neg hc, if_neg hend, Option.bind_some, ih (Nat.zero_le 2) hrest]
      simp

end Scanner

/-- The tokens of a text. -/
def tokens? (text : String) : Option (List Token) :=
  (Scanner.run {} text.toList).bind fun
    | ⟨.text, done⟩ => some done.reverse
    | _ => none

end Kconfig.Markup
