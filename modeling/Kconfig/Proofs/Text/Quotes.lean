/-!
# Texts with quoted parts

Constraints show values in double quotes. Who reads them scans for the quotes: the first one opens a
quoted text, the next one closes it, and so on, with nothing that could be escaped. Such a reader
takes a text as its items, which are the characters outside quotes and the quoted texts
(`Text.items?`).

What a text is read as does not depend on what comes before it and after it, as long as it stands
outside quotes (`Text.Spells`). So a text that is put together is read as the items of its parts,
and reading loses nothing (`Text.unread_of_items?`). Parentheses count only outside quotes
(`Item.Balanced`).
-/

namespace Kconfig.Text

/-- A character outside quotes, or what stands between two of them. -/
inductive Item where
  | char (c : Char)
  | quoted (text : String)
deriving DecidableEq

namespace Item

/-- The text that an item is read from. -/
def text : Item → String
  | char c => String.singleton c
  | quoted s => "\"" ++ s ++ "\""

/-- What an item quotes. -/
def quotation? : Item → Option String
  | char _ => none
  | quoted s => some s

/-- The characters of a text, where they are outside quotes. -/
def chars (text : String) : List Item :=
  text.toList.map char

/-- The items of a text outside quotes are its characters. -/
theorem mem_chars_iff {text : String} {item : Item} :
    item ∈ chars text ↔ ∃ c ∈ text.toList, char c = item :=
  List.mem_map

/-- There is no quotation among characters outside quotes. -/
theorem filterMap_quotation?_chars (text : String) : (chars text).filterMap quotation? = [] := by
  rw [chars, List.filterMap_map]
  exact List.filterMap_eq_nil_iff.mpr fun _ _ => rfl

end Item

open Item

/-- The items of a text. Within quotes, the characters after the opening one are kept, the latest
first. -/
def scan : Option (List Char) → List Char → Option (List Item)
  | none, [] => some []
  | some _, [] => none
  | none, c :: cs => if c = '"' then scan (some []) cs else (scan none cs).map (char c :: ·)
  | some inside, c :: cs =>
    if c = '"' then (scan none cs).map (quoted (String.ofList inside.reverse) :: ·)
    else scan (some (c :: inside)) cs

/-- The items of a text, if every quote that opens is closed. -/
def items? (text : String) : Option (List Item) :=
  scan none text.toList

/-- Whether a text outside quotes is read as the given items, whatever comes after it. -/
def Spells (text : String) (items : List Item) : Prop :=
  ∀ rest, scan none (text.toList ++ rest) = (scan none rest).map (items ++ ·)

namespace Spells

variable {a b : String} {is js : List Item}

/-- The items that a text spells are the items of the text. -/
theorem items? (h : Spells a is) : items? a = some is := by
  have hall := h []
  rw [List.append_nil] at hall
  rw [Text.items?, hall, scan, Option.map_some, List.append_nil]

/-- The empty text spells nothing. -/
theorem empty : Spells "" [] := by
  intro rest
  simp

/-- Texts in a row spell the items of each. -/
theorem append (ha : Spells a is) (hb : Spells b js) : Spells (a ++ b) (is ++ js) := by
  intro rest
  rw [String.toList_append, List.append_assoc, ha, hb, Option.map_map]
  congr 1
  funext items
  simp

/-- What is put together from parts. -/
theorem join {α : Type} {f : α → String} {g : α → List Item} {as : List α}
    (h : ∀ a ∈ as, Spells (f a) (g a)) : Spells (String.join (as.map f)) (as.flatMap g) := by
  induction as with
  | nil => exact empty
  | cons a as ih =>
    rw [List.forall_mem_cons] at h
    rw [List.map_cons, String.join_cons, List.flatMap_cons]
    exact h.1.append (ih h.2)

/-- A text without quotes is read character by character. -/
theorem chars (h : '"' ∉ a.toList) : Spells a (chars a) := by
  intro rest
  unfold Item.chars
  generalize a.toList = cs at h
  induction cs with
  | nil => simp
  | cons c cs ih =>
    rw [List.mem_cons, not_or] at h
    have hc : ¬ c = '"' := Ne.symm h.1
    rw [List.cons_append, scan, if_neg hc, ih h.2, Option.map_map]
    rfl

/-- Within quotes, the characters up to the next quote are quoted. -/
theorem scan_inside {cs : List Char} (h : '"' ∉ cs) (inside rest : List Char) :
    scan (some inside) (cs ++ '"' :: rest) =
      (scan none rest).map (Item.quoted (String.ofList (inside.reverse ++ cs)) :: ·) := by
  induction cs generalizing inside with
  | nil => rw [List.nil_append, scan, if_pos rfl, List.append_nil]
  | cons c cs ih =>
    rw [List.mem_cons, not_or] at h
    have hc : ¬ c = '"' := Ne.symm h.1
    rw [List.cons_append, scan, if_neg hc, ih h.2, List.reverse_cons, List.append_assoc,
      List.singleton_append]

/-- A text without quotes, between quotes. -/
theorem quoted (h : '"' ∉ a.toList) : Spells ("\"" ++ a ++ "\"") [Item.quoted a] := by
  intro rest
  have htext : ("\"" ++ a ++ "\"").toList ++ rest = '"' :: (a.toList ++ '"' :: rest) := by simp
  rw [htext, scan, if_pos rfl, scan_inside h, List.reverse_nil, List.nil_append,
    String.ofList_toList]
  rfl

end Spells

/-! ## What is read from -/

/-- The text that items are read from. -/
def unread (items : List Item) : String :=
  String.join (items.map Item.text)

/-- Reading loses nothing: within quotes, the text goes on from the opening one. -/
theorem toList_unread_of_scan {inside : Option (List Char)} {cs : List Char} {items : List Item}
    (h : scan inside cs = some items) :
    (unread items).toList = (inside.elim [] fun inside => '"' :: inside.reverse) ++ cs := by
  induction cs generalizing inside items with
  | nil =>
    rcases inside with _ | inside
    · obtain rfl := Option.some.inj h
      rfl
    · cases h
  | cons c cs ih =>
    have hcons : ∀ item is,
        (unread (item :: is)).toList = item.text.toList ++ (unread is).toList := by
      intro item is
      simp [unread]
    rcases inside with _ | inside
    · rw [scan] at h
      split at h
      · next hc => rw [ih h, hc]; rfl
      · obtain ⟨is, his, rfl⟩ := Option.map_eq_some_iff.mp h
        rw [hcons, ih his]
        simp [Item.text]
    · rw [scan] at h
      split at h
      · next hc =>
        obtain ⟨is, his, rfl⟩ := Option.map_eq_some_iff.mp h
        rw [hcons, ih his, hc]
        simp [Item.text]
      · rw [ih h]
        simp

/-- The items of a text can be turned back into it. -/
theorem unread_of_items? {text : String} {items : List Item} (h : items? text = some items) :
    unread items = text := by
  apply String.toList_inj.mp
  exact toList_unread_of_scan h

/-! ## Parentheses -/

namespace Item

/-- How many parentheses are open after an item, where `depth` of them are before. None is closed
where none is open. -/
def turn? (depth : Nat) (item : Item) : Option Nat :=
  if item = char '(' then some (depth + 1)
  else if item = char ')' then if depth = 0 then none else some (depth - 1)
  else some depth

/-- How many parentheses are open after items. -/
def depth? (depth : Nat) (items : List Item) : Option Nat :=
  items.foldlM turn? depth

/-- What comes before the parenthesis that closes the one that was opened before the last `depth`,
and what comes after it. -/
def closing? : Nat → List Item → Option (List Item × List Item)
  | _, [] => none
  | depth, item :: is =>
    match turn? depth item with
    | none => some ([], is)
    | some depth' => (closing? depth' is).map fun (before, after) => (item :: before, after)

/-- Parentheses are counted through items in a row. -/
theorem depth?_append (depth : Nat) (is js : List Item) :
    depth? depth (is ++ js) = (depth? depth is).bind fun depth' => depth? depth' js :=
  List.foldlM_append

/-- The parenthesis that closes is looked for behind items that close none of those before. -/
theorem closing?_append {is : List Item} {depth depth' : Nat} (h : depth? depth is = some depth')
    (rest : List Item) :
    closing? depth (is ++ rest) =
      (closing? depth' rest).map fun (before, after) => (is ++ before, after) := by
  induction is generalizing depth with
  | nil =>
    obtain rfl := Option.some.inj h
    simp
  | cons item is ih =>
    rw [depth?, List.foldlM_cons] at h
    obtain ⟨next, hnext, hrest⟩ := Option.bind_eq_some_iff.mp h
    rw [List.cons_append, closing?, hnext]
    simp only [ih hrest, Option.map_map]
    rfl

/-- Whether items close exactly the parentheses that they open, each after it is opened. -/
def Balanced (items : List Item) : Prop :=
  ∀ depth, depth? depth items = some depth

namespace Balanced

variable {is js : List Item}

/-- Balanced items in a row are balanced. -/
theorem append (hi : Balanced is) (hj : Balanced js) : Balanced (is ++ js) := by
  intro depth
  rw [depth?_append, hi, Option.bind_some, hj]

/-- Items without parentheses are balanced. -/
theorem of_forall (h : ∀ item ∈ is, item ≠ char '(' ∧ item ≠ char ')') : Balanced is := by
  intro depth
  induction is with
  | nil => rfl
  | cons item is ih =>
    rw [List.forall_mem_cons] at h
    have hturn : turn? depth item = some depth := by
      rw [turn?, if_neg h.1.1, if_neg h.1.2]
    rw [depth?, List.foldlM_cons, hturn]
    exact ih h.2

/-- Balanced items between parentheses are balanced. -/
theorem parens (h : Balanced is) : Balanced ([char '('] ++ is ++ [char ')']) := by
  intro depth
  have hopen : depth? depth [char '('] = some (depth + 1) := rfl
  have hclose : depth? (depth + 1) [char ')'] = some depth := rfl
  rw [depth?_append, depth?_append, hopen, Option.bind_some, h, Option.bind_some, hclose]

/-- A parenthesis that is opened before balanced items is closed after them. -/
theorem closing? (h : Balanced is) (rest : List Item) :
    closing? 0 (is ++ char ')' :: rest) = some (is, rest) := by
  have hclose : Item.closing? 0 (char ')' :: rest) = some ([], rest) := rfl
  rw [closing?_append (h 0), hclose]
  simp

end Balanced

end Item

end Kconfig.Text
