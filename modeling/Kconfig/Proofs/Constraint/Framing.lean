import Kconfig.Proofs.Condition.Plain
import Kconfig.Proofs.Constraint.Declaration
import Kconfig.Proofs.Constraint.Lines

/-!
# Records can be told apart

Who reads the encoding cuts it into lines, and the line of a default or of a choice at the bar and
at the blanks before it, wherever they stand outside quotes. `Constraint.readDefault?` and
`Constraint.readChoice?` are such readers: there must be exactly one bar, a parenthesis must follow
it, and the one that closes this parenthesis must be the end of the line.

Where the names of the model are fit for it (`Model.NamesFit`), every record is a line of its own,
and these readers find in it what was put there: of a default the option, the value and the
condition, of a choice the members and the condition (`Constraint.records_framed`).
-/

namespace Kconfig

open Text (Item Spells items? unread)

namespace Printer

variable {p : Printer} {breaks : LineBreaks}

/-- The items of an expression. -/
def exprItems (p : Printer) (e : Expr) : List Item :=
  (p.dialect.layout none e).flatMap p.tokenItems

/-- The items of a condition. -/
def conditionItems (p : Printer) (e : Option Expr) : List Item :=
  (e.map p.exprItems).getD (Item.chars "1")

/-- A condition is plain if the names of the model fit. -/
theorem plain_conditionText (hp : p.dialect = .logic)
    (hfit : p.model.NamesFit p.namePrefix breaks) (e : Option Expr) :
    Plain breaks (p.conditionText e) (p.conditionItems e) := by
  rcases e with _ | e
  · exact Plain.sign (a := "1") (by decide)
  · exact plain_layout hp hfit none e

/-- The text of a reference by itself has no blank outside quotes. -/
theorem blank_not_mem_symbolItems (hp : p.dialect = .logic)
    (hfit : p.model.NamesFit p.namePrefix breaks) (sym : SymbolRef) :
    Item.char ' ' ∉ p.tokenItems (.operand .plain sym) := by
  have hclassFits := hfit.classOf sym
  simp only [tokenItems, Model.value?]
  cases hclass : p.model.classOf sym with
  | truth b =>
    have hdigit : ∀ b, Item.char ' ' ∉ Item.chars (p.className .plain (.truth b)) := by
      intro b
      cases b with
      | true => exact (by decide : Item.char ' ' ∉ Item.chars "1")
      | false => exact (by decide : Item.char ' ' ∉ Item.chars "0")
    exact hdigit b
  | value name => simp
  | option name =>
    rw [hclass] at hclassFits
    intro hmem
    obtain ⟨c, hc, hblank⟩ := Item.mem_chars_iff.mp hmem
    rw [className_option hp] at hc
    exact (isWordChar_identifier hfit.namePrefix hclassFits c hc).2 (Item.char.inj hblank)

end Printer

/-! ## Reading a record -/

namespace Constraint

/-- A record with a bar: what stands before the bar, and the condition after it. -/
structure Frame where
  head : List Item
  guard : List Item

/-- The parts of a line with exactly one bar outside quotes, which is followed at once by a
parenthesis that is closed at the end of the line. -/
def frame? (line : String) : Option Frame :=
  (items? line).bind fun items =>
    match items.splitOn (.char '|') with
    | [head, .char '(' :: rest] =>
      match Item.closing? 0 rest with
      | some (guard, []) => some ⟨head, guard⟩
      | _ => none
    | _ => none

/-- The first word, the option, the value and the condition of a default. -/
def readDefault? (line : String) : Option (String × String × String × String) :=
  (frame? line).bind fun frame =>
    match frame.head.splitOn (.char ' ') with
    | word :: option :: value =>
      some (unread word, unread option, unread ([.char ' '].intercalate value), unread frame.guard)
    | _ => none

/-- The first word of a choice and its members, and the condition. -/
def readChoice? (line : String) : Option (List String × String) :=
  (frame? line).map fun frame =>
    ((frame.head.splitOn (.char ' ')).map unread, unread frame.guard)

variable {breaks : LineBreaks} {head guard : String} {hs gs : List Item}

/-- A text in front of a guard is framed by the bar and the parentheses, if both parts are plain. -/
theorem frame?_of_plain (hhead : Plain breaks head hs) (hguard : Plain breaks guard gs) :
    frame? (head ++ "|(" ++ guard ++ ")") = some ⟨hs, gs⟩ := by
  have hspells : Spells (head ++ "|(" ++ guard ++ ")")
      (hs ++ Item.chars "|(" ++ gs ++ Item.chars ")") :=
    ((hhead.spells.append (Spells.chars (by decide))).append hguard.spells).append
      (Spells.chars (by decide))
  have hitems : hs ++ Item.chars "|(" ++ gs ++ Item.chars ")" =
      hs ++ .char '|' :: (.char '(' :: (gs ++ [.char ')'])) := by
    simp [Item.chars]
  have hrest : Item.char '|' ∉ Item.char '(' :: (gs ++ [.char ')']) := by
    simp [hguard.noBar]
  rw [frame?, hspells.items?, hitems, Option.bind_some,
    List.splitOn_append_cons_self_of_not_mem hhead.noBar, List.splitOn_eq_singleton hrest]
  simp only [hguard.balanced.closing? []]

/-- The members of a choice, each after a blank. -/
theorem plain_members {α : Type} (as : List α) {f : α → String} {items : α → List Item}
    (h : ∀ a, Plain breaks (f a) (items a)) :
    Plain breaks (String.join ((as.map f).map (" " ++ ·)))
      ((as.map items).flatMap (.char ' ' :: ·)) := by
  induction as with
  | nil => exact Plain.nil
  | cons a as ih =>
    have hblank : Plain breaks " " (Item.chars " ") := Plain.sign (by decide)
    have hmember := (hblank.append (h a)).append ih
    simpa [Item.chars] using hmember

/-- Between blanks outside quotes, the parts have no others. -/
theorem splitOn_blank {part : List Item} {parts : List (List Item)}
    (hpart : Item.char ' ' ∉ part) (hparts : ∀ part ∈ parts, Item.char ' ' ∉ part) :
    (part ++ parts.flatMap (.char ' ' :: ·)).splitOn (.char ' ') = part :: parts := by
  induction parts generalizing part with
  | nil => rw [List.flatMap_nil, List.append_nil, List.splitOn_eq_singleton hpart]
  | cons next parts ih =>
    rw [List.forall_mem_cons] at hparts
    rw [List.flatMap_cons, List.cons_append, List.splitOn_append_cons_self_of_not_mem hpart,
      ih hparts.1 hparts.2]

/-- A default is read as its words and what was written for the value and the condition. -/
theorem readDefault?_of_plain {word option value : String} {vs : List Item}
    (hword : ∀ c ∈ word.toList, breaks.IsWordChar c)
    (hoption : ∀ c ∈ option.toList, breaks.IsWordChar c) (hvalue : Plain breaks value vs)
    (hguard : Plain breaks guard gs) :
    readDefault? (word ++ " " ++ option ++ " " ++ value ++ "|(" ++ guard ++ ")") =
      some (word, option, value, guard) := by
  obtain ⟨hwordPlain, hwordBlank⟩ := Plain.word hword
  obtain ⟨hoptionPlain, hoptionBlank⟩ := Plain.word hoption
  have hblank : Plain breaks " " (Item.chars " ") := Plain.sign (by decide)
  have hhead := (((hwordPlain.append hblank).append hoptionPlain).append hblank).append hvalue
  have hsplit : (Item.chars word ++ Item.chars " " ++ Item.chars option ++ Item.chars " " ++
      vs).splitOn (.char ' ') = Item.chars word :: Item.chars option :: vs.splitOn (.char ' ') := by
    have hparts : Item.chars word ++ Item.chars " " ++ Item.chars option ++ Item.chars " " ++ vs =
        Item.chars word ++ .char ' ' :: (Item.chars option ++ .char ' ' :: vs) := by
      simp [Item.chars]
    rw [hparts, List.splitOn_append_cons_self_of_not_mem hwordBlank,
      List.splitOn_append_cons_self_of_not_mem hoptionBlank]
  rw [readDefault?, frame?_of_plain hhead hguard, Option.bind_some]
  simp only [hsplit, List.intercalate_splitOn, hwordPlain.unread, hoptionPlain.unread,
    hvalue.unread, hguard.unread]

example : readDefault? "def_bool A \"|(\" or B|((C) and D==\")\")" =
    some ("def_bool", "A", "\"|(\" or B", "(C) and D==\")\"") := by
  decide +kernel

/-- A choice is read as its first word, what was written for its members, and its condition. -/
theorem readChoice?_of_plain {α : Type} {word : String} {as : List α} {f : α → String}
    {items : α → List Item} (hword : ∀ c ∈ word.toList, breaks.IsWordChar c)
    (hmembers : ∀ a, Plain breaks (f a) (items a) ∧ Item.char ' ' ∉ items a)
    (hguard : Plain breaks guard gs) :
    readChoice? (word ++ String.join ((as.map f).map (" " ++ ·)) ++ "|(" ++ guard ++ ")") =
      some (word :: as.map f, guard) := by
  obtain ⟨hwordPlain, hwordBlank⟩ := Plain.word hword
  have hhead := hwordPlain.append (plain_members as fun a => (hmembers a).1)
  have hsplit : (Item.chars word ++ (as.map items).flatMap (.char ' ' :: ·)).splitOn (.char ' ') =
      Item.chars word :: as.map items := by
    apply splitOn_blank hwordBlank
    rw [List.forall_mem_map]
    exact fun a _ => (hmembers a).2
  have hunread : (as.map items).map unread = as.map f := by
    rw [List.map_map]
    exact List.map_congr_left fun a _ => (hmembers a).1.unread
  rw [readChoice?, frame?_of_plain hhead hguard, Option.map_some]
  simp only [hsplit, List.map_cons, hunread, hwordPlain.unread, hguard.unread]

end Constraint

/-! ## Records -/

namespace Record

/-- Whether what is read from a line is what was written into it, for the records that have a
bar. -/
def ReadsFrom (p : Printer) (line : String) : Record → Prop
  | default name boolean value visible =>
    ∃ valueText guard, (p.render none value).ending = .ok valueText ∧
      (p.condition visible).ending = .ok guard ∧
      Constraint.readDefault? line =
        some (defaultWord boolean, identifier p.namePrefix name, valueText, guard)
  | choice _ tristate optional members visible _ =>
    ∃ memberTexts guard, (members.mapM (p.symbol .plain)).ending = .ok memberTexts ∧
      (p.condition visible).ending = .ok guard ∧
      Constraint.readChoice? line = some (choiceWord tristate optional :: memberTexts, guard)
  | _ => True

/-- Whether a line, without its end, can be told apart and read as a record. -/
structure IsFramed (p : Printer) (breaks : LineBreaks) (r : Record) (line : String) : Prop where
  oneLine : ∀ c ∈ line.toList, breaks.isBreak c = false
  balanced : ∃ items, items? line = some items ∧ Item.depth? 0 items = some 0
  reads : r.ReadsFrom p line

/-- A record is framed by a text that keeps to its line and is read back from it. -/
theorem IsFramed.of_inLine {p : Printer} {breaks : LineBreaks} {r : Record} {line : String}
    {is : List Item} (h : InLine breaks line is) (hreads : r.ReadsFrom p line) :
    r.IsFramed p breaks line :=
  ⟨h.oneLine, ⟨is, h.spells.items?, h.balanced 0⟩, hreads⟩

/-- Whether a record is one that the encoding has for a symbol: it is about the symbol's option, and
a declaration gives its type. -/
def IsOf (s : Symbol) (r : Record) : Prop :=
  (∀ name, r.subject? = some name → s.class = .option name) ∧
    ∀ name type, r = config name type → s.kind.constraintName = some type

variable {p : Printer} {breaks : LineBreaks}

/-- A condition in parentheses, after a blank. -/
theorem inLine_guarded {before guard : String} {is gs : List Item} (h : InLine breaks before is)
    (hguard : InLine breaks guard gs) :
    InLine breaks (before ++ " (" ++ guard ++ ")")
      (is ++ (Item.chars " " ++ ([.char '('] ++ gs ++ [.char ')']))) := by
  have hblank : Plain breaks " " (Item.chars " ") := Plain.sign (by decide)
  have htext : before ++ " (" ++ guard ++ ")" = before ++ (" " ++ ("(" ++ guard ++ ")")) := by
    simp [← String.toList_inj]
  rw [htext]
  exact h.append (hblank.toInLine.append hguard.parens)

/-- A condition in parentheses, after a bar. -/
theorem inLine_barred {head guard : String} {is gs : List Item} (h : InLine breaks head is)
    (hguard : InLine breaks guard gs) :
    InLine breaks (head ++ "|(" ++ guard ++ ")")
      (is ++ ([.char '|'] ++ ([.char '('] ++ gs ++ [.char ')']))) := by
  have htext : head ++ "|(" ++ guard ++ ")" = head ++ ("|" ++ ("(" ++ guard ++ ")")) := by
    simp [← String.toList_inj]
  rw [htext]
  exact h.append (InLine.bar.append hguard.parens)

/-- The words for types. -/
theorem plain_constraintName {kind : SymbolKind} {type : String}
    (h : kind.constraintName = some type) : Plain breaks type (Item.chars type) := by
  have htypes : ∀ type ∈ ["bool", "tristate", "number", "string"],
      type.toList.all LineBreaks.isSignChar := by decide
  apply Plain.sign
  apply htypes
  cases kind <;> cases h <;> decide

/-- A word and a name with a condition. -/
theorem exists_inLine_guarded (hp : p.dialect = .logic)
    (hfit : p.model.NamesFit p.namePrefix breaks) {word name : String}
    (hword : word.toList.all LineBreaks.isSignChar) (hname : ∀ c ∈ name.toList, breaks.IsWordChar c)
    (condition : Option Expr) :
    ∃ is, InLine breaks (word ++ name ++ " (" ++ p.conditionText condition ++ ")") is := by
  have hbefore := (Plain.sign hword).append (Plain.word hname).1
  have hguard := Printer.plain_conditionText hp hfit condition
  exact ⟨_, inLine_guarded hbefore.toInLine hguard.toInLine⟩

/-- The line of a record, up to its end. -/
theorem exists_isFramed (hp : p.dialect = .logic) (hfit : p.model.NamesFit p.namePrefix breaks)
    {r : Record} (hr : r.ResolvesIn p.model) {s : Symbol} (hs : s ∈ p.model.symbols)
    (hof : r.IsOf s) : ∃ line, r.lineText p = line ++ "\n" ∧ r.IsFramed p breaks line := by
  -- the option that a record is about is its symbol, whose name fits
  have hoption : ∀ name, r.subject? = some name →
      ∀ c ∈ (identifier p.namePrefix name).toList, breaks.IsWordChar c := by
    intro name hname
    have hfits := hfit.names s hs
    rw [hof.1 name hname] at hfits
    exact Printer.isWordChar_identifier hfit.namePrefix hfits
  have hcondition := Printer.plain_conditionText hp hfit
  have hblank : Plain breaks " " (Item.chars " ") := Plain.sign (by decide)
  cases r with
  | config name type =>
    have hword : Plain breaks "config " (Item.chars "config ") := Plain.sign (by decide)
    have hname := (Plain.word (hoption name rfl)).1
    have htype : Plain breaks type (Item.chars type) := plain_constraintName (hof.2 name type rfl)
    exact ⟨_, rfl, .of_inLine (((hword.append hname).append hblank).append htype).toInLine trivial⟩
  | prompt name visible =>
    obtain ⟨_, hline⟩ := exists_inLine_guarded hp hfit
      (by decide : "prompt ".toList.all LineBreaks.isSignChar) (hoption name rfl) visible
    exact ⟨_, rfl, .of_inLine hline trivial⟩
  | dep name condition =>
    obtain ⟨_, hline⟩ := exists_inLine_guarded hp hfit
      (by decide : "dep ".toList.all LineBreaks.isSignChar) (hoption name rfl) condition
    exact ⟨_, rfl, .of_inLine hline trivial⟩
  | revDep name condition =>
    obtain ⟨_, hline⟩ := exists_inLine_guarded hp hfit
      (by decide : "rev_dep ".toList.all LineBreaks.isSignChar) (hoption name rfl) condition
    exact ⟨_, rfl, .of_inLine hline trivial⟩
  | select selected name visible =>
    have hword : Plain breaks "select " (Item.chars "select ") := Plain.sign (by decide)
    have hname := (Plain.word (hoption name rfl)).1
    have hbefore := ((hword.append (hcondition selected)).append hblank).append hname
    exact ⟨_, rfl, .of_inLine
      (inLine_guarded hbefore.toInLine (hcondition visible).toInLine) trivial⟩
  | default name boolean value visible =>
    have hword : ∀ c ∈ (defaultWord boolean).toList, breaks.IsWordChar c := by
      cases boolean <;> exact LineBreaks.isWordChar (by decide)
    have hvalue := Printer.plain_layout hp hfit none value
    have hhead := ((((Plain.word hword).1.append hblank).append
      (Plain.word (hoption name rfl)).1).append hblank).append hvalue
    refine ⟨_, rfl, .of_inLine (inLine_barred hhead.toInLine (hcondition visible).toInLine)
      ⟨p.exprText value, p.conditionText visible, Printer.ending_render hr.1,
        Printer.ending_condition hr.2, ?_⟩⟩
    exact Constraint.readDefault?_of_plain hword (hoption name rfl) hvalue (hcondition visible)
  | choice id tristate optional members visible morePrompts =>
    have hword : ∀ c ∈ (choiceWord tristate optional).toList, breaks.IsWordChar c := by
      cases tristate <;> cases optional <;> exact LineBreaks.isWordChar (by decide)
    have hmember : ∀ sym, Plain breaks (p.symbolText sym) (p.tokenItems (.operand .plain sym)) ∧
        Item.char ' ' ∉ p.tokenItems (.operand .plain sym) := by
      intro sym
      exact ⟨Printer.plain_operand hp hfit .plain sym,
        Printer.blank_not_mem_symbolItems hp hfit sym⟩
    have hhead := (Plain.word hword).1.append
      (Constraint.plain_members members fun sym => (hmember sym).1)
    refine ⟨_, rfl, .of_inLine (inLine_barred hhead.toInLine (hcondition visible).toInLine)
      ⟨members.map p.symbolText, p.conditionText visible, Printer.ending_symbols hr.1,
        Printer.ending_condition hr.2, ?_⟩⟩
    exact Constraint.readChoice?_of_plain hword hmember (hcondition visible)

end Record

namespace Constraint

variable {m : Model} {settings : Settings}

/-- Every record that is written is one of its symbol. -/
theorem exists_isOf_of_mem_records {x : SymbolId × Record} (hx : x ∈ records m settings) :
    ∃ s ∈ m.symbols, x.2.IsOf s := by
  rw [records_eq, List.mem_append] at hx
  rcases hx with hx | hx
  · obtain ⟨s, hs, hr⟩ := mem_declared_iff.mp hx
    refine ⟨s, Model.mem_symbols_of_symbol? hs, ?_⟩
    by_cases hclass : ∃ name, s.class = .option name
    · obtain ⟨name, hclass⟩ := hclass
      obtain ⟨type, htype, hwritten⟩ := written_declarations hclass
      constructor
      · intro name' hname'
        have hsubject := (mem_written_declarations hclass hr).1
        obtain rfl : name = name' := Option.some.inj (hsubject.symm.trans hname')
        exact hclass
      · intro name' type' hconfig
        rw [hwritten, hconfig] at hr
        have hdeclaration : Record.config name' type' = .config name type := by
          simpa using hr
        rw [(Record.config.inj hdeclaration).2, htype]
    · rw [written_declarations_eq_nil (not_exists.mp hclass)] at hr
      cases hr
  · obtain ⟨s, hs, hrule, hsubject⟩ := mem_written_rulePlan hx
    refine ⟨s, Model.mem_symbols_of_symbol? hs, hsubject, ?_⟩
    intro name type hconfig
    rw [hconfig] at hrule
    cases hrule

/-- Lines that each end once are what a reader cuts the output into. -/
theorem splitOnP_lines {breaks : LineBreaks} {lines : List String}
    (h : ∀ line ∈ lines, ∀ c ∈ line.toList, breaks.isBreak c = false) :
    (String.join (lines.map (· ++ "\n"))).toList.splitOnP breaks.isBreak =
      lines.map String.toList ++ [[]] := by
  induction lines with
  | nil => rfl
  | cons line lines ih =>
    rw [List.forall_mem_cons] at h
    have htext : (String.join ((line :: lines).map (· ++ "\n"))).toList =
        line.toList ++ '\n' :: (String.join (lines.map (· ++ "\n"))).toList := by
      simp
    rw [htext, List.splitOnP_append_cons_of_forall_mem h.1 '\n' breaks.newline, ih h.2]
    rfl

/-- What is written of a checked model is a line for each record, and a reader who cuts the output
at the ends of lines finds exactly these. Each closes the parentheses outside quotes that it opens,
and none before it is opened. What is read from the line of a default or of a choice is what the
printer wrote for its parts. -/
theorem records_framed (h : m.validate = .ok ()) (settings : Settings) (breaks : LineBreaks)
    (hfit : m.NamesFit settings.namePrefix breaks) :
    ∃ lines : List String,
      (extract m settings).writes = lines.map (· ++ "\n") ∧
      (String.join (extract m settings).writes).toList.splitOnP breaks.isBreak =
        lines.map String.toList ++ [[]] ∧
      List.Forall₂ (fun x line =>
          (x.2.line (linePrinter m settings)).ending = .ok (line ++ "\n") ∧
            x.2.IsFramed (linePrinter m settings) breaks line)
        (records m settings) lines := by
  have hsound := Model.validate_eq_ok_iff.mp h
  have hrecord : ∀ x ∈ records m settings, ∃ line,
      x.2.lineText (linePrinter m settings) = line ++ "\n" ∧
        x.2.IsFramed (linePrinter m settings) breaks line := by
    intro x hx
    obtain ⟨s, hs, hof⟩ := exists_isOf_of_mem_records hx
    exact Record.exists_isFramed (p := linePrinter m settings) rfl hfit
      (records_resolve hsound settings x hx) hs hof
  -- the lines are those that the records are framed in
  choose! lineOf hline hframed using hrecord
  have hwrites : (extract m settings).writes =
      ((records m settings).map lineOf).map (· ++ "\n") := by
    rw [writes_eq_attributedLines hsound, attributedLines, List.map_map, List.map_map]
    exact List.map_congr_left hline
  refine ⟨(records m settings).map lineOf, hwrites, ?_, ?_⟩
  · rw [hwrites]
    apply splitOnP_lines
    rw [List.forall_mem_map]
    exact fun x hx => (hframed x hx).oneLine
  · rw [List.forall₂_map_right_iff, List.forall₂_same]
    intro x hx
    have hending := Record.ending_line (p := linePrinter m settings)
      (records_resolve hsound settings x hx)
    rw [hline x hx] at hending
    exact ⟨hending, hframed x hx⟩

/-- A model with a default and a choice that mention a value with blanks, a bar and unmatched
parentheses in it. -/
def barredValue : Model where
  symbols := #[
    { name := some "A", kind := .bool,
      properties := [
        { kind := .default,
          expr := some (.not (.compare .equal (.entry ⟨1⟩) (.entry ⟨2⟩))),
          visible := some (.or (.range (.entry ⟨2⟩) (.entry ⟨1⟩)) .unknown) }] },
    { name := some "N", kind := .int },
    { name := some ") |( or" },
    { kind := .bool, flags := .choice,
      properties := [
        { kind := .choice, expr := some (.listCons (.entry ⟨0⟩) (.listLast (.entry ⟨2⟩))) }] }]

/-- The records of `barredValue` are framed, each on its line, though its value has a bar, blanks
and parentheses in it. -/
theorem barredValue_framed :
    barredValue.validate = .ok () ∧ barredValue.NamesFit "CONFIG_" .newlines ∧
      ∃ lines : List String,
        (extract barredValue {}).writes = lines.map (· ++ "\n") ∧
        (String.join (extract barredValue {}).writes).toList.splitOnP LineBreaks.newlines.isBreak =
          lines.map String.toList ++ [[]] ∧
        List.Forall₂ (fun x line =>
            (x.2.line (linePrinter barredValue {})).ending = .ok (line ++ "\n") ∧
              x.2.IsFramed (linePrinter barredValue {}) .newlines line)
          (records barredValue {}) lines := by
  have hcheck : barredValue.validate = .ok () := by
    rw [Model.validate, Model.menus, Menu.descendants_eq_preorder]
    rfl
  have hfit : barredValue.NamesFit "CONFIG_" .newlines :=
    ⟨LineBreaks.isWordChar (by decide), by decide⟩
  exact ⟨hcheck, hfit, records_framed hcheck {} .newlines hfit⟩

end Constraint

end Kconfig
