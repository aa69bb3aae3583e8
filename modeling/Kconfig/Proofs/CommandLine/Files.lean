import Kconfig.CommandLine.Directory
import Kconfig.Proofs.CommandLine.OutputOption
import Kconfig.Proofs.Model.Closed

/-!
# What a command line does to files

A job is in two parts. All it reads, it reads first: the names to leave out, and the model. What
comes of that (`Directory.prepare`) is either an outcome, and then the job is over, or the run of
the action, which nothing can keep from being written any more but the output file itself. Only the
second part writes, and only to the output file (`perform`).

So a job that fails in its first part leaves every file as it is, and no job touches any file but
the one that its arguments name as the output (`Directory.runJob_frame`). And as the first part does
not depend on where the output goes, naming an output file changes where the bytes are in the end,
and nothing else (`Directory.runJob_insert_output`).
-/

namespace Kconfig

/-- What reading a model from the content of a file comes to. -/
theorem Model.load_ending (path : String) (content : Except ReadFault (List UInt8)) :
    (Model.load path content).ending =
      match Model.ofContent path content with
      | .ok m => .ok m
      | .error e => .error (.error e) := by
  unfold Model.load
  cases Model.ofContent path content <;> rfl

/-- What was read as a model is one if it passes the check. -/
theorem Model.ofRead_eq_ok_iff {read : Option Model} {m : Model} :
    Model.ofRead read = .ok m ↔ read = some m ∧ m.validate = .ok () := by
  rcases read with _ | m'
  · simp [ofRead]
  · simp only [ofRead, Option.some.injEq]
    cases hcheck : m'.validate with
    | error e =>
      constructor
      · intro h
        cases h
      · rintro ⟨rfl, h⟩
        rw [hcheck] at h
        cases h
    | ok _ =>
      constructor
      · intro h
        cases h
        exact ⟨rfl, hcheck⟩
      · rintro ⟨rfl, -⟩
        rfl

/-- A model is read exactly from a file whose bytes are those of a model that passes the check. -/
theorem Model.ofContent_eq_ok_iff {path : String} {content : Except ReadFault (List UInt8)}
    {m : Model} :
    Model.ofContent path content = .ok m ↔
      ∃ bytes, content = .ok bytes ∧ Interchange.modelOfBytes? bytes = some m ∧
        m.validate = .ok () := by
  rcases content with (cause | _) | bytes
  · simp [ofContent]
  · simp [ofContent]
  · simp [ofContent, ofBytes, ofRead_eq_ok_iff]

/-- Whether a model has no expression and no menu but its root. -/
def Model.isBare (m : Model) : Bool :=
  m.symbols.toList.all (fun s => s.revDep.isNone && s.dirDep.isNone && s.properties.isEmpty) &&
    m.root.dep.isNone && m.root.children.isEmpty

/-- Such a model passes the check. -/
theorem Model.validate_of_isBare {m : Model} (h : m.isBare) : m.validate = .ok () := by
  simp only [isBare, Bool.and_eq_true, List.all_eq_true, Array.mem_toList_iff,
    Option.isNone_iff_eq_none, List.isEmpty_iff] at h
  obtain ⟨⟨hsymbols, hdep⟩, hchildren⟩ := h
  have hmenus : m.menus = [] := by
    rw [menus, Menu.descendants_eq_preorder, hchildren]
    rfl
  apply validate_eq_ok_iff.mpr
  constructor
  · intro s hs
    simp [(hsymbols s hs).1.1]
  · intro s hs
    simp [(hsymbols s hs).1.2]
  · intro s hs
    simp [(hsymbols s hs).2]
  · intro s hs
    simp [(hsymbols s hs).2]
  · simp [hdep]
  all_goals simp [hmenus]

namespace CommandLine.Directory

variable {d : Directory} {i : Invocation}

/-! ## Paths and contents -/

/-- What is left when the error is forgotten was the result. -/
theorem eq_ok_of_toOption {ε α : Type} {x : Except ε α} {a : α} (h : x.toOption = some a) :
    x = .ok a := by
  cases x with
  | error e => cases h
  | ok b =>
    cases h
    rfl

/-- Where a path leads does not depend on what the files are. -/
theorem follow_eq_ok {f : Folder} {parts : List String} {place : Place}
    (h : d.follow f parts = .ok place) (d' : Directory) : d'.follow f parts = .ok place := by
  induction parts generalizing f with
  | nil => exact h
  | cons part rest ih =>
    unfold follow at h ⊢
    split
    · rename_i hhere
      rw [if_pos hhere] at h
      exact ih h
    · rename_i hhere
      rw [if_neg hhere] at h
      split
      · rename_i hup
        rw [if_pos hup] at h
        exact ih h
      · rename_i hup
        rw [if_neg hup] at h
        split
        · rename_i hlong
          rw [if_pos hlong] at h
          cases h
        · rename_i hlong
          rw [if_neg hlong] at h
          cases hentry : f.entry part with
          | folder inner =>
            rw [hentry] at h
            exact ih h
          | file name | nullDevice | nowhere =>
            -- nothing lies below any of these
            rw [hentry] at h
            cases rest with
            | nil => exact h
            | cons => cases h

/-- Resolving a name that leads somewhere needs nothing of the directory. -/
theorem resolve_eq_ok {path : String} {place : Place} (h : d.resolve path = .ok place)
    (d' : Directory) : d'.resolve path = .ok place := by
  unfold resolve at h ⊢
  split
  · rename_i hnul
    rw [if_pos hnul] at h
    cases h
  · rename_i hnul
    rw [if_neg hnul] at h
    split
    · rename_i hempty
      rw [if_pos hempty] at h
      cases h
    · rename_i hempty
      rw [if_neg hempty] at h
      split
      · rename_i hlong
        rw [if_pos hlong] at h
        cases h
      · rename_i hlong
        rw [if_neg hlong] at h
        exact follow_eq_ok h d'

/-- The empty path leads nowhere. -/
theorem ne_empty_of_resolve {path : String} {place : Place} (h : d.resolve path = .ok place) :
    path ≠ "" := by
  rintro rfl
  cases h

/-- What was written to a file is read from it. -/
theorem read_insert {path name : String} (h : d.resolve path = .ok (.file name))
    (content : List UInt8) : (d.insert name content).read path = .ok content := by
  unfold read
  rw [resolve_eq_ok h]
  simp [lookup, insert]

/-- A write to a path changes no file but the one that the path leads to. -/
theorem lookup_write (d : Directory) (path : String) (content : List UInt8) (name : String) :
    (d.write path content).2.lookup name = d.lookup name ∨ d.resolve path = .ok (.file name) := by
  unfold write
  cases hpath : d.resolve path with
  | error cause => exact .inl rfl
  | ok place =>
    cases place with
    | folder f => exact .inl rfl
    | nullDevice => exact .inl rfl
    | nowhere => exact .inl rfl
    | file name' =>
      by_cases hname : name = name'
      · rw [hname]
        exact .inr rfl
      · left
        have hne : (name == name') = false := by simpa using hname
        simp [lookup, insert, List.lookup_cons, hne]

/-! ## The part that reads -/

/-- The settings of an invocation in a directory, or the error. -/
def settings (d : Directory) (given : Given) : Except String Settings :=
  (settingsOf access given d).1

/-- Finding out the settings changes no file. -/
theorem settingsOf_access (d : Directory) (given : Given) :
    settingsOf access given d = (d.settings given, d) := by
  refine Prod.ext rfl ?_
  unfold settingsOf
  cases given.forceOffFile with
  | none => rfl
  | some path =>
    simp only [bind, StateT.bind, access]
    cases d.read path with
    | error fault => rfl
    | ok bytes =>
      simp only []
      cases textOf? bytes <;> rfl

/-- What an invocation comes to before its output is written: an outcome, or what there is to write,
after the messages that come first and with the settings to show them by. -/
def prepare (d : Directory) (i : Invocation) :
    Except Outcome (List Diagnostic × Settings × Run Unit) :=
  match d.settings i.given with
  | .error e => .error (.failure [] e)
  | .ok settings =>
    let loading := Model.load i.model (d.read i.model)
    let before := .settings settings :: loading.messages
    match loading.ending with
    | .ok model =>
      .ok (before ++ [.loadedFrom model.symbols.size i.model], settings,
        i.action.run model settings)
    | .error e => .error (.ofEnding (before.filter (settings.shows ·.level)) [] (.error e))

/-- An invocation reads first and writes then. -/
theorem invoke_access (d : Directory) (i : Invocation) :
    invoke access i d =
      match d.prepare i with
      | .error outcome => (outcome, d)
      | .ok (before, settings, run) => perform access i.given.output before settings run d := by
  unfold invoke prepare
  simp only [bind, StateT.bind, settingsOf_access]
  cases d.settings i.given with
  | error e => rfl
  | ok settings =>
    simp only [StateT.bind, bind, access]
    cases (Model.load i.model (d.read i.model)).ending <;> rfl

/-- Whether all that an invocation reads is as it has to be: the file of names to leave out, if
there is one, is a text, and the model is there, is well formed and passes the check. -/
structure Admits (d : Directory) (i : Invocation) : Prop where
  names : ∀ path, i.given.forceOffFile = some path →
    ∃ bytes text, d.read path = .ok bytes ∧ textOf? bytes = some text
  model : ∃ bytes m, d.read i.model = .ok bytes ∧ Interchange.modelOfBytes? bytes = some m ∧
    m.validate = .ok ()

/-- The settings are found out exactly where the names to leave out are there as a text. -/
theorem exists_settings_eq_ok_iff {given : Given} :
    (∃ settings, d.settings given = .ok settings) ↔
      ∀ path, given.forceOffFile = some path →
        ∃ bytes text, d.read path = .ok bytes ∧ textOf? bytes = some text := by
  unfold settings settingsOf
  cases given.forceOffFile with
  | none =>
    refine ⟨nofun, ?_⟩
    intro _
    exact ⟨given.settings, rfl⟩
  | some path =>
    simp only [bind, StateT.bind, access, Option.some.injEq, forall_eq']
    cases d.read path with
    | error fault =>
      apply iff_of_false
      · rintro ⟨settings, hsettings⟩
        cases hsettings
      · rintro ⟨bytes, text, hread, -⟩
        cases hread
    | ok bytes =>
      simp only [Except.ok.injEq, exists_and_left, exists_eq_left']
      cases textOf? bytes with
      | none =>
        apply iff_of_false
        · rintro ⟨settings, hsettings⟩
          cases hsettings
        · rintro ⟨text, htext⟩
          cases htext
      | some text => exact iff_of_true ⟨_, rfl⟩ ⟨text, rfl⟩

/-- There is something to write exactly where all that is read is as it has to be. -/
theorem exists_prepare_eq_ok_iff : (∃ plan, d.prepare i = .ok plan) ↔ d.Admits i := by
  have hmodel : (∃ m, (Model.load i.model (d.read i.model)).ending = .ok m) ↔
      ∃ bytes m, d.read i.model = .ok bytes ∧ Interchange.modelOfBytes? bytes = some m ∧
        m.validate = .ok () := by
    rw [exists_comm]
    refine exists_congr fun m => ?_
    rw [← @Model.ofContent_eq_ok_iff i.model, Model.load_ending]
    cases Model.ofContent i.model (d.read i.model) <;> simp
  have hparts : d.Admits i ↔ (∃ settings, d.settings i.given = .ok settings) ∧
      ∃ m, (Model.load i.model (d.read i.model)).ending = .ok m := by
    rw [exists_settings_eq_ok_iff, hmodel]
    exact ⟨fun h => ⟨h.names, h.model⟩, fun h => ⟨h.1, h.2⟩⟩
  rw [hparts]
  unfold prepare
  cases d.settings i.given with
  | error e => simp
  | ok settings =>
    cases hloading : (Model.load i.model (d.read i.model)).ending with
    | error stop => simp [hloading]
    | ok model => simp [hloading]

/-- What there is to write is what the action makes of the model. -/
theorem run_of_prepare_eq_ok {before : List Diagnostic} {settings : Settings} {run : Run Unit}
    (h : d.prepare i = .ok (before, settings, run)) :
    ∃ bytes m, d.read i.model = .ok bytes ∧ Interchange.modelOfBytes? bytes = some m ∧
      run = i.action.run m settings := by
  unfold prepare at h
  cases hsettings : d.settings i.given with
  | error e =>
    rw [hsettings] at h
    cases h
  | ok found =>
    rw [hsettings] at h
    have hending := Model.load_ending i.model (d.read i.model)
    cases hcontent : Model.ofContent i.model (d.read i.model) with
    | error e =>
      rw [hcontent] at hending
      simp [hending] at h
    | ok m =>
      rw [hcontent] at hending
      simp only [hending, Except.ok.injEq, Prod.mk.injEq] at h
      obtain ⟨-, rfl, hrun⟩ := h
      obtain ⟨bytes, hread, hm, -⟩ := Model.ofContent_eq_ok_iff.mp hcontent
      exact ⟨bytes, m, hread, hm, hrun.symm⟩

/-- What ends a job before there is something to write is an error, and has no output. -/
theorem stdout_of_prepare_eq_error {outcome : Outcome} (h : d.prepare i = .error outcome) :
    outcome.stdout = [] := by
  unfold prepare at h
  cases hsettings : d.settings i.given with
  | error e =>
    rw [hsettings] at h
    cases h
    rfl
  | ok settings =>
    rw [hsettings] at h
    cases hloading : (Model.load i.model (d.read i.model)).ending with
    | ok model => simp [hloading] at h
    | error stop =>
      simp only [hloading, Except.error.injEq] at h
      rw [← h]
      rcases stop with e | id | kind <;> rfl

/-! ## The part that writes -/

variable {before : List Diagnostic} {settings : Settings} {run : Run Unit}

/-- Without an output file no file is written. -/
theorem perform_none (d : Directory) (before : List Diagnostic) (settings : Settings)
    (run : Run Unit) :
    perform access none before settings run d =
      (.ofEnding ((before ++ run.messages).filter (settings.shows ·.level)) (utf8 run.output)
        run.ending, d) :=
  rfl

/-- With one, it is the only thing that is written to, be it possible or not. -/
theorem perform_some_snd (d : Directory) (path : String) (before : List Diagnostic)
    (settings : Settings) (run : Run Unit) :
    (perform access (some path) before settings run d).2 =
      (d.write path (utf8 run.output)).2 := by
  simp only [perform, bind, StateT.bind, access]
  cases (d.write path (utf8 run.output)).1 <;> rfl

/-- Where it can be written, it has what would have been the standard output. -/
theorem perform_some_of_resolve {path name : String} (h : d.resolve path = .ok (.file name))
    (before : List Diagnostic) (settings : Settings) (run : Run Unit) :
    perform access (some path) before settings run d =
      (.ofEnding ((before ++ run.messages).filter (settings.shows ·.level)) [] run.ending,
        d.insert name (utf8 run.output)) := by
  have hwrite : d.write path (utf8 run.output) = (true, d.insert name (utf8 run.output)) := by
    rw [write, h]
  simp only [perform, bind, StateT.bind, access, hwrite, if_true]
  rfl

/-- How an action ends shows apart from where its output went. -/
theorem ofEnding_stdout (messages : List Diagnostic) (stdout : List UInt8)
    (ending : Except Stop Unit) :
    Outcome.ofEnding messages stdout ending =
      { Outcome.ofEnding messages [] ending with stdout := stdout } := by
  rcases ending with (e | id | kind) | ⟨⟩ <;> rfl

/-- A job that does not come to writing. -/
theorem runJob_of_prepare_error {args : List String} (hargs : parse args = .ok i)
    {outcome : Outcome} (h : d.prepare i = .error outcome) : d.runJob args = (outcome, d) := by
  rw [runJob, CommandLine.run, hargs]
  simp only [invoke_access, h]

/-- A job that does. -/
theorem runJob_of_prepare_ok {args : List String} (hargs : parse args = .ok i)
    (h : d.prepare i = .ok (before, settings, run)) :
    d.runJob args = perform access i.given.output before settings run d := by
  rw [runJob, CommandLine.run, hargs]
  simp only [invoke_access, h]

/-! ## The whole job -/

/-- Whether something is wrong before a job can write: the arguments are not well formed, the names
to leave out cannot be read as a text, or the model is not there, is not well formed, or refers to
symbols that it does not have, the symbol and the choice members of the root left aside. -/
inductive Refuses (d : Directory) (args : List String) : Prop where
  | arguments : parse args = .error .usage → Refuses d args
  | names {i : Invocation} {path : String} :
    parse args = .ok i → i.given.forceOffFile = some path →
      (∀ bytes, d.read path = .ok bytes → textOf? bytes = none) → Refuses d args
  | missing {i : Invocation} :
    parse args = .ok i → (∀ bytes, d.read i.model ≠ .ok bytes) → Refuses d args
  | malformed {i : Invocation} {bytes : List UInt8} :
    parse args = .ok i → d.read i.model = .ok bytes → Interchange.modelOfBytes? bytes = none →
      Refuses d args
  | dangling {i : Invocation} {bytes : List UInt8} {m : Model} :
    parse args = .ok i → d.read i.model = .ok bytes → Interchange.modelOfBytes? bytes = some m →
      ¬ m.withBareRoot.IsClosed → Refuses d args

/-- What is wrong with what is read is seen before anything is written. -/
theorem Refuses.not_admits {args : List String} (h : d.Refuses args) (hi : parse args = .ok i) :
    ¬ d.Admits i := by
  rintro ⟨hnames, bytes, m, hread, hm, hcheck⟩
  cases h with
  | arguments hargs =>
    rw [hargs] at hi
    cases hi
  | names hi' hpath htext =>
    cases hi.symm.trans hi'
    obtain ⟨bytes', text, hread', htext'⟩ := hnames _ hpath
    rw [htext bytes' hread'] at htext'
    cases htext'
  | missing hi' hmissing =>
    cases hi.symm.trans hi'
    exact hmissing bytes hread
  | malformed hi' hread' hm' =>
    cases hi.symm.trans hi'
    cases hread.symm.trans hread'
    rw [hm'] at hm
    cases hm
  | dangling hi' hread' hm' hclosed =>
    cases hi.symm.trans hi'
    cases hread.symm.trans hread'
    cases hm.symm.trans hm'
    exact hclosed (Model.validate_eq_ok_iff.mp hcheck).isClosed_withBareRoot

/-- A job touches no file but the one that its arguments name for the output. Where something is
wrong before it can write, it touches no file at all, and has no output. -/
theorem runJob_frame (d : Directory) (args : List String) :
    (∀ name, (d.runJob args).2.lookup name = d.lookup name ∨
      ∃ i file, parse args = .ok i ∧ i.given.output = some file ∧
        d.resolve file = .ok (.file name)) ∧
      (d.Refuses args → (d.runJob args).2 = d ∧ (d.runJob args).1.stdout = []) := by
  cases hargs : parse args with
  | error refusal =>
    have hjob : d.runJob args = (.ofRefusal refusal, d) := by
      rw [runJob, CommandLine.run, hargs]
      rfl
    rw [hjob]
    refine ⟨fun _ => .inl rfl, ?_⟩
    intro hrefuses
    refine ⟨rfl, ?_⟩
    cases hrefuses with
    | arguments husage =>
      cases hargs.symm.trans husage
      rfl
    | names hi => cases hargs.symm.trans hi
    | missing hi => cases hargs.symm.trans hi
    | malformed hi => cases hargs.symm.trans hi
    | dangling hi => cases hargs.symm.trans hi
  | ok i =>
    cases hprepare : d.prepare i with
    | error outcome =>
      rw [runJob_of_prepare_error hargs hprepare]
      refine ⟨fun _ => .inl rfl, ?_⟩
      intro _
      exact ⟨rfl, stdout_of_prepare_eq_error hprepare⟩
    | ok plan =>
      obtain ⟨before, settings, run⟩ := plan
      rw [runJob_of_prepare_ok hargs hprepare]
      constructor
      · intro name
        cases houtput : i.given.output with
        | none => exact .inl rfl
        | some file =>
          rw [perform_some_snd]
          rcases d.lookup_write file (utf8 run.output) name with hsame | hfile
          · exact .inl hsame
          · exact .inr ⟨i, file, rfl, houtput, hfile⟩
      -- whoever is prepared has been admitted
      · intro hrefuses
        exact absurd (exists_prepare_eq_ok_iff.mp ⟨_, hprepare⟩) (hrefuses.not_admits hargs)

/-- A model whose root has a condition on a symbol that the model does not have. -/
def danglingText : String :=
  "\x7b\"root\":\x7b\"dep\":\x7b\"op\":\"symbol\",\"sym\":0\x7d\x7d\x7d"

/-- A directory with this model and an earlier output. -/
def danglingCondition : Directory where
  files := [("kconfig.json", utf8 danglingText), ("out", utf8 "earlier")]

/-- A model with a condition on a missing symbol is refused before the output file is opened. -/
theorem danglingCondition_frame :
    danglingCondition.Refuses ["extract", "-o", "out"] ∧
      (danglingCondition.runJob ["extract", "-o", "out"]).2 = danglingCondition ∧
      (danglingCondition.runJob ["extract", "-o", "out"]).1.stdout = [] := by
  have hbytes : danglingCondition.read "kconfig.json" = .ok (utf8 danglingText) :=
    eq_ok_of_toOption (by decide +kernel)
  have hparts : (Interchange.modelOfBytes? (utf8 danglingText)).map
      (fun m => (m.root.dep, m.symbols.size)) = some (some (.symbol (.entry ⟨0⟩)), 0) := by
    decide +kernel
  obtain ⟨m, hm, heq⟩ := Option.map_eq_some_iff.mp hparts
  obtain ⟨hdep, hsize⟩ := Prod.mk.inj heq
  have hdangling : ¬ m.withBareRoot.IsClosed := by
    intro hclosed
    have hrefers : m.withBareRoot.Refers ⟨0⟩ := .menuDep (.inl rfl) hdep .symbol
    have hbelow : 0 < m.symbols.size := hclosed ⟨0⟩ hrefers
    rw [hsize] at hbelow
    exact Nat.lt_irrefl 0 hbelow
  have hrefuses : danglingCondition.Refuses ["extract", "-o", "out"] :=
    .dangling rfl hbytes hm hdangling
  exact ⟨hrefuses, (runJob_frame danglingCondition _).2 hrefuses⟩

/-- A model without symbols whose root is the place of one. -/
def strayRootText : String :=
  "\x7b\"root\":\x7b\"symbol\":0\x7d\x7d"

/-- A directory with this model alone. -/
def strayRoot : Directory where
  files := [("kconfig.json", utf8 strayRootText)]

/-- The model of this directory is not closed, and yet the output file is created. -/
theorem strayRoot_written :
    (∃ i bytes m, parse ["configs", "-o", "out"] = .ok i ∧ strayRoot.read i.model = .ok bytes ∧
      Interchange.modelOfBytes? bytes = some m ∧ ¬ m.IsClosed) ∧
      strayRoot.lookup "out" = none ∧
      (strayRoot.runJob ["configs", "-o", "out"]).2.lookup "out" ≠ none := by
  have hbytes : strayRoot.read "kconfig.json" = .ok (utf8 strayRootText) :=
    eq_ok_of_toOption (by decide +kernel)
  have hparts : (Interchange.modelOfBytes? (utf8 strayRootText)).map
      (fun m => (m.root.symbol, m.symbols.size, m.isBare)) = some (some ⟨0⟩, 0, true) := by
    decide +kernel
  obtain ⟨m, hm, heq⟩ := Option.map_eq_some_iff.mp hparts
  obtain ⟨hsymbol, hrest⟩ := Prod.mk.inj heq
  obtain ⟨hsize, hbare⟩ := Prod.mk.inj hrest
  have hopen : ¬ m.IsClosed := by
    intro hclosed
    have hbelow : 0 < m.symbols.size := hclosed ⟨0⟩ (.menuSymbol (.inl rfl) hsymbol)
    rw [hsize] at hbelow
    exact Nat.lt_irrefl 0 hbelow
  have hargs : parse ["configs", "-o", "out"] =
      .ok ⟨.configs, "kconfig.json", { output := some "out" }⟩ := rfl
  have hadmits : strayRoot.Admits ⟨.configs, "kconfig.json", { output := some "out" }⟩ :=
    ⟨nofun, _, m, hbytes, hm, Model.validate_of_isBare hbare⟩
  have hout : strayRoot.resolve "out" = .ok (.file "out") := eq_ok_of_toOption (by decide +kernel)
  obtain ⟨⟨before, settings, run⟩, hprepare⟩ := exists_prepare_eq_ok_iff.mpr hadmits
  refine ⟨⟨_, _, m, hargs, hbytes, hm, hopen⟩, rfl, ?_⟩
  rw [runJob_of_prepare_ok hargs hprepare, perform_some_of_resolve hout]
  simp [lookup, insert]

/-- Where no output file is named, naming one that can be written changes neither the exit code nor
the error. Nothing goes to the standard output any more: what would have, be it only a part, is the
content of the file, if all that is read is as it has to be. If not, all files are as they were. -/
theorem runJob_insert_output (d : Directory) {before after : List String} {i : Invocation}
    (hargs : parse (before ++ after) = .ok i) (hdirect : i.given.output = none)
    (hbefore : Reading.TakesOptions before) {file name : String} {option : List String}
    (hoption : NamesOutput file option) (hfile : d.resolve file = .ok (.file name)) :
    let direct := d.runJob (before ++ after)
    let diverted := d.runJob (before ++ option ++ after)
    diverted.1.exitCode = direct.1.exitCode ∧ diverted.1.error = direct.1.error ∧
      diverted.1.stdout = [] ∧
      (d.Admits i → diverted.2.read file = .ok direct.1.stdout) ∧
      (¬ d.Admits i → diverted.2 = d) := by
  have hdiverted := parse_insert_output hargs hdirect hbefore (ne_empty_of_resolve hfile) hoption
  -- what is read is the same, and so is what comes of it
  have hprepare : d.prepare { i with given := i.given.withOutput (some file) } = d.prepare i := rfl
  have houtput : (i.given.withOutput (some file)).output = some file := rfl
  cases hplan : d.prepare i with
  | error outcome =>
    have hnot : ¬ d.Admits i := by
      intro hadmits
      obtain ⟨plan, hok⟩ := exists_prepare_eq_ok_iff.mpr hadmits
      rw [hplan] at hok
      cases hok
    rw [runJob_of_prepare_error hargs hplan,
      runJob_of_prepare_error hdiverted (hprepare.trans hplan)]
    exact ⟨rfl, rfl, stdout_of_prepare_eq_error hplan, fun h => absurd h hnot, fun _ => rfl⟩
  | ok plan =>
    obtain ⟨messages, settings, run⟩ := plan
    have hadmits := exists_prepare_eq_ok_iff.mp ⟨_, hplan⟩
    rw [runJob_of_prepare_ok hargs hplan, runJob_of_prepare_ok hdiverted (hprepare.trans hplan),
      hdirect, houtput, perform_none, perform_some_of_resolve hfile,
      ofEnding_stdout _ (utf8 run.output), ofEnding_stdout _ []]
    refine ⟨rfl, rfl, rfl, ?_, fun h => absurd hadmits h⟩
    intro _
    exact read_insert hfile (utf8 run.output)

/-- A model whose second symbol is a choice of a type that no choice can have. -/
def brokenChoiceText : String :=
  "\x7b\"symbols\":[[\"A\",\"bool\"],\x7b\"type\":\"string\",\"flags\":\"CHOICE\"\x7d]\x7d"

/-- A directory with this model alone. -/
def brokenChoice : Directory where
  files := [("m.json", utf8 brokenChoiceText)]

/-- The constraints that are written before the choice is met go to the file of the model itself,
which has been read by then. -/
theorem brokenChoice_insert_output :
    let direct := brokenChoice.runJob ["extract", "-v", "m.json"]
    let diverted := brokenChoice.runJob ["extract", "-om.json", "-v", "m.json"]
    diverted.1.exitCode = direct.1.exitCode ∧ diverted.1.error = direct.1.error ∧
      diverted.1.stdout = [] ∧ diverted.2.read "m.json" = .ok direct.1.stdout := by
  have hbytes : brokenChoice.read "m.json" = .ok (utf8 brokenChoiceText) :=
    eq_ok_of_toOption (by decide +kernel)
  have hparts :
      (Interchange.modelOfBytes? (utf8 brokenChoiceText)).map Model.isBare = some true := by
    decide +kernel
  obtain ⟨m, hm, hbare⟩ := Option.map_eq_some_iff.mp hparts
  have hargs : parse (["extract"] ++ ["-v", "m.json"]) =
      .ok ⟨.extract, "m.json", { verbose := true }⟩ := rfl
  have hadmits : brokenChoice.Admits ⟨.extract, "m.json", { verbose := true }⟩ :=
    ⟨nofun, _, m, hbytes, hm, Model.validate_of_isBare hbare⟩
  have hplace : Reading.TakesOptions ["extract"] := ⟨_, rfl, rfl, rfl⟩
  have hoption : NamesOutput "m.json" ["-om.json"] := .letterAttached (by decide)
  have hfile : brokenChoice.resolve "m.json" = .ok (.file "m.json") :=
    eq_ok_of_toOption (by decide +kernel)
  have hsame := runJob_insert_output brokenChoice hargs rfl hplace hoption hfile
  simp only [List.cons_append, List.nil_append] at hsame
  obtain ⟨hcode, herror, hstdout, hcontent, -⟩ := hsame
  exact ⟨hcode, herror, hstdout, hcontent hadmits⟩

/-- The empty model. -/
def emptyText : String := "\x7b\x7d"

/-- A directory with this model alone. -/
def emptyModel : Directory where
  files := [("kconfig.json", utf8 emptyText)]

/-- A name that looks like an option cannot stand by itself after the letter of the output option,
wherever the two arguments are put, though a file of that name could be written. -/
theorem dashedName_refused :
    emptyModel.resolve "-x" = .ok (.file "-x") ∧ (emptyModel.runJob ["configs"]).1.exitCode = 0 ∧
      ∀ before after, before ++ after = ["configs"] →
        (emptyModel.runJob (before ++ ["-o", "-x"] ++ after)).1.exitCode = 2 := by
  refine ⟨eq_ok_of_toOption (by decide +kernel), ?_, ?_⟩
  · have hread : emptyModel.read "kconfig.json" = .ok (utf8 emptyText) :=
      eq_ok_of_toOption (by decide +kernel)
    have hparts : (Interchange.modelOfBytes? (utf8 emptyText)).map
        (fun m => (m.symbols.size, m.isBare)) = some (0, true) := by
      decide +kernel
    obtain ⟨m, hm, heq⟩ := Option.map_eq_some_iff.mp hparts
    obtain ⟨hsize, hbare⟩ := Prod.mk.inj heq
    have hargs : parse ["configs"] = .ok ⟨.configs, "kconfig.json", {}⟩ := rfl
    have hadmits : emptyModel.Admits ⟨.configs, "kconfig.json", {}⟩ :=
      ⟨nofun, _, m, hread, hm, Model.validate_of_isBare hbare⟩
    obtain ⟨⟨before, settings, run⟩, hprepare⟩ := exists_prepare_eq_ok_iff.mpr hadmits
    obtain ⟨bytes, m', hread', hm', rfl⟩ := run_of_prepare_eq_ok hprepare
    obtain rfl : utf8 emptyText = bytes := Except.ok.inj (hread.symm.trans hread')
    obtain rfl : m = m' := Option.some.inj (hm.symm.trans hm')
    have hnames : Listing.configs m = [] := by
      simp [Listing.configs, Listing.namesWhere, Model.namedEntries, Model.entries,
        Array.eq_empty_of_size_eq_zero hsize]
    rw [runJob_of_prepare_ok hargs hprepare, perform_none, Action.run, Action.output, hnames]
    rfl
  · intro before after hargs
    have hrefused : parse (before ++ ["-o", "-x"] ++ after) = .error .usage := by
      rcases before with _ | ⟨arg, before⟩
      · obtain rfl := hargs
        rfl
      · obtain ⟨rfl, hrest⟩ := List.cons.inj hargs
        obtain ⟨rfl, rfl⟩ := List.append_eq_nil_iff.mp hrest
        rfl
    rw [runJob, CommandLine.run, hrefused]
    rfl

end CommandLine.Directory

end Kconfig
