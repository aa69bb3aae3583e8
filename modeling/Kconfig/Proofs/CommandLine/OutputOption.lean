import Kconfig.CommandLine.Arguments

/-!
# Naming an output file

A command line that names no output file can be made to name one by an option more, wherever
options are still taken: not after `--`, and not between an option and its value
(`Reading.TakesOptions`). Such an option is one or two arguments (`NamesOutput`). As an argument by
itself the name of the file must not look like an option, and right after the letter it must not
begin with the sign that may stand there; with the long name of the option any name will do.

Whatever else is read is read as before (`parse_insert_output`): the reader only looks at the output
files it has read when another one comes, and here none does. The induction over the arguments goes
backwards in one respect. That no output file is named is known of the end, and as names are never
taken back it holds of every reading before the end (`Reading.Overlooks`). Nor is it taken back that
a value is to be refused.
-/

namespace Kconfig.CommandLine

/-- Whether an argument is taken for an option, where options are taken. -/
def looksLikeOption (arg : String) : Bool :=
  match arg.toList with
  | '-' :: _ :: _ => true
  | _ => false

/-- The ways of naming the output file. -/
inductive NamesOutput (file : String) : List String → Prop where
  | letter : looksLikeOption file = false → NamesOutput file ["-o", file]
  | letterAttached : file.toList.head? ≠ some '=' → NamesOutput file ["-o" ++ file]
  | letterSign : NamesOutput file ["-o=" ++ file]
  | word : looksLikeOption file = false → NamesOutput file ["--output", file]
  | wordSign : NamesOutput file ["--output=" ++ file]

namespace Given

/-- The options with another output file, or with none. -/
def withOutput (g : Given) (output : Option String) : Given :=
  { g with output := output }

variable {g g' : Given} {key : Key} {v : String}

/-- An option without a value has nothing to do with the output file. -/
theorem flag_withOutput (h : g.flag key = .ok g') (output : Option String) :
    g'.output = g.output ∧ (g.withOutput output).flag key = .ok (g'.withOutput output) := by
  cases key with
  | noPrefix | directOnly | verbose =>
    simp only [flag] at h
    split at h
    · cases h
    · rename_i hgiven
      cases h
      refine ⟨rfl, ?_⟩
      rw [flag, withOutput, if_neg hgiven]
      rfl
  | help | version | output | setPrefix | forceOff | forceOffFile => cases h

/-- An option with its value, if it is not the output file, has nothing to do with it either. -/
theorem value_withOutput (h : g.value key v = .ok g') (hdirect : g'.output = none)
    (output : Option String) :
    g.output = none ∧ (g.withOutput output).value key v = .ok (g'.withOutput output) := by
  cases key with
  | output =>
    simp only [value] at h
    split at h
    · cases h
    · cases h
      cases hdirect
  | setPrefix | forceOffFile =>
    simp only [value] at h
    split at h
    · cases h
    · rename_i hgiven
      cases h
      refine ⟨hdirect, ?_⟩
      rw [value, withOutput, if_neg hgiven]
      rfl
  | forceOff =>
    cases h
    exact ⟨hdirect, rfl⟩
  | noPrefix | directOnly | verbose | help | version => cases h

end Given

namespace Reading

/-- Whether no output file has been named, and no value is to be refused late. -/
def IsDirect (r : Reading) : Prop :=
  r.outer.output = none ∧ r.inner.output = none ∧ r.late = false

/-- The reading with other output files on the two sides of the command. -/
def withOutputs (outer inner : Option String) (r : Reading) : Reading :=
  { r with outer := r.outer.withOutput outer, inner := r.inner.withOutput inner }

/-- Whether options are taken after the given arguments. -/
def TakesOptions (args : List String) : Prop :=
  ∃ r, run {} args = .ok r ∧ r.pending = none ∧ r.plain = false

/-- Whether a step of the reader overlooks the output files on both sides: from whatever it comes to
without one, it would have come the same way with others. -/
def Overlooks (next : Reading → Except Refusal Reading) : Prop :=
  ∀ r r', next r = .ok r' → r'.IsDirect →
    r.IsDirect ∧ ∀ outer inner, next (r.withOutputs outer inner) = .ok (r'.withOutputs outer inner)

/-- The options of the present side, with other output files. -/
theorem side_withOutputs (r : Reading) (outer inner : Option String) :
    (r.withOutputs outer inner).side =
      r.side.withOutput (if r.command.isSome then inner else outer) := by
  unfold side withOutputs
  cases r.command <;> rfl

/-- Putting options on the present side and replacing the output files of both may be done in either
order. -/
theorem withSide_withOutputs (r : Reading) (g : Given) (outer inner : Option String) :
    (r.withOutputs outer inner).withSide
        (g.withOutput (if r.command.isSome then inner else outer)) =
      (r.withSide g).withOutputs outer inner := by
  unfold withSide withOutputs
  cases r.command <;> rfl

/-- Other options on the present side leave the other side as it is. -/
theorem isDirect_withSide {r : Reading} {g : Given} (h : (r.withSide g).IsDirect) :
    g.output = none ∧ (r.side.output = none → r.IsDirect) := by
  unfold withSide IsDirect at h
  unfold side IsDirect
  cases hcommand : r.command with
  | none =>
    simp only [hcommand, Option.isSome_none, Bool.false_eq_true, if_false] at h ⊢
    exact ⟨h.1, fun houter => ⟨houter, h.2⟩⟩
  | some command =>
    simp only [hcommand, Option.isSome_some, if_true] at h ⊢
    exact ⟨h.2.1, fun hinner => ⟨h.1, hinner, h.2.2⟩⟩

/-- Setting a flag has nothing to do with output files. -/
theorem overlooks_flag (key : Key) : Overlooks fun r => r.flag key := by
  intro r r' h hdirect
  simp only [flag] at h ⊢
  cases hflag : r.side.flag key with
  | error e =>
    rw [hflag] at h
    cases h
  | ok g =>
    rw [hflag] at h
    cases h
    obtain ⟨hg, hside⟩ := isDirect_withSide hdirect
    refine ⟨hside ((Given.flag_withOutput hflag none).1.symm.trans hg), ?_⟩
    intro outer inner
    rw [side_withOutputs, (Given.flag_withOutput hflag _).2]
    exact congrArg _ (r.withSide_withOutputs g outer inner)

/-- Taking the value of an option overlooks output files, since a value for the output option itself
leaves a reading that is not direct. -/
theorem overlooks_value (key : Key) (v : String) : Overlooks fun r => r.value key v := by
  intro r r' h hdirect
  simp only [value] at h ⊢
  cases hvalue : r.side.value key v with
  | error e =>
    rw [hvalue] at h
    cases h
  | ok g =>
    rw [hvalue] at h
    cases h
    obtain ⟨hg, hside⟩ := isDirect_withSide hdirect
    refine ⟨hside (Given.value_withOutput hvalue hg none).1, ?_⟩
    intro outer inner
    rw [side_withOutputs, (Given.value_withOutput hvalue hg _).2]
    have hwith := r.withSide_withOutputs g outer inner
    simp only [hwith]
    rfl

/-- What changes neither side changes no output file. -/
theorem overlooks_update {update : Reading → Reading}
    (hdirect : ∀ r, (update r).IsDirect → r.IsDirect)
    (hupdate : ∀ r outer inner,
      update (r.withOutputs outer inner) = (update r).withOutputs outer inner) :
    Overlooks fun r => .ok (update r) := by
  intro r r' h hr'
  cases h
  refine ⟨hdirect r hr', ?_⟩
  intro outer inner
  exact congrArg Except.ok (hupdate r outer inner)

/-- A step that always refuses comes to nothing, whatever it started from. -/
theorem overlooks_error (e : Refusal) : Overlooks fun _ => .error e := by
  intro r r' h _
  cases h

/-- A choice that does not look at the output files. -/
theorem Overlooks.ite {first second : Reading → Except Refusal Reading} (h₁ : Overlooks first)
    (h₂ : Overlooks second) {c : Reading → Prop} [DecidablePred c]
    (hc : ∀ r outer inner, c (r.withOutputs outer inner) ↔ c r) :
    Overlooks fun r => if c r then first r else second r := by
  intro r r' h hdirect
  simp only [hc]
  by_cases hr : c r
  · simp only [if_pos hr] at h ⊢
    exact h₁ r r' h hdirect
  · simp only [if_neg hr] at h ⊢
    exact h₂ r r' h hdirect

/-- One step after another. -/
theorem Overlooks.andThen {first second : Reading → Except Refusal Reading} (h₁ : Overlooks first)
    (h₂ : Overlooks second) :
    Overlooks fun r =>
      match first r with
      | .ok r => second r
      | .error e => .error e := by
  intro r r'' h hdirect
  cases hfirst : first r with
  | error e =>
    simp only [hfirst] at h
    cases h
  | ok r' =>
    simp only [hfirst] at h
    obtain ⟨hr', hsecond⟩ := h₂ r' r'' h hdirect
    obtain ⟨hr, hfirst'⟩ := h₁ r r' hfirst hr'
    refine ⟨hr, ?_⟩
    intro outer inner
    simp only [hfirst', hsecond]

/-- Waiting for a value has nothing to do with output files. -/
theorem overlooks_pending (key : Key) : Overlooks fun r => .ok { r with pending := some key } :=
  overlooks_update (fun _ h => h) fun _ _ _ => rfl

/-- A long option overlooks output files. -/
theorem overlooks_long (name : String) (attached : Option String) :
    Overlooks fun r => r.long name attached := by
  unfold long
  cases Key.ofLong? name with
  | none => exact overlooks_error _
  | some key =>
    apply Overlooks.ite _ (overlooks_error _) fun _ _ _ => Iff.rfl
    cases key.takesValue with
    | true =>
      cases attached with
      | none => exact overlooks_pending key
      | some v => exact overlooks_value key v
    | false =>
      cases attached with
      | none => exact overlooks_flag key
      | some v => exact overlooks_error _

/-- A cluster of letters overlooks output files, letter by letter. -/
theorem overlooks_letters (cs : List Char) : Overlooks fun r => r.letters cs := by
  induction cs with
  | nil => exact overlooks_update (fun _ h => h) fun _ _ _ => rfl
  | cons c rest ih =>
    unfold letters
    cases Key.ofLetter? c with
    | none => exact overlooks_error _
    | some key =>
      apply Overlooks.ite _ (overlooks_error _) fun _ _ _ => Iff.rfl
      cases key.takesValue with
      | true =>
        -- the value is the rest of the argument, or the next one
        simp only [if_true]
        split
        · exact overlooks_pending key
        · exact overlooks_value key _
        · exact overlooks_value key _
      | false => exact (overlooks_flag key).andThen ih

/-- An operand overlooks output files. -/
theorem overlooks_operand (arg : String) : Overlooks fun r => r.operand arg := by
  rintro ⟨command, operands, outer, inner, pending, plain, late⟩ r' h hdirect
  simp only [operand] at h
  split at h
  · cases h
    exact ⟨hdirect, fun _ _ => rfl⟩
  · split at h
    · cases h
    · rename_i harg
      cases h
      exact ⟨hdirect, fun _ _ => if_neg harg⟩
  · split at h
    · cases h
    · rename_i harg
      cases h
      exact ⟨hdirect, fun _ _ => if_neg harg⟩
  · cases h

/-- A word, whether it names a command or not, overlooks output files. -/
theorem overlooks_word (arg : String) : Overlooks fun r => r.word arg := by
  unfold word
  apply (overlooks_operand arg).ite _ fun _ _ _ => Iff.rfl
  cases Command.ofName? arg with
  | none => exact overlooks_error _
  | some command =>
    exact overlooks_update (fun _ h => h) fun _ _ _ => rfl

/-- A value that is an argument by itself is taken, or refused late. -/
theorem overlooks_due (key : Key) (v : String) : Overlooks fun r => r.due key v := by
  intro r r' h hdirect
  simp only [due] at h ⊢
  cases hvalue : r.value key v with
  | ok taken =>
    simp only [hvalue, Except.ok.injEq] at h
    subst h
    obtain ⟨hr, hwith⟩ := overlooks_value key v r taken hvalue hdirect
    refine ⟨hr, ?_⟩
    intro outer inner
    simp only [hwith]
  | error e =>
    simp only [hvalue] at h
    split at h
    · -- what is to be refused late is to be refused in the end
      cases h
      cases hdirect.2.2
    · cases h

/-- The value of the option that is still without one, or else a word. -/
theorem overlooks_pendingOrWord (arg : String) :
    Overlooks fun r =>
      match r.pending with
      | some key => r.due key arg
      | none => r.word arg := by
  intro r r' h hdirect
  cases hpending : r.pending with
  | none =>
    simp only [hpending] at h
    obtain ⟨hr, hword⟩ := overlooks_word arg r r' h hdirect
    refine ⟨hr, ?_⟩
    intro outer inner
    have hpending' : (r.withOutputs outer inner).pending = none := hpending
    simp only [hpending']
    exact hword outer inner
  | some key =>
    simp only [hpending] at h
    obtain ⟨hr, hdue⟩ := overlooks_due key arg r r' h hdirect
    refine ⟨hr, ?_⟩
    intro outer inner
    have hpending' : (r.withOutputs outer inner).pending = some key := hpending
    simp only [hpending']
    exact hdue outer inner

/-- One argument is read without regard to output files. -/
theorem overlooks_step (arg : String) : Overlooks fun r => r.step arg := by
  unfold step
  apply (overlooks_word arg).ite _ fun _ _ _ => Iff.rfl
  -- where an option is due its value, no argument that looks like an option is taken
  have hrefused : ∀ {next : Reading → Except Refusal Reading}, Overlooks next →
      Overlooks fun r => if r.pending.isSome then .error .usage else next r := by
    intro next hnext
    exact (overlooks_error _).ite hnext fun _ _ _ => Iff.rfl
  split
  · exact hrefused (overlooks_update (fun _ h => h) fun _ _ _ => rfl)
  · apply hrefused
    split
    · exact overlooks_long _ _
    · exact overlooks_long _ _
  · exact hrefused (overlooks_letters _)
  · exact overlooks_pendingOrWord arg

/-- Arguments are read without regard to output files, one by one. -/
theorem overlooks_run (args : List String) : Overlooks fun r => r.run args := by
  induction args with
  | nil => exact overlooks_update (fun _ h => h) fun _ _ _ => rfl
  | cons arg args ih =>
    unfold run
    exact (overlooks_error _).ite ((overlooks_step arg).andThen ih) fun _ _ _ => Iff.rfl

/-! ## Reading the option -/

/-- The reading with an output file on the present side. -/
def withFile (file : String) (r : Reading) : Reading :=
  r.withSide (r.side.withOutput (some file))

variable {r : Reading} {file : String}

/-- A first output file is one more on either side. -/
theorem exists_withOutputs_eq_withFile (hdirect : r.IsDirect) (file : String) :
    ∃ outer inner, r.withFile file = r.withOutputs outer inner ∧ (inner <|> outer) = some file := by
  obtain ⟨houter, hinner, -⟩ := hdirect
  have hself : ∀ g : Given, g.output = none → g.withOutput none = g := by
    rintro ⟨⟩ hg
    cases hg
    rfl
  cases hcommand : r.command with
  | none =>
    refine ⟨some file, none, ?_, rfl⟩
    simp [withFile, withSide, side, withOutputs, hcommand, hself _ hinner]
  | some command =>
    refine ⟨none, some file, ?_, rfl⟩
    simp [withFile, withSide, side, withOutputs, hcommand, hself _ houter]

/-- An output file that is the first is taken, whether its option has been waiting for it or has it
attached. -/
theorem value_output (hdirect : r.IsDirect) (hfile : file ≠ "") (hpending : r.pending = none)
    (pending : Option Key) :
    { r with pending := pending }.value .output file = .ok (r.withFile file) := by
  obtain ⟨command, operands, outer, inner, _, plain, late⟩ := r
  obtain ⟨houter, hinner, -⟩ := hdirect
  cases hpending
  cases command with
  | none => simp_all [value, side, withFile, withSide, Given.value, Given.withOutput]
  | some command => simp_all [value, side, withFile, withSide, Given.value, Given.withOutput]

/-- Where options are taken, an argument of letters is one. -/
theorem step_of_letters (hdirect : r.IsDirect) (hplain : r.plain = false)
    (hpending : r.pending = none) {arg : String} {c : Char} {cs : List Char}
    (harg : arg.toList = '-' :: c :: cs) (hc : c ≠ '-') : r.step arg = r.letters (c :: cs) := by
  simp [step, hdirect.2.2, hplain, hpending, harg, hc]

/-- So is an argument with a long name. -/
theorem step_of_word (hdirect : r.IsDirect) (hplain : r.plain = false)
    (hpending : r.pending = none) {arg : String} {c : Char} {cs : List Char}
    (harg : arg.toList = '-' :: '-' :: c :: cs) :
    r.step arg =
      match (c :: cs).span (· ≠ '=') with
      | (name, []) => r.long (String.ofList name) none
      | (name, _ :: v) => r.long (String.ofList name) (some (String.ofList v)) := by
  simp only [step, hdirect.2.2, hplain, hpending, harg]
  rfl

/-- Where the value of an option is due, an argument that does not look like an option is it. -/
theorem step_of_due (hdirect : r.IsDirect) (hplain : r.plain = false) (key : Key) {arg : String}
    (harg : looksLikeOption arg = false) :
    { r with pending := some key }.step arg = { r with pending := some key }.due key arg := by
  have hdash : ∀ c cs, arg.toList ≠ '-' :: c :: cs := by
    intro c cs h
    rw [looksLikeOption, h] at harg
    cases harg
  unfold step
  simp only [hdirect.2.2, hplain, Bool.false_and, Bool.or_self, Bool.false_eq_true, if_false]
  split
  · rename_i h
    exact absurd h (hdash _ _)
  · rename_i h
    exact absurd h (hdash _ _)
  · rename_i h
    exact absurd h (hdash _ _)
  · rfl

/-- An argument that is not `help` is read by a step. -/
theorem run_singleton {arg : String} (harg : r.asksHelp arg = false) :
    r.run [arg] = r.step arg := by
  simp only [run, harg, Bool.false_eq_true, if_false]
  cases r.step arg <;> rfl

/-- An option and its value are read by two steps. -/
theorem run_pair {arg v : String} {r' : Reading} (harg : r.asksHelp arg = false)
    (hstep : r.step arg = .ok r') (hv : r'.asksHelp v = false) : r.run [arg, v] = r'.step v := by
  simp only [run, harg, hstep, hv, Bool.false_eq_true, if_false]
  cases r'.step v <;> rfl

/-- The letter of the output option with its value attached. -/
theorem step_attached (hdirect : r.IsDirect) (hplain : r.plain = false)
    (hpending : r.pending = none) (hfile : file ≠ "") {arg : String} {cs : List Char}
    (harg : arg.toList = '-' :: 'o' :: cs)
    (hcs : cs = '=' :: file.toList ∨ cs = file.toList ∧ cs.head? ≠ some '=') :
    r.step arg = .ok (r.withFile file) := by
  have hvalue := value_output hdirect hfile hpending r.pending
  rw [step_of_letters hdirect hplain hpending harg (by decide)]
  have hletter : Key.ofLetter? 'o' = some .output := rfl
  have hallows : r.allows .output = true := by simp [allows]
  have htakes : Key.output.takesValue = true := rfl
  simp only [letters, hletter, hallows, htakes, if_true]
  rcases hcs with rfl | ⟨rfl, hsign⟩
  · simp only [String.ofList_toList]
    exact hvalue
  · split
    · rename_i hnil
      exact absurd (String.toList_eq_nil_iff.mp hnil) hfile
    · rename_i v hv
      rw [hv] at hsign
      exact absurd rfl hsign
    · rw [String.ofList_toList]
      exact hvalue

/-- Where options are taken, every way of naming the output file is read as that. -/
theorem run_namesOutput (hdirect : r.IsDirect) (hplain : r.plain = false)
    (hpending : r.pending = none) (hfile : file ≠ "") {option : List String}
    (hoption : NamesOutput file option) : r.run option = .ok (r.withFile file) := by
  have hdue : { r with pending := some .output }.due .output file = .ok (r.withFile file) := by
    rw [due, value_output hdirect hfile hpending (some .output)]
  -- what begins with a dash is not the help command
  have hhelp : ∀ arg : String, arg.toList.head? = some '-' → r.asksHelp arg = false := by
    intro arg harg
    have hne : arg ≠ "help" := by
      rintro rfl
      exact absurd harg (by decide)
    simp [asksHelp, hne]
  have hwaiting : { r with pending := some .output }.asksHelp file = false := by
    simp [asksHelp]
  cases hoption with
  | letter hlooks =>
    have harg : "-o".toList = '-' :: 'o' :: [] := rfl
    have hstep : r.step "-o" = .ok { r with pending := some .output } :=
      step_of_letters hdirect hplain hpending harg (by decide)
    rw [run_pair (hhelp _ rfl) hstep hwaiting, step_of_due hdirect hplain .output hlooks, hdue]
  | letterAttached hsign =>
    have harg : ("-o" ++ file).toList = '-' :: 'o' :: file.toList := by
      rw [String.toList_append]
      rfl
    rw [run_singleton (hhelp _ (by rw [harg]; rfl))]
    exact step_attached hdirect hplain hpending hfile harg (.inr ⟨rfl, hsign⟩)
  | letterSign =>
    have harg : ("-o=" ++ file).toList = '-' :: 'o' :: '=' :: file.toList := by
      rw [String.toList_append]
      rfl
    rw [run_singleton (hhelp _ (by rw [harg]; rfl))]
    exact step_attached hdirect hplain hpending hfile harg (.inl rfl)
  | word hlooks =>
    have harg : "--output".toList = '-' :: '-' :: 'o' :: "utput".toList := rfl
    have hstep : r.step "--output" = .ok { r with pending := some .output } :=
      step_of_word hdirect hplain hpending harg
    rw [run_pair (hhelp _ rfl) hstep hwaiting, step_of_due hdirect hplain .output hlooks, hdue]
  | wordSign =>
    have harg : ("--output=" ++ file).toList =
        '-' :: '-' :: 'o' :: ("utput".toList ++ '=' :: file.toList) := by
      rw [String.toList_append]
      rfl
    have hspan : ('o' :: ("utput".toList ++ '=' :: file.toList)).span (· ≠ '=') =
        ("output".toList, '=' :: file.toList) := rfl
    have hallows : r.allows .output = true := by simp [allows]
    have hvalue := value_output hdirect hfile hpending r.pending
    rw [run_singleton (hhelp _ (by rw [harg]; rfl)), step_of_word hdirect hplain hpending harg,
      hspan]
    simp only [String.ofList_toList, long, Key.ofLong?, hallows, Key.takesValue, if_true]
    exact hvalue

/-! ## Reading on after the option -/

/-- Arguments are read one after the other. -/
theorem run_append {r' : Reading} {before : List String} (h : r.run before = .ok r')
    (after : List String) : r.run (before ++ after) = r'.run after := by
  induction before generalizing r with
  | nil =>
    cases h
    rfl
  | cons arg before ih =>
    by_cases hhelp : r.asksHelp arg
    · simp [run, hhelp] at h
    · simp only [run, List.cons_append, if_neg hhelp] at h ⊢
      cases hstep : r.step arg with
      | error e =>
        rw [hstep] at h
        cases h
      | ok r₁ =>
        rw [hstep] at h
        exact ih h

/-- What is to be run is found alike with other output files, and names one if they do. -/
theorem finish_withOutputs {i : Invocation} (h : r.finish = .ok i) (outer inner : Option String) :
    (r.withOutputs outer inner).finish =
      .ok { i with given := i.given.withOutput (inner <|> outer) } := by
  unfold finish at h ⊢
  split at h
  · cases h
  · rename_i hfine
    have hfine' : ¬ ((r.withOutputs outer inner).pending.isSome ||
        (r.withOutputs outer inner).late || (r.withOutputs outer inner).outer.isContradictory ||
        (r.withOutputs outer inner).inner.isContradictory) := hfine
    rw [if_neg hfine']
    have haction : (r.withOutputs outer inner).command.bind
        (action? · (r.withOutputs outer inner).operands) = r.command.bind (action? · r.operands) :=
      rfl
    rw [haction]
    cases hcommand : r.command.bind (action? · r.operands) with
    | none =>
      rw [hcommand] at h
      cases h
    | some action =>
      rw [hcommand] at h
      cases h
      rfl

/-- Where what is to be run names no output file, none was read. -/
theorem isDirect_of_finish {i : Invocation} (h : r.finish = .ok i)
    (hdirect : i.given.output = none) : r.IsDirect := by
  unfold finish at h
  split at h
  · cases h
  · rename_i hfine
    have hlate : r.late = false := by
      simp only [Bool.or_eq_true, not_or, Bool.not_eq_true] at hfine
      exact hfine.1.1.2
    cases hcommand : r.command.bind (action? · r.operands) with
    | none =>
      rw [hcommand] at h
      cases h
    | some action =>
      rw [hcommand] at h
      cases h
      have hmerge : (r.inner.output <|> r.outer.output) = none := hdirect
      unfold IsDirect
      cases hinner : r.inner.output with
      | none =>
        rw [hinner] at hmerge
        exact ⟨hmerge, rfl, hlate⟩
      | some file =>
        rw [hinner] at hmerge
        cases hmerge

end Reading

/-- Naming an output file where none is named changes nothing else of what is read. -/
theorem parse_insert_output {before after : List String} {i : Invocation}
    (h : parse (before ++ after) = .ok i) (hdirect : i.given.output = none)
    (hbefore : Reading.TakesOptions before) {file : String} (hfile : file ≠ "")
    {option : List String} (hoption : NamesOutput file option) :
    parse (before ++ option ++ after) =
      .ok { i with given := i.given.withOutput (some file) } := by
  obtain ⟨r, hr, hpending, hplain⟩ := hbefore
  unfold parse at h ⊢
  rw [Reading.run_append hr] at h
  cases hafter : r.run after with
  | error e =>
    rw [hafter] at h
    cases h
  | ok r' =>
    rw [hafter] at h
    obtain ⟨hr', hwith⟩ :=
      Reading.overlooks_run after r r' hafter (Reading.isDirect_of_finish h hdirect)
    obtain ⟨outer, inner, hfileEq, hnamed⟩ := Reading.exists_withOutputs_eq_withFile hr' file
    have hnaming : r.run option = .ok (r.withOutputs outer inner) := by
      rw [Reading.run_namesOutput hr' hplain hpending hfile hoption, hfileEq]
    have hafter' : (r.withOutputs outer inner).run after = .ok (r'.withOutputs outer inner) :=
      hwith outer inner
    rw [List.append_assoc, Reading.run_append hr, Reading.run_append hnaming, hafter']
    simp only [Reading.finish_withOutputs h, hnamed]

end Kconfig.CommandLine
