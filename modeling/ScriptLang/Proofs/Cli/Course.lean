import ScriptLang.Proofs.Cli.StoredRun
import ScriptLang.Proofs.Diagnostic.Line
import ScriptLang.Proofs.Run.Refines

/-!
# The course of a command

A command that works on a source runs it, stores its tree or lists its tokens. It goes one of a few
ways: the source is refused, or it is loaded and the task is done, or its run fails. This module
relates each way to the errors that are reported on it, and these to the exit of the command.

Two kinds of error are reported. One is raised and ends the command. The other is recovered from by
the scanner, which says what the source leaves open and goes on.

## Main Definitions

* `Task`: what is done with a source; `AsksFor`: the arguments ask for it.
* `Refused`: a source that is no program, with the reports on it.
* `Runs`: the run of a source and its result; `TooDeepToStore`: a tree that is not stored.
* `Course`: the ways that end, with the errors recovered from and the errors raised.

## Main Statements

* `course_or`: every command goes one of the ways, or its run does not end.
* `command_of_course`: exit and standard error of each way.
* `command_fails_cleanly`: the exit of a command, and what a failing one leaves.
* `exit_follows_raised_errors`: which errors decide the exit.
-/

namespace ScriptLang.Cli

/-! ### Tasks -/

/-- What is done with a source. -/
inductive Task where
  | run
  | store
  | list
deriving DecidableEq

namespace Task

/-- The option that asks for the task. Sources are run unless another one is asked for. -/
def flag? : Task → Option Flag
  | run => none
  | store => some .emitAst
  | list => some .tokens

/-- The arguments that ask for the task. -/
def arguments (task : Task) (name : String) : List String :=
  match task with
  | run => [name]
  | store => ["--emit-ast", name]
  | list => ["--tokens", name]

/-- Does the task with a file. -/
def perform (task : Task) (options : Options) (limit fuel : Nat) (files : Files) (name : String) :
    Report :=
  match task with
  | run => options.runSource limit fuel files name
  | store => options.storeTree limit files name
  | list => options.listTokens files name

/-- Does the scanner read the source? The reference grammar reads characters, but tokens are listed
by the scanner in any case. -/
def Scans (task : Task) (grammar : Bool) : Prop := task = .list ∨ grammar = false

instance (task : Task) (grammar : Bool) : Decidable (task.Scans grammar) :=
  inferInstanceAs (Decidable (_ ∨ _))

end Task

/-- The arguments are options that name a rule for truth and ask for the task, and the file that it
is about is there. -/
structure AsksFor (arguments : List String) (files : Files) (task : Task) (options : Options)
    (rule : Truthiness) (name source : String) : Prop where
  options_eq : readOptions arguments = .ok options
  rule_eq : options.truthiness = some rule
  input_eq : options.input = (task.flag?, name)
  read_eq : readText? files (Path.ofText name) = some source

/-- The options in front of a task ask for it, whatever the verbosity, the rule and the parser. -/
theorem asksFor_arguments {files : Files} {name source : String}
    (hname : classify name = .ok (.plain name)) (hne : name ≠ "")
    (hread : readText? files (Path.ofText name) = some source) (task : Task) (verbosity : Nat)
    (rule : Option Truthiness) (grammar : Bool) :
    ∃ options, options.grammar = grammar ∧ options.verbosity = verbosity ∧
      AsksFor (optionArguments verbosity rule grammar ++ task.arguments name) files task options
        (rule.getD .legacy) name source := by
  have hstore : classify "--emit-ast" = .ok (.flag .emitAst "--emit-ast" none) := rfl
  have hlist : classify "--tokens" = .ok (.flag .tokens "--tokens" none) := rfl
  cases task with
  | run =>
      exact ⟨_, rfl, rfl, readOptions_program verbosity rule grammar hname, rfl, rfl, hread⟩
  | store =>
      exact ⟨_, rfl, rfl, readOptions_mode verbosity rule grammar rfl hstore hname, rfl,
        if_neg hne, hread⟩
  | list =>
      exact ⟨_, rfl, rfl, readOptions_mode verbosity rule grammar rfl hlist hname, rfl,
        if_neg hne, hread⟩

/-! ### Error lines -/

/-- The line for an error, in red. -/
def errorLine (d : Diagnostic) : String :=
  "\x1b[31m" ++ d.text ++ "\x1b[0m" ++ "\n"

/-- The lines for errors, one for each in their order. -/
def errorLines (ds : List Diagnostic) : String :=
  String.join (ds.map errorLine)

@[simp] theorem errorLines_nil : errorLines [] = "" := rfl

/-- The reports on what a scan recovers from. -/
def reportsOn (recovered : Option ScanError) : List Diagnostic :=
  recovered.toList.map ScanError.diagnostic

/-- No verbosity keeps errors back. -/
theorem errors_eq (options : Options) (ds : List Diagnostic) :
    options.errors ds = errorLines ds := by
  have hkept : options.log.threshold.rank ≤ Severity.error.rank := by
    unfold Options.log
    dsimp only
    split <;> decide
  have hline : ∀ d : Diagnostic, options.log.write .error d.text = errorLine d := by
    intro d
    rw [Log.write, if_pos hkept]
    rfl
  rw [Options.errors, errorLines]
  simp only [hline]

/-! ### The ways of a command -/

/-- The source is refused: the scan has recovered from the first errors, and the others, in their
order, say why it is no list of tokens or no program. -/
inductive Refused (task : Task) (grammar : Bool) (limit : Nat) (source : String) :
    List Diagnostic → List Diagnostic → Prop where
  | scan {e : ScanError} (htask : task.Scans grammar) (h : ScriptLang.scan source = .error e) :
      Refused task grammar limit source [] [e.diagnostic]
  | parse {scanned : Scan} {first : Parse.Blame} {more : List Parse.Blame} (htask : task ≠ .list)
      (hgrammar : grammar = false) (hscan : ScriptLang.scan source = .ok scanned)
      (h : Parse.parse limit scanned.tokens = .error (.rejected first more)) :
      Refused task grammar limit source (reportsOn scanned.recovered)
        ((first :: more).map Parse.Blame.diagnostic)
  | grammar {e : Grammar.GrammarError} (htask : task ≠ .list) (hgrammar : grammar = true)
      (h : Grammar.parseWithGrammar limit source = .error e) :
      Refused task grammar limit source [] [e.diagnostic]

/-- The source is run, and the run of its program comes to this. -/
structure Runs (task : Task) (options : Options) (rule : Truthiness) (limit fuel : Nat)
    (source : String) (loaded : Loaded) (result : Result Unit) : Prop where
  task_eq : task = .run
  load_eq : loadedBy options.grammar limit source = some loaded
  result_eq : interpret { truthiness := rule, level := options.verbosity, limit } fuel
    loaded.program State.initial = result

/-- The source is a program whose tree is nested too deeply to be stored. -/
def TooDeepToStore (task : Task) (grammar : Bool) (limit : Nat) (source : String) : Prop :=
  task = .store ∧ ∃ loaded, loadedBy grammar limit source = some loaded ∧
    limit < (Document.program loaded.program).height

/-- The ways of a command that end, nesting apart: what is recovered from, and what is raised. -/
inductive Course (task : Task) (options : Options) (rule : Truthiness) (limit fuel : Nat)
    (source : String) : List Diagnostic → List Diagnostic → Prop where
  | refused {recovered errors : List Diagnostic}
      (h : Refused task options.grammar limit source recovered errors) :
      Course task options rule limit fuel source recovered errors
  | listed {scanned : Scan} (htask : task = .list) (hscan : scan source = .ok scanned) :
      Course task options rule limit fuel source (reportsOn scanned.recovered) []
  | stored {loaded : Loaded} (htask : task = .store)
      (hload : loadedBy options.grammar limit source = some loaded)
      (hheight : (Document.program loaded.program).height ≤ limit) :
      Course task options rule limit fuel source (reportsOn loaded.recovered) []
  | completed {loaded : Loaded} {t : State}
      (h : Runs task options rule limit fuel source loaded (.done () t)) :
      Course task options rule limit fuel source (reportsOn loaded.recovered) []
  | failed {loaded : Loaded} {failure : Failure} {t : State} {d : Diagnostic}
      (h : Runs task options rule limit fuel source loaded (.failed failure t))
      (hd : failure.diagnostic? = some d) :
      Course task options rule limit fuel source (reportsOn loaded.recovered) [d]

section Ways

variable {task : Task} {options : Options} {rule : Truthiness} {limit fuel : Nat} {source : String}
  {recovered raised errors : List Diagnostic} {grammar : Bool}

theorem Refused.errors_ne_nil (h : Refused task grammar limit source recovered errors) :
    errors ≠ [] := by
  cases h <;> simp

/-- A source that is not refused is loaded, unless its tokens are all that is asked for. -/
theorem refused_or_loaded (htask : task ≠ .list) :
    (∃ recovered errors, Refused task grammar limit source recovered errors) ∨
      ∃ loaded, loadedBy grammar limit source = some loaded := by
  cases hgrammar : grammar with
  | true =>
      cases hparse : Grammar.parseWithGrammar limit source with
      | error e => exact .inl ⟨_, _, .grammar htask rfl hparse⟩
      | ok program =>
          refine .inr ⟨{ program, recovered := none }, ?_⟩
          rw [loadedBy, if_pos rfl, hparse]
          rfl
  | false =>
      cases hscan : scan source with
      | error e => exact .inl ⟨_, _, .scan (.inr rfl) hscan⟩
      | ok scanned =>
          cases hparse : Parse.parse limit scanned.tokens with
          | error failure =>
              obtain ⟨first, more, rfl, -⟩ := blames_tokens hscan hparse
              exact .inl ⟨_, _, .parse htask rfl hscan hparse⟩
          | ok program =>
              refine .inr ⟨{ program, recovered := scanned.recovered }, ?_⟩
              rw [loadedBy, if_neg (by decide), programOf, hscan]
              simp only [hparse]
              rfl

/-- A failure of a program that is loaded has a report. -/
theorem Runs.exists_report {loaded : Loaded} {failure : Failure} {t : State}
    (h : Runs task options rule limit fuel source loaded (.failed failure t)) :
    ∃ d, failure.diagnostic? = some d := by
  have hrun := satisfies_interpret
    { truthiness := rule, level := options.verbosity, limit } fuel
    (fromSource_of_loadedBy h.load_eq).known State.HoldsValues.initial
  rw [h.result_eq] at hrun
  rcases hrun.1 with ⟨d, hd, -⟩ | ⟨rfl, -⟩
  · exact ⟨d, hd⟩
  · exact ⟨_, rfl⟩

/-- **Every command goes one of the ways**, or its run does not end. -/
theorem course_or (task : Task) (options : Options) (rule : Truthiness) (limit fuel : Nat)
    (source : String) :
    (∃ recovered raised, Course task options rule limit fuel source recovered raised) ∨
      TooDeepToStore task options.grammar limit source ∨
      ∃ loaded, Runs task options rule limit fuel source loaded .unfinished := by
  by_cases hlist : task = .list
  · cases hscan : scan source with
    | error e => exact .inl ⟨_, _, .refused (.scan (.inl hlist) hscan)⟩
    | ok scanned => exact .inl ⟨_, _, .listed hlist hscan⟩
  have hloads : (∃ recovered errors,
      Refused task options.grammar limit source recovered errors) ∨ _ := refused_or_loaded hlist
  rcases hloads with ⟨recovered, errors, hrefused⟩ | ⟨loaded, hload⟩
  · exact .inl ⟨_, _, .refused hrefused⟩
  cases htask : task with
  | list => exact absurd htask hlist
  | store =>
      rcases Nat.lt_or_ge limit (Document.program loaded.program).height with hdeep | hheight
      · exact .inr (.inl ⟨rfl, loaded, hload, hdeep⟩)
      · exact .inl ⟨_, _, .stored rfl hload hheight⟩
  | run =>
      cases hrun : interpret { truthiness := rule, level := options.verbosity, limit } fuel
          loaded.program State.initial with
      | done value t => exact .inl ⟨_, _, .completed ⟨rfl, hload, hrun⟩⟩
      | failed failure t =>
          have hruns : Runs .run options rule limit fuel source loaded (.failed failure t) :=
            ⟨rfl, hload, hrun⟩
          obtain ⟨d, hd⟩ := hruns.exists_report
          exact .inl ⟨_, _, .failed hruns hd⟩
      | unfinished => exact .inr (.inr ⟨loaded, rfl, hload, hrun⟩)

end Ways

/-! ### The command on each way -/

section Command

variable {arguments : List String} {files : Files} {task : Task} {options : Options}
  {rule : Truthiness} {name source : String} {limits : Limits} {fuel : Nat}
  {recovered raised errors : List Diagnostic}

/-- What the arguments ask for is what is done. -/
theorem AsksFor.command_eq (h : AsksFor arguments files task options rule name source)
    (limits : Limits) (fuel : Nat) :
    command limits fuel arguments files = task.perform options limits.nesting fuel files name := by
  rw [command, h.options_eq]
  dsimp only
  rw [Options.execute, h.input_eq]
  cases task <;> rfl

theorem load_of_refused (htask : task ≠ .list)
    (h : Refused task options.grammar limits.nesting source recovered errors) :
    options.load limits.nesting source = (errorLines recovered, .error errors) := by
  cases h with
  | scan hscans h =>
      rw [Options.load, if_neg (by simp [hscans.resolve_left htask]), h]
      rfl
  | parse _ hgrammar hscan h =>
      rw [Options.load, if_neg (by simp [hgrammar]), hscan]
      simp only [h, errors_eq]
      rfl
  | grammar _ hgrammar h =>
      rw [Options.load, if_pos hgrammar, h]
      rfl

/-- **A source that is refused**: nothing is done, and every error has its line. -/
theorem command_of_refused (h : AsksFor arguments files task options rule name source)
    (hrefused : Refused task options.grammar limits.nesting source recovered errors) :
    command limits fuel arguments files =
      { exit := .code 1, err := errorLines recovered ++ errorLines errors, files } := by
  have hread := h.read_eq
  rw [h.command_eq]
  cases task with
  | list =>
      cases hrefused with
      | scan hscans hscan =>
          rw [Task.perform, Options.listTokens, hread]
          simp only [hscan, errors_eq, errorLines_nil, String.empty_append]
      | parse hlist | grammar hlist => exact absurd rfl hlist
  | run =>
      rw [Task.perform, Options.runSource, hread]
      simp only [load_of_refused (by decide) hrefused, errors_eq]
  | store =>
      rw [Task.perform, Options.storeTree, hread]
      simp only [load_of_refused (by decide) hrefused, errors_eq]

/-- A source whose tokens are listed. -/
theorem command_of_listed (h : AsksFor arguments files .list options rule name source)
    {scanned : Scan} (hscan : scan source = .ok scanned) :
    command limits fuel arguments files =
      { out := String.join (scanned.tokens.map fun token => token.text ++ "\n")
        err := errorLines (reportsOn scanned.recovered)
        files } := by
  rw [h.command_eq, Task.perform, Options.listTokens, h.read_eq]
  simp only [hscan, errors_eq, reportsOn]

/-- The run of a fresh session shows what its program prints, and ends as the program does. -/
theorem run_fresh {config : Config} {program : List Stmt} {result : Result Unit}
    (h : interpret config fuel program State.initial = result) (contents : Option String) :
    let ended := (Session.fresh config .file contents).run fuel program
    match result with
    | .done _ t => ended.2 = .completed ∧ ended.1.outside.out = printedBy t.effects
    | .failed failure t => ended.2 = .failed failure ∧ ended.1.outside.out = printedBy t.effects
    | .unfinished => ended.2 = .unfinished := by
  let session := Session.fresh config .file contents
  have hout (t : State) :
      { session with state := t }.flush.close.outside.out = printedBy t.effects := by
    have hshown := (Outside.out_applyAll (show session.outside.sink = .file from rfl) t.effects).2
    exact hshown.trans (String.empty_append ..)
  have hsession : ScriptLang.interpret session.config fuel program session.state = result := h
  cases result with
  | done value t =>
      rw [Session.run, Session.interpret_of_done hsession]
      exact ⟨rfl, hout t⟩
  | failed failure t =>
      rw [Session.run, Session.interpret_of_failed hsession]
      exact ⟨rfl, hout t⟩
  | unfinished =>
      rw [Session.run, Session.interpret_of_unfinished hsession]

/-- What a log holds that is no report on an error. -/
def IsNote (options : Options) (text : String) : Prop :=
  text = "" ∨ ∃ message, text = options.log.write .debug message

/-- **A source that is run**: what the program prints is shown, and its failure has its line. -/
theorem command_of_runs (h : AsksFor arguments files task options rule name source)
    {loaded : Loaded} {result : Result Unit}
    (hruns : Runs task options rule limits.nesting fuel source loaded result) :
    let report := command limits fuel arguments files
    match result with
    | .done _ t => report.exit = .code 0 ∧ report.out = printedBy t.effects ∧
      ∃ note, IsNote options note ∧ report.err = errorLines (reportsOn loaded.recovered) ++ note
    | .failed failure t => ∀ d, failure.diagnostic? = some d →
      report.exit = .code 1 ∧ report.out = printedBy t.effects ∧
        ∃ note, IsNote options note ∧
          report.err = errorLines (reportsOn loaded.recovered) ++ note ++ errorLine d
    | .unfinished => report.exit = .crash .unfinished := by
  obtain ⟨rfl, hload, hresult⟩ := hruns
  let config : Config := { truthiness := rule, level := options.verbosity, limit := limits.nesting }
  let ended := (Session.fresh config .file (files.read? traceName)).run fuel loaded.program
  let note := options.log.write .debug ("parsed " ++ Number.wholeText loaded.program.length
    ++ " top-level statements from " ++ name)
  have hnote : IsNote options note := .inr ⟨_, rfl⟩
  have hcommand : command limits fuel arguments files =
      { exit := exitOf ended.2, out := ended.1.outside.out
        err := errorLines (reportsOn loaded.recovered) ++ note ++ options.said ended.2
        files := filesAfter files ended.1 } := by
    rw [h.command_eq, Task.perform, runSource_of_loadedBy h.read_eq hload h.rule_eq, run_eq,
      errors_eq]
    rfl
  have hended := run_fresh hresult (files.read? traceName)
  dsimp only
  rw [hcommand]
  cases result with
  | done value t =>
      obtain ⟨hending, hout⟩ := hended
      refine ⟨congrArg exitOf hending, hout, note, hnote, ?_⟩
      exact (congrArg (_ ++ options.said ·) hending).trans (String.append_empty ..)
  | failed failure t =>
      obtain ⟨hending, hout⟩ := hended
      intro d hd
      have hexit : exitOf (.failed failure) = .code 1 := by rw [exitOf, hd]; rfl
      have hsaid : options.said (.failed failure) = errorLine d := by
        rw [Options.said, hd, errors_eq]
        exact String.empty_append ..
      refine ⟨(congrArg exitOf hending).trans hexit, hout, note, hnote, ?_⟩
      exact congrArg (_ ++ ·) ((congrArg options.said hending).trans hsaid)
  | unfinished => exact congrArg exitOf hended

/-- A source whose tree is stored. -/
theorem command_of_stored (h : AsksFor arguments files .store options rule name source)
    {loaded : Loaded} (hload : loadedBy options.grammar limits.nesting source = some loaded)
    (hheight : (Document.program loaded.program).height ≤ limits.nesting) :
    let target := (Path.ofText name).append ".ast.json"
    command limits fuel arguments files =
      { out := target.text ++ "\n"
        err := errorLines (reportsOn loaded.recovered)
        files := files.write target (Document.program loaded.program).toJson.write } := by
  dsimp only
  rw [h.command_eq, Task.perform, storeTree_of_loadedBy h.read_eq hload hheight, errors_eq]
  rfl

/-- A source whose tree is nested too deeply to be stored. -/
theorem exit_of_tooDeepToStore (h : AsksFor arguments files task options rule name source)
    (hdeep : TooDeepToStore task options.grammar limits.nesting source) :
    (command limits fuel arguments files).exit = .code 1 := by
  obtain ⟨rfl, loaded, hload, hheight⟩ := hdeep
  rw [h.command_eq, Task.perform, storeTree_of_lt_height h.read_eq hload hheight]

/-- **Exit and standard error of a command on each way.** It ends with status 1 if an error is
raised. Standard error has the errors that are recovered from, then those that are raised, and
between them a note for debugging at most. -/
theorem command_of_course (h : AsksFor arguments files task options rule name source)
    (hcourse : Course task options rule limits.nesting fuel source recovered raised) :
    let report := command limits fuel arguments files
    report.exit = .code (if raised = [] then 0 else 1) ∧
      ∃ note, IsNote options note ∧
        report.err = errorLines recovered ++ note ++ errorLines raised := by
  dsimp only
  cases hcourse with
  | refused hrefused =>
      rw [command_of_refused h hrefused]
      refine ⟨congrArg Exit.code (if_neg hrefused.errors_ne_nil).symm, "", .inl rfl, ?_⟩
      rw [String.append_empty]
  | listed htask hscan =>
      subst htask
      rw [command_of_listed h hscan]
      exact ⟨rfl, "", .inl rfl, by simp⟩
  | stored htask hload hheight =>
      subst htask
      rw [show command limits fuel arguments files = _ from command_of_stored h hload hheight]
      exact ⟨rfl, "", .inl rfl, by simp⟩
  | completed hruns =>
      obtain ⟨hexit, -, note, hnote, herr⟩ := command_of_runs h hruns
      exact ⟨hexit, note, hnote, by rw [herr]; simp⟩
  | failed hruns hd =>
      obtain ⟨hexit, -, note, hnote, herr⟩ := command_of_runs h hruns _ hd
      refine ⟨hexit, note, hnote, ?_⟩
      rw [herr]
      simp [errorLines]

/-! ### Clean failures -/

/-- **The command fails cleanly for every source**, whatever the task, the verbosity, the rule for
truth and the parser. It ends with status 0 or 1, or goes on with a run that does not end. The
status is 1 exactly if the source is refused, its run fails, or its tree is nested too deeply to be
stored. If the source is refused, nothing is shown and no file is touched, and standard error has
each error once, in order, behind what the scan recovers from. If the run fails, what it printed
before is what is shown, and standard error ends with its report. -/
theorem command_fails_cleanly (h : AsksFor arguments files task options rule name source)
    (limits : Limits) (fuel : Nat) :
    let report := command limits fuel arguments files
    (report.exit = .code 0 ∨ report.exit = .code 1 ∨
      report.exit = .crash .unfinished ∧
        ∃ loaded, Runs task options rule limits.nesting fuel source loaded .unfinished) ∧
    (report.exit = .code 1 ↔
      (∃ recovered errors,
        Refused task options.grammar limits.nesting source recovered errors) ∨
      (∃ loaded failure t,
        Runs task options rule limits.nesting fuel source loaded (.failed failure t)) ∨
      TooDeepToStore task options.grammar limits.nesting source) ∧
    (∀ recovered errors, Refused task options.grammar limits.nesting source recovered errors →
      report.out = "" ∧ report.files = files ∧ errors ≠ [] ∧
        report.err = errorLines recovered ++ errorLines errors) ∧
    ∀ loaded failure t,
      Runs task options rule limits.nesting fuel source loaded (.failed failure t) →
        report.out = printedBy t.effects ∧ ∃ d before, failure.diagnostic? = some d ∧
          report.err = before ++ errorLine d := by
  dsimp only
  have hcases := course_or task options rule limits.nesting fuel source
  refine ⟨?_, ⟨?_, ?_⟩, ?_, ?_⟩
  · rcases hcases with ⟨recovered, raised, hcourse⟩ | hdeep | ⟨loaded, hruns⟩
    · have hexit := (command_of_course h hcourse).1
      split at hexit
      · exact .inl hexit
      · exact .inr (.inl hexit)
    · exact .inr (.inl (exit_of_tooDeepToStore h hdeep))
    · exact .inr (.inr ⟨command_of_runs h hruns, loaded, hruns⟩)
  · intro hexit
    rcases hcases with ⟨recovered, raised, hcourse⟩ | hdeep | ⟨loaded, hruns⟩
    · have hraised := (command_of_course h hcourse).1
      rw [hexit] at hraised
      -- The ways on which nothing is raised end with status 0.
      cases hcourse with
      | refused hrefused => exact .inl ⟨_, _, hrefused⟩
      | failed hruns hd => exact .inr (.inl ⟨_, _, _, hruns⟩)
      | listed | stored | completed => cases hraised
    · exact .inr (.inr hdeep)
    · have hunfinished := command_of_runs h hruns
      rw [show (command limits fuel arguments files).exit = _ from hunfinished] at hexit
      cases hexit
  · rintro (⟨recovered, errors, hrefused⟩ | ⟨loaded, failure, t, hruns⟩ | hdeep)
    · rw [command_of_refused h hrefused]
    · obtain ⟨d, hd⟩ := hruns.exists_report
      exact (command_of_runs h hruns d hd).1
    · exact exit_of_tooDeepToStore h hdeep
  · intro recovered errors hrefused
    rw [command_of_refused h hrefused]
    exact ⟨rfl, rfl, hrefused.errors_ne_nil, rfl⟩
  · intro loaded failure t hruns
    obtain ⟨d, hd⟩ := hruns.exists_report
    obtain ⟨-, hout, note, -, herr⟩ := command_of_runs h hruns d hd
    exact ⟨hout, d, _, hd, herr⟩

/-- A source that prints on its first line and fails on its second. -/
def failingSource : String :=
  "print true;\nprint a;"

/-- The program that it is. -/
def failingLoaded : Loaded :=
  { program := [.print (.literal (.bool true)),
      .print (.ref { kind := .identifier, lexeme := .str "a", line := .int 2 })]
    recovered := none }

/-- What it printed before it failed is shown. -/
theorem command_fails_cleanly_failingSource :
    ∃ options,
      AsksFor (optionArguments 0 (some .standard) false ++ Task.run.arguments "p.rox")
        [("p.rox", failingSource)] .run options .standard "p.rox" failingSource ∧
      let report := command { nesting := 9, digits := 9 } 9
        (optionArguments 0 (some .standard) false ++ Task.run.arguments "p.rox")
        [("p.rox", failingSource)]
      report.exit = .code 1 ∧ report.out = "true\n" ∧ ∃ before, report.err = before ++ errorLine
        { stage := .run "NameError", line := .int 2
          message := "Cannot find the variable 'a' in the scope" } := by
  have hname : classify "p.rox" = .ok (.plain "p.rox") := rfl
  have hread : readText? [("p.rox", failingSource)] (Path.ofText "p.rox") = some failingSource :=
    rfl
  obtain ⟨options, hgrammar, hverbosity, hasks⟩ :=
    asksFor_arguments hname (by decide) hread .run 0 (some .standard) false
  have hload : loadedBy false 9 failingSource = some failingLoaded := by
    cbv
  have hfails : interpret { truthiness := .standard, level := 0, limit := 9 } 9
      failingLoaded.program State.initial =
        .failed (.undefined (.str "a") (.int 2))
          { State.initial with effects := [.printed "true"] } := by
    cbv
  have hruns : Runs .run options .standard 9 9 failingSource failingLoaded
      (.failed (.undefined (.str "a") (.int 2))
        { State.initial with effects := [.printed "true"] }) :=
    ⟨rfl, by rw [hgrammar, hload], by rw [hverbosity]; exact hfails⟩
  obtain ⟨-, hexit, -, hrun⟩ := command_fails_cleanly hasks { nesting := 9, digits := 9 } 9
  obtain ⟨hout, d, before, hd, herr⟩ := hrun _ _ _ hruns
  cases hd
  refine ⟨options, hasks, hexit.2 (.inr (.inl ⟨_, _, _, hruns⟩)), hout, before, herr⟩

/-! ### Errors and the exit -/

/-- What the scanner recovers from, if it is asked for and comes to the end. -/
def Task.leftOpen (task : Task) (grammar : Bool) (source : String) : Option ScanError :=
  if task.Scans grammar then (scan source).toOption.bind Scan.recovered else none

theorem recovered_of_loadedBy (task : Task) (htask : task ≠ .list) {loaded : Loaded}
    {grammar : Bool} {limit : Nat} (hload : loadedBy grammar limit source = some loaded) :
    loaded.recovered = task.leftOpen grammar source := by
  cases grammar with
  | true =>
      rw [loadedBy, if_pos rfl] at hload
      obtain ⟨program, -, rfl⟩ := Option.map_eq_some_iff.1 hload
      rw [Task.leftOpen, if_neg (by simp [Task.Scans, htask])]
  | false =>
      rw [loadedBy, if_neg (by decide), programOf] at hload
      rw [Task.leftOpen, if_pos (.inr rfl)]
      cases hscan : scan source with
      | error e => simp [hscan, Except.toOption] at hload
      | ok scanned =>
          simp only [hscan] at hload
          cases hparse : Parse.parse limit scanned.tokens with
          | error failure => simp [hparse, Except.toOption] at hload
          | ok program =>
              simp only [hparse, Except.toOption, Option.some.injEq] at hload
              rw [← hload]
              rfl

/-- **What is recovered from** on any way is what the scanner leaves open. -/
theorem recovered_of_course {limit : Nat}
    (hcourse : Course task options rule limit fuel source recovered raised) :
    recovered = reportsOn (task.leftOpen options.grammar source) := by
  cases hcourse with
  | refused hrefused =>
      cases hrefused with
      | scan hscans hscan =>
          rw [Task.leftOpen, if_pos hscans, hscan]
          rfl
      | parse htask hgrammar hscan _ =>
          rw [Task.leftOpen, if_pos (.inr hgrammar), hscan]
          rfl
      | grammar htask hgrammar _ =>
          rw [Task.leftOpen, if_neg (by simp [Task.Scans, htask, hgrammar])]
          rfl
  | listed htask hscan =>
      rw [Task.leftOpen, if_pos (.inl htask), hscan]
      rfl
  | stored htask hload _ => rw [recovered_of_loadedBy task (by simp [htask]) hload]
  | completed hruns | failed hruns _ =>
      rw [recovered_of_loadedBy task (by simp [hruns.task_eq]) hruns.load_eq]

/-- **Only errors that are raised decide the exit.** Every command goes one of the ways, or its tree
is nested too deeply, or its run does not end. On each way standard error has the errors that the
scanner recovers from, then those that are raised, and a note for debugging at most. The command
ends with status 1 exactly if an error is raised, and with status 0 otherwise. So a reported error
makes the command fail unless it is one that the scanner recovers from and none is raised. -/
theorem exit_follows_raised_errors (h : AsksFor arguments files task options rule name source)
    (limits : Limits) (fuel : Nat) :
    let report := command limits fuel arguments files
    ((∃ recovered raised,
        Course task options rule limits.nesting fuel source recovered raised) ∨
      TooDeepToStore task options.grammar limits.nesting source ∧ report.exit = .code 1 ∨
      report.exit = .crash .unfinished) ∧
    ∀ recovered raised, Course task options rule limits.nesting fuel source recovered raised →
      recovered = reportsOn (task.leftOpen options.grammar source) ∧
      (∃ note, IsNote options note ∧
        report.err = errorLines recovered ++ note ++ errorLines raised) ∧
      report.exit = .code (if raised = [] then 0 else 1) ∧
      ((recovered ++ raised ≠ [] → report.exit = .code 1) ↔
        (raised = [] → task.leftOpen options.grammar source = none)) := by
  dsimp only
  refine ⟨?_, fun recovered raised hcourse => ?_⟩
  · rcases course_or task options rule limits.nesting fuel source with
      hcourse | hdeep | ⟨loaded, hruns⟩
    · exact .inl hcourse
    · exact .inr (.inl ⟨hdeep, exit_of_tooDeepToStore h hdeep⟩)
    · exact .inr (.inr (command_of_runs h hruns))
  · obtain ⟨hexit, hnote⟩ := command_of_course h hcourse
    have hrecovered := recovered_of_course hcourse
    refine ⟨hrecovered, hnote, hexit, ?_⟩
    rw [hexit, hrecovered]
    cases raised with
    | cons d ds => simp
    | nil => cases task.leftOpen options.grammar source <;> simp [reportsOn]

/-- A source that does what it should and leaves a comment open. -/
def unclosedSource : String :=
  "print nil; /* open"

/-- The comment is reported, and the command that runs the source does not fail. -/
theorem exit_follows_raised_errors_unclosedSource :
    ∃ options recovered,
      AsksFor (optionArguments 0 none false ++ Task.run.arguments "p.rox")
        [("p.rox", unclosedSource)] .run options .legacy "p.rox" unclosedSource ∧
      Course .run options .legacy 9 9 unclosedSource recovered [] ∧
      recovered = [ScanError.diagnostic { fault := .unterminatedComment, line := 1 }] ∧
      (command { nesting := 9, digits := 9 } 9
        (optionArguments 0 none false ++ Task.run.arguments "p.rox")
        [("p.rox", unclosedSource)]).exit = .code 0 := by
  have hname : classify "p.rox" = .ok (.plain "p.rox") := rfl
  have hread : readText? [("p.rox", unclosedSource)] (Path.ofText "p.rox") = some unclosedSource :=
    rfl
  obtain ⟨options, hgrammar, hverbosity, hasks⟩ :=
    asksFor_arguments hname (by decide) hread .run 0 none false
  have hload : loadedBy false 9 unclosedSource =
      some { program := [.print (.literal .null)]
             recovered := some { fault := .unterminatedComment, line := 1 } } := by
    cbv
  have hdone : interpret { truthiness := .legacy, level := 0, limit := 9 } 9
      [.print (.literal .null)] State.initial =
        .done () { State.initial with effects := [.printed "nil"] } := by
    cbv
  have hruns : Runs .run options .legacy 9 9 unclosedSource _
      (.done () { State.initial with effects := [.printed "nil"] }) :=
    ⟨rfl, by rw [hgrammar, hload], by rw [hverbosity]; exact hdone⟩
  obtain ⟨-, hways⟩ := exit_follows_raised_errors hasks { nesting := 9, digits := 9 } 9
  have hcourse := Course.completed hruns
  exact ⟨options, _, hasks, hcourse, rfl, (hways _ _ hcourse).2.2.1⟩

/-- **A reported error that does not make the command fail**, whichever the task. The reference
grammar refuses the same source with status 1. -/
theorem recovered_error_keeps_status :
    let files : Files := [("p.rox", unclosedSource)]
    let line := "\x1b[31mScanError at line 1: Unterminated block comment\x1b[0m\n"
    ((command .standard 9 ["p.rox"] files).err = line ∧
      (command .standard 9 ["p.rox"] files).exit = .code 0) ∧
    ((command .standard 9 ["--emit-ast", "p.rox"] files).err = line ∧
      (command .standard 9 ["--emit-ast", "p.rox"] files).exit = .code 0) ∧
    ((command .standard 9 ["--tokens", "p.rox"] files).err = line ∧
      (command .standard 9 ["--tokens", "p.rox"] files).exit = .code 0) ∧
    (command .standard 9 ["--grammar", "p.rox"] files).exit = .code 1 := by
  intro files line
  have hread : readText? files (Path.ofText "p.rox") = some unclosedSource := rfl
  have hload : loadedBy false Limits.standard.nesting unclosedSource =
      some { program := [.print (.literal .null)]
             recovered := some { fault := .unterminatedComment, line := 1 } } := by
    cbv
  refine ⟨?_, ?_, ?_, ?_⟩
  · have hasks : AsksFor ["p.rox"] files .run { program := some "p.rox" } .legacy "p.rox"
        unclosedSource := ⟨rfl, rfl, rfl, hread⟩
    have hruns : Runs .run { program := some "p.rox" } .legacy Limits.standard.nesting 9
        unclosedSource _ (.done () { State.initial with effects := [.printed "nil"] }) :=
      ⟨rfl, hload, rfl⟩
    obtain ⟨hexit, -, note, hnote, herr⟩ := command_of_runs hasks hruns
    -- At this verbosity the log keeps no notes.
    have hempty : note = "" := by
      obtain hnone | ⟨message, hmessage⟩ := hnote
      · exact hnone
      · exact hmessage
    exact ⟨by rw [herr, hempty]; rfl, hexit⟩
  · have hasks : AsksFor ["--emit-ast", "p.rox"] files .store { mode := some (.emitAst, "p.rox") }
        .legacy "p.rox" unclosedSource := ⟨rfl, rfl, rfl, hread⟩
    have hcommand : command .standard 9 ["--emit-ast", "p.rox"] files = _ :=
      command_of_stored hasks hload (by decide)
    exact ⟨congrArg Report.err hcommand, congrArg Report.exit hcommand⟩
  · have hasks : AsksFor ["--tokens", "p.rox"] files .list { mode := some (.tokens, "p.rox") }
        .legacy "p.rox" unclosedSource := ⟨rfl, rfl, rfl, hread⟩
    have hopen : (scan unclosedSource).toOption.bind Scan.recovered =
        some { fault := .unterminatedComment, line := 1 } := by
      cbv
    obtain ⟨scanned, hscanned, hrecovered⟩ := Option.bind_eq_some_iff.1 hopen
    have hscan : scan unclosedSource = .ok scanned := by
      cases hscan : scan unclosedSource with
      | error e => rw [hscan] at hscanned; cases hscanned
      | ok other => rw [hscan] at hscanned; cases hscanned; rfl
    have hcommand : command .standard 9 ["--tokens", "p.rox"] files = _ :=
      command_of_listed hasks hscan
    rw [hcommand, hrecovered]
    exact ⟨rfl, rfl⟩
  · have hasks : AsksFor ["--grammar", "p.rox"] files .run
        { grammar := true, program := some "p.rox" } .legacy "p.rox" unclosedSource :=
      ⟨rfl, rfl, rfl, hread⟩
    have hparse : Grammar.parseWithGrammar Limits.standard.nesting unclosedSource =
        .error (.unexpected ['/'] 1) := by
      cbv
    rw [command_of_refused hasks (.grammar (by decide) rfl hparse)]

end Command

end ScriptLang.Cli
