import ScriptLang.Cli.Files
import ScriptLang.Cli.Options
import ScriptLang.Grammar.Machine
import ScriptLang.Json.Printer
import ScriptLang.Json.Reader
import ScriptLang.Log
import ScriptLang.Run.Session

/-!
# The command

What the command does with its arguments and the files it sees: list the tokens of a source, store
its tree, run a stored tree, or run a source.

## Main Definitions

* `Exit`, `Report`: how the command ends, what it prints, and the files it leaves.
* `listTokens`, `storeTree`, `runStored`, `runSource`: the four modes.
* `Options.execute`: the mode that the options ask for.
* `command`: the whole command.

## Design Notes

The command is a function of its arguments and files. It is also given the limits that its stages
work within and the `fuel` of a run. Errors in a program end it with status 1 and a line on standard
error for each. A stored tree that cannot be loaded, or that holds nodes where they do not belong,
ends it abnormally, and so does a run without a rule for truth.
-/

namespace ScriptLang.Cli

/-! ### Reports -/

/-- Why the command ends abnormally. -/
inductive Crash where
  /-- The stored tree cannot be read as a document. -/
  | unreadable (fault : Json.Fault)
  /-- The document describes no tree. -/
  | load (error : LoadError)
  /-- There is no rule for truth to run by. -/
  | noTruthiness
  /-- The document describes nothing that can be run. -/
  | notRunnable
  /-- The run stopped at a node that cannot be run. -/
  | run (failure : Failure)
  /-- The run did not end. -/
  | unfinished

/-- What is said of an abnormal end, for the causes that have something to say. -/
def Crash.message? : Crash → Option String
  | unreadable fault => fault.message?
  | load error => error.message?
  | noTruthiness => some Truthiness.unnamedMessage
  | notRunnable => none
  | run _ => none
  | unfinished => none

/-- How the command ends. -/
inductive Exit where
  | code (n : Nat)
  | crash (cause : Crash)

/-- How the command ends, what it prints, and the files it leaves. -/
structure Report where
  exit : Exit := .code 0
  out : String := ""
  err : String := ""
  files : Files

/-! ### Parts of the modes -/

/-- The log of a run: with high verbosity it keeps everything. -/
def Options.log (options : Options) : Log :=
  { threshold := if 3 ≤ options.verbosity then .debug else .warning }

/-- The text of a source or document file. -/
def readText? (files : Files) (path : Path) : Option String :=
  (files.read? path).map fun contents => String.ofList (unifyNewlines contents.toList)

/-- The report for a file that is not there. -/
def notFound (files : Files) (path : Path) : Report :=
  { exit := .code 1, err := "Error: file " ++ path.text ++ " not found\n", files }

/-- The lines of the log for diagnostics. -/
def Options.errors (options : Options) (ds : List Diagnostic) : String :=
  String.join (ds.map fun d => options.log.write .error d.text)

/-- The line of the log for a tree that is nested too deeply. -/
def Options.nestingError (options : Options) : String :=
  options.log.write .error "Error: program is nested too deeply"

/-- The program that a source is, by the parser that the options ask for, or the diagnostics; in
both cases with what the log holds so far. -/
def Options.load (options : Options) (limit : Nat) (source : String) :
    String × Except (List Diagnostic) (List Stmt) :=
  if options.grammar then
    match Grammar.parseWithGrammar limit source with
    | .error e => ("", .error [e.diagnostic])
    | .ok program => ("", .ok program)
  else
    match scan source with
    | .error e => ("", .error [e.diagnostic])
    | .ok scanned =>
      let logged := options.errors (scanned.recovered.toList.map ScanError.diagnostic)
      match Parse.parse limit scanned.tokens with
      | .ok program => (logged, .ok program)
      | .error .ranOff => (logged, .error [])
      | .error (.rejected first more) =>
        (logged, .error ((first :: more).map Parse.Blame.diagnostic))

/-- The file that a trace is written to. -/
def traceName : Path := Path.ofText "debug.txt"

/-- Runs statements by a rule for truth, the log holding `logged` already. -/
def Options.run (options : Options) (limit fuel : Nat) (files : Files) (logged : String)
    (truthiness : Truthiness) (program : List Stmt) : Report :=
  let config : Config := { truthiness, level := options.verbosity, limit }
  let fresh := Session.fresh config .file (files.read? traceName)
  let (session, ending) := fresh.run fuel program
  let files := match session.outside.file.contents with
    | some trace => files.write traceName trace
    | none => files
  let out := session.outside.out
  match ending with
  | .completed => { out, err := logged, files }
  | .unfinished => { exit := .crash .unfinished, out, err := logged, files }
  | .failed failure =>
    match failure.diagnostic? with
    | some d => { exit := .code 1, out, err := logged ++ options.errors [d], files }
    | none => { exit := .crash (.run failure), out, err := logged, files }

/-! ### The modes -/

/-- Lists the tokens of a source. -/
def Options.listTokens (options : Options) (files : Files) (name : String) : Report :=
  let path := Path.ofText name
  match readText? files path with
  | none => notFound files path
  | some source =>
    match scan source with
    | .error e => { exit := .code 1, err := options.errors [e.diagnostic], files }
    | .ok scanned =>
      { out := String.join (scanned.tokens.map fun token => token.text ++ "\n")
        err := options.errors (scanned.recovered.toList.map ScanError.diagnostic)
        files }

/-- Stores the tree of a source beside it. -/
def Options.storeTree (options : Options) (limit : Nat) (files : Files) (name : String) : Report :=
  let path := Path.ofText name
  match readText? files path with
  | none => notFound files path
  | some source =>
    match options.load limit source with
    | (logged, .error ds) => { exit := .code 1, err := logged ++ options.errors ds, files }
    | (logged, .ok program) =>
      match (Document.program program).store limit with
      | none => { exit := .code 1, err := logged ++ options.nestingError, files }
      | some document =>
        let target := path.append ".ast.json"
        { out := target.text ++ "\n", err := logged, files := files.write target document.write }

/-- Runs a stored tree. -/
def Options.runStored (options : Options) (limits : Limits) (fuel : Nat) (files : Files)
    (name : String) : Report :=
  let path := Path.ofText name
  let tooDeep : Report := { exit := .code 1, err := options.nestingError, files }
  match readText? files path with
  | none => notFound files path
  | some text =>
    match Json.read limits text with
    | .error .tooDeep => tooDeep
    | .error fault => { exit := .crash (.unreadable fault), files }
    | .ok json =>
      match Document.load limits.nesting json with
      | .error .tooDeep => tooDeep
      | .error e => { exit := .crash (.load e), files }
      | .ok document =>
        match options.truthiness, document.stmts? with
        | none, _ => { exit := .crash .noTruthiness, files }
        | some _, none => { exit := .crash .notRunnable, files }
        | some truthiness, some program =>
          options.run limits.nesting fuel files "" truthiness program

/-- Runs a source. -/
def Options.runSource (options : Options) (limit fuel : Nat) (files : Files) (name : String) :
    Report :=
  let path := Path.ofText name
  match readText? files path with
  | none => notFound files path
  | some source =>
    match options.load limit source with
    | (logged, .error ds) => { exit := .code 1, err := logged ++ options.errors ds, files }
    | (logged, .ok program) =>
      let size := options.log.write .debug
        ("parsed " ++ Number.wholeText program.length ++ " top-level statements from " ++ name)
      match options.truthiness with
      | none => { exit := .crash .noTruthiness, err := logged ++ size, files }
      | some truthiness => options.run limit fuel files (logged ++ size) truthiness program

/-- The file that the options ask to work on. An empty name counts as none. -/
def Options.input (options : Options) : Option Flag × String :=
  match options.mode with
  | some (flag, name) =>
    if name = "" then (none, options.program.getD defaultProgram) else (some flag, name)
  | none => (none, options.program.getD defaultProgram)

/-- Does what the options ask for. -/
def Options.execute (options : Options) (limits : Limits) (fuel : Nat) (files : Files) : Report :=
  match options.input with
  | (some .tokens, name) => options.listTokens files name
  | (some .emitAst, name) => options.storeTree limits.nesting files name
  | (some .ast, name) => options.runStored limits fuel files name
  | (_, name) => options.runSource limits.nesting fuel files name

/-- The command with its arguments. -/
def command (limits : Limits) (fuel : Nat) (arguments : List String) (files : Files) : Report :=
  match readOptions arguments with
  | .error .help => { out := help, files }
  | .error (.misuse message) => { exit := .code 2, err := misuseText message, files }
  | .ok options => options.execute limits fuel files

end ScriptLang.Cli
