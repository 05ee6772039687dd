import ScriptLang.Cli.Command

/-!
# The program

Reads the files that the command works on, runs the command, and lets its report reach the console
and the disk.
-/

namespace ScriptLang.Main

/-- How long a run may go on. -/
def fuel : Nat := 1000000000000

/-- The contents of a file, if it is there. -/
def readFile? (path : Path) : IO (Option (String × String)) := do
  try
    return some (path.text, ← IO.FS.readFile path.text)
  catch _ =>
    return none

/-- The files that the arguments speak of. -/
def gather (arguments : List String) : IO Files := do
  match Cli.readOptions arguments with
  | .error _ => return []
  | .ok options =>
    let input ← readFile? (Path.ofText options.input.2)
    let trace ← readFile? Cli.traceName
    return input.toList ++ (trace.filter fun entry => input.map (·.1) != some entry.1).toList

/-- What is said of a command that ends abnormally. -/
def crashText (cause : Cli.Crash) : String :=
  let summary := match cause with
    | .unreadable _ => "the file cannot be read as a document"
    | .load _ => "the document describes no tree"
    | .noTruthiness => "there is no rule for truth"
    | .notRunnable => "the document describes no program"
    | .run _ => "the document holds a node that cannot be run"
    | .unfinished => "the run did not end"
  summary ++ String.join (cause.message?.toList.map (": " ++ ·))

end ScriptLang.Main

/-- The command line program. -/
def main (arguments : List String) : IO UInt32 := do
  let files ← ScriptLang.Main.gather arguments
  let report :=
    ScriptLang.Cli.command ScriptLang.Limits.standard ScriptLang.Main.fuel arguments files
  for (name, contents) in ScriptLang.Files.changes files report.files do
    IO.FS.writeFile name contents
  IO.print report.out
  IO.eprint report.err
  match report.exit with
  | .code n => return n.toUInt32
  | .crash cause =>
    IO.eprintln ("Error: " ++ ScriptLang.Main.crashText cause)
    return 1
