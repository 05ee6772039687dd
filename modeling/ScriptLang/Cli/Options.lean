import ScriptLang.Text.Digit
import ScriptLang.Value.Operation

/-!
# Command line options

How the arguments of the command are read. An option with a long name may be shortened as long as it
stays unambiguous, and may have its value attached by an equals sign; options of one letter may be
run together. Two dashes end the options.

## Main Definitions

* `Flag`: the options.
* `Argument`, `classify`: what an argument is, seen by itself.
* `Options`: what the arguments ask for.
* `readOptions`: the options, a call for help, or an error in the usage.

## Design Notes

All arguments are looked at first, and an ambiguous one is an error whatever else is wrong. Then
they are taken in order, and the first error counts, or the first call for help. Arguments that
nothing takes are collected and reported at the end.
-/

namespace ScriptLang.Cli

/-! ### Flags -/

/-- The options. -/
inductive Flag where
  | help
  | verbose
  | truthiness
  | grammar
  | emitAst
  | ast
  | tokens
deriving Repr, DecidableEq

/-- The spellings of the options. -/
def spellings : List (String × Flag) :=
  [("-h", .help), ("--help", .help), ("-v", .verbose), ("--truthiness", .truthiness),
    ("--grammar", .grammar), ("--emit-ast", .emitAst), ("--ast", .ast), ("--tokens", .tokens)]

namespace Flag

/-- Does the option take a value? -/
def takesValue : Flag → Bool
  | truthiness | emitAst | ast | tokens => true
  | help | verbose | grammar => false

/-- The options of which only one may be given. -/
def isMode : Flag → Bool
  | emitAst | ast | tokens => true
  | _ => false

/-- The option in an error: all its spellings. -/
def title (flag : Flag) : String :=
  String.intercalate "/" ((spellings.filter (·.2 = flag)).map (·.1))

end Flag

/-! ### Arguments -/

/-- What an argument is, seen by itself. -/
inductive Argument where
  /-- The two dashes that end the options. -/
  | separator
  | plain (text : String)
  /-- An option under one of its spellings, perhaps with something attached. -/
  | flag (flag : Flag) (spelling : String) (attached : Option String)
  /-- What looks like an option and is none. -/
  | unknown (text : String)
deriving Repr, DecidableEq

/-- Does a text begin with another? -/
def beginsWith (text start : String) : Bool :=
  start.toList.isPrefixOf text.toList

/-- A text split at its first equals sign. -/
def splitEquals (text : String) : String × Option String :=
  let chars := text.toList
  match chars.dropWhile (· ≠ '=') with
  | _ :: value => (String.ofList (chars.takeWhile (· ≠ '=')), some (String.ofList value))
  | [] => (text, none)

/-- Characters without one newline at their end. -/
def dropNewline (chars : List Char) : List Char :=
  if chars.getLast? = some '\n' then chars.dropLast else chars

/-- A negative number, which counts as a plain argument. Its digits may be those of any script, and
a newline may follow it. -/
def isNegativeNumber (text : String) : Bool :=
  match dropNewline text.toList with
  | '-' :: digits =>
    match digits.dropWhile Text.isDigit with
    | [] => !digits.isEmpty
    | '.' :: fraction => !fraction.isEmpty && fraction.all Text.isDigit
    | _ => false
  | _ => false

/-- The options that an argument may be a shorter spelling of, or begin with. -/
def candidates (text : String) : List (Flag × String × Option String) :=
  if beginsWith text "--" then
    let (start, value) := splitEquals text
    spellings.filterMap fun (spelling, flag) =>
      if beginsWith spelling start then some (flag, spelling, value) else none
  else
    let short := String.ofList (text.toList.take 2)
    spellings.filterMap fun (spelling, flag) =>
      if spelling = short then some (flag, spelling, some (String.ofList (text.toList.drop 2)))
      else if beginsWith spelling text then some (flag, spelling, none)
      else none

/-- The error for an argument that several options match. -/
def ambiguous (text : String) (spellings : List String) : String :=
  "ambiguous option: " ++ text ++ " could match " ++ String.intercalate ", " spellings

/-- What an argument in front of the separator is. -/
def classify (text : String) : Except String Argument :=
  if !beginsWith text "-" || text = "-" then .ok (.plain text)
  else
    let (start, value) := splitEquals text
    match spellings.lookup start with
    | some flag => .ok (.flag flag start value)
    | none =>
      match candidates text with
      | [(flag, spelling, attached)] => .ok (.flag flag spelling attached)
      | [] =>
        if isNegativeNumber text || text.toList.contains ' ' then .ok (.plain text)
        else .ok (.unknown text)
      | several => .error (ambiguous text (several.map fun (_, spelling, _) => spelling))

/-- What the arguments are: after the separator all are plain. -/
def classifyAll : List String → Except String (List Argument)
  | [] => .ok []
  | text :: texts =>
    if text = "--" then .ok (.separator :: texts.map .plain)
    else do
      let first ← classify text
      let others ← classifyAll texts
      return first :: others

/-! ### Options -/

/-- What the arguments ask for. -/
structure Options where
  verbosity : Nat := 0
  /-- The rule for truth, unless its option was given nothing for a value. -/
  truthiness : Option Truthiness := some .legacy
  grammar : Bool := false
  /-- What to do instead of running a program, and with which file. -/
  mode : Option (Flag × String) := none
  /-- The program to run, if it is given. -/
  program : Option String := none

/-- The program that is run if none is given. -/
def defaultProgram : String := "source.rox"

/-- Why the options are not all read. -/
inductive Stop where
  | help
  | misuse (message : String)
deriving Repr, DecidableEq

/-- An error that concerns an option. -/
def flagError (flag : Flag) (message : String) : Stop :=
  .misuse ("argument " ++ flag.title ++ ": " ++ message)

/-- The options with one more, that takes no value. -/
def Options.set (options : Options) : Flag → Except Stop Options
  | .help => .error .help
  | .verbose => .ok { options with verbosity := options.verbosity + 1 }
  | .grammar => .ok { options with grammar := true }
  | _ => .ok options

/-- The options with one more and its value. -/
def Options.setValue (options : Options) (flag : Flag) (value : String) : Except Stop Options :=
  if flag.isMode then
    match options.mode with
    | some (other, _) =>
      if other = flag then .ok { options with mode := some (flag, value) }
      else .error (flagError flag ("not allowed with argument " ++ other.title))
    | none => .ok { options with mode := some (flag, value) }
  else
    match Truthiness.ofName? value with
    | some truthiness => .ok { options with truthiness := some truthiness }
    | none =>
      .error (flagError flag ("invalid choice: " ++ Text.quoted value
        ++ " (choose from 'legacy', 'standard')"))

/-- The options with one more that is given nothing for its value. -/
def Options.setNothing (options : Options) (flag : Flag) : Except Stop Options :=
  if flag.isMode then options.setValue flag "" else .ok { options with truthiness := none }

/-- The error for something attached to an option that takes nothing. -/
def ignored (flag : Flag) (attached : String) : Stop :=
  flagError flag ("ignored explicit argument " ++ Text.quoted attached)

/-- The flags of letters that are run together behind a first one. -/
def letters (flag : Flag) : List Char → Except Stop (List Flag)
  | [] => .ok [flag]
  | c :: rest =>
    match spellings.lookup (String.ofList ['-', c]) with
    | some next => do return flag :: (← letters next rest)
    | none => .error (ignored flag (String.ofList (c :: rest)))

/-- The options with a flag and what is attached to it. Two dashes count as nothing. -/
def Options.setAttached (options : Options) (flag : Flag) (spelling attached : String) :
    Except Stop Options :=
  if flag.takesValue then
    if attached = "--" then options.setNothing flag else options.setValue flag attached
  else if beginsWith spelling "--" || attached = "" then .error (ignored flag attached)
  else do (← letters flag attached.toList).foldlM Options.set options

/-- Takes the arguments in order. The second result holds those that nothing takes. -/
def takeAll (options : Options) : List Argument → Except Stop (Options × List String)
  | [] => .ok (options, [])
  | .plain text :: .separator :: rest =>
    if options.program.isNone then takeAll { options with program := some text } rest
    else do
      let (options, extras) ← takeAll options (.separator :: rest)
      return (options, text :: extras)
  | .plain text :: rest =>
    if options.program.isNone then takeAll { options with program := some text } rest
    else do
      let (options, extras) ← takeAll options rest
      return (options, text :: extras)
  | .separator :: rest =>
    if options.program.isNone then takeAll options rest
    else do
      let (options, extras) ← takeAll options rest
      return (options, "--" :: extras)
  | .unknown text :: rest => do
    let (options, extras) ← takeAll options rest
    return (options, text :: extras)
  | .flag flag spelling (some attached) :: rest => do
    takeAll (← options.setAttached flag spelling attached) rest
  | .flag flag _ none :: rest =>
    if flag.takesValue then
      match rest with
      | .plain value :: rest => do takeAll (← options.setValue flag value) rest
      | _ => .error (flagError flag "expected one argument")
    else do takeAll (← options.set flag) rest

/-- The options that arguments ask for. -/
def readOptions (arguments : List String) : Except Stop Options :=
  match classifyAll arguments with
  | .error message => .error (.misuse message)
  | .ok classified => do
    match ← takeAll {} classified with
    | (options, []) => return options
    | (_, extras) =>
      .error (.misuse ("unrecognized arguments: " ++ String.intercalate " " extras))

/-! ### Texts -/

/-- The usage of the command. -/
def usage : String :=
  "usage: rox [-h] [-v] [--truthiness \x7blegacy,standard\x7d] [--grammar]\n" ++
  "           [--emit-ast ROX_FILE | --ast AST_JSON_FILE | --tokens ROX_FILE]\n" ++
  "           [program]\n"

/-- The text that a call for help shows. -/
def help : String :=
  usage ++
  "\nRox language interpreter\n" ++
  "\npositional arguments:\n" ++
  "  program               Rox program file to execute (default: source.rox)\n" ++
  "\noptions:\n" ++
  "  -h, --help            show this help message and exit\n" ++
  "  -v                    increase debug verbosity (can be repeated)\n" ++
  "  --truthiness \x7blegacy,standard\x7d\n" ++
  "                        truthiness rules for conditions and logical operators\n" ++
  "  --grammar             parse with the Lark reference grammar\n" ++
  "  --emit-ast ROX_FILE   emit AST JSON for the given .rox file\n" ++
  "  --ast AST_JSON_FILE   execute AST from a JSON file\n" ++
  "  --tokens ROX_FILE     print the tokens of the given .rox file\n"

/-- The text for an error in the usage. -/
def misuseText (message : String) : String :=
  usage ++ "rox: error: " ++ message ++ "\n"

end ScriptLang.Cli
