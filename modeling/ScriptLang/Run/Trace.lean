import ScriptLang.Tree.Basic
import ScriptLang.Value.Basic

/-!
# Effects and traces

What a run does to the outside: it prints, and at a high enough level it writes a trace of what it
is about. The trace goes to the console between the prints, or to a file.

## Main Definitions

* `Event`: a line of the trace, its level and its text.
* `Effect`: a print or a traced event.
* `TraceFile`: the file, with opening, writing and closing.
* `Outside`: the text printed so far, the trace file, and where the trace goes.

## Design Notes

The file is opened by the first line that is written to it, which drops what it held before; opened
again after closing, it is added to. While the trace goes to the console, the file stays as it is.
-/

namespace ScriptLang

/-- A line of the trace. -/
inductive Event where
  | execute (kind : String)
  | finish (kind : String)
  | declare (name : Json) (value : Value)
  | assign (name : Json) (value : Value)
  | condition (statement : Conditional) (value : Value) (holds : Bool)
  | push (depth : Nat)
  | pop (depth : Nat)
  /-- A line that was asked for from outside. -/
  | message (text : String)

namespace Event

/-- The least level at which an event is traced. -/
def level : Event → Nat
  | execute _ => 1
  | finish _ => 1
  | message _ => 1
  | declare .. => 2
  | assign .. => 2
  | condition .. => 3
  | push _ => 3
  | pop _ => 3

/-- The word of a statement with a condition. -/
def word : Conditional → String
  | .branch => "if"
  | .loop => "while"

/-- The text of an event. -/
def text : Event → String
  | execute kind => "execute " ++ kind
  | finish kind => "end " ++ kind
  | declare name value => "declare " ++ name.shown ++ ": " ++ value.typeName ++ " = " ++ value.text
  | assign name value => "assign " ++ name.shown ++ " = " ++ value.text
  | condition statement value holds =>
    word statement ++ " condition " ++ value.text ++ " -> " ++ (Json.bool holds).listed
  | push depth => "push scope depth=" ++ Number.wholeText depth
  | pop depth => "pop scope depth=" ++ Number.wholeText depth
  | message text => text

end Event

/-- What a run does to the outside. -/
inductive Effect where
  | printed (text : String)
  | traced (event : Event)

/-! ### The trace file -/

/-- The file that a trace is written to. -/
structure TraceFile where
  /-- What it holds, if it exists. -/
  contents : Option String
  isOpen : Bool := false
  /-- Has it been opened before? -/
  started : Bool := false

namespace TraceFile

/-- Writes a line, opening the file if need be. -/
def write (file : TraceFile) (line : String) : TraceFile :=
  let before := if file.started then file.contents.getD "" else ""
  { contents := some (before ++ line ++ "\n"), isOpen := true, started := true }

/-- Closes the file. -/
def close (file : TraceFile) : TraceFile := { file with isOpen := false }

@[simp] theorem contents_close (file : TraceFile) : file.close.contents = file.contents := rfl

@[simp] theorem isOpen_close (file : TraceFile) : file.close.isOpen = false := rfl

@[simp] theorem isOpen_write (file : TraceFile) (line : String) :
    (file.write line).isOpen = true := rfl

/-- The first line drops what the file held before. -/
theorem contents_write_of_not_started (file : TraceFile) (line : String)
    (h : file.started = false) : (file.write line).contents = some (line ++ "\n") := by
  simp [write, h]

/-- A line after the first is added to what the file holds, closed in between or not. -/
theorem contents_write_of_started (file : TraceFile) (line : String) (h : file.started = true) :
    (file.write line).contents = some (file.contents.getD "" ++ line ++ "\n") := by
  simp [write, h]

end TraceFile

/-! ### The outside -/

/-- Where the trace goes. -/
inductive Sink where
  | console
  | file
deriving Repr, DecidableEq

/-- The text printed so far, the trace file, and where the trace goes. -/
structure Outside where
  out : String := ""
  sink : Sink
  file : TraceFile

namespace Outside

/-- A line on the console. -/
def line (o : Outside) (text : String) : Outside := { o with out := o.out ++ text ++ "\n" }

/-- One effect. -/
def apply (o : Outside) : Effect → Outside
  | .printed text => o.line text
  | .traced event =>
    match o.sink with
    | .console => o.line event.text
    | .file => { o with file := o.file.write event.text }

/-- Closes the trace file. -/
def close (o : Outside) : Outside := { o with file := o.file.close }

/-- On the console, every effect leaves the trace file as it is. -/
theorem file_apply_of_console (o : Outside) (effect : Effect) (h : o.sink = .console) :
    (o.apply effect).file = o.file := by
  cases effect <;> simp [apply, line, h]

/-- Effects one after the other. -/
def applyAll (o : Outside) (effects : List Effect) : Outside := effects.foldl apply o

@[simp] theorem applyAll_nil (o : Outside) : o.applyAll [] = o := rfl

@[simp] theorem applyAll_cons (o : Outside) (effect : Effect) (effects : List Effect) :
    o.applyAll (effect :: effects) = (o.apply effect).applyAll effects := rfl

end Outside

end ScriptLang
