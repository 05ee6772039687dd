/-!
# Files by name

The files that a command sees, their names in one spelling, and the text of a file with one kind of
line ending.

## Main Definitions

* `Path`: a file name in parts; `Path.text` writes it without empty parts and without `.`.
* `Files`: contents by name, with reading, writing and the changes between two states.
* `unifyNewlines`: a text with every line ending turned into a newline.
-/

namespace ScriptLang

/-! ### Names -/

/-- A file name: the slashes that it begins with, and its parts. -/
structure Path where
  root : List Char
  parts : List (List Char)
deriving Repr, DecidableEq

namespace Path

/-- What stands before, between and after the slashes of a name. -/
def splitSlashes : List Char → List (List Char)
  | [] => [[]]
  | c :: rest =>
    if c = '/' then [] :: splitSlashes rest
    else match splitSlashes rest with
      | [] => [[c]]
      | part :: parts => (c :: part) :: parts

/-- The slashes that mark a name as absolute: one, but exactly two stay two. -/
def rootOf (slashes : List Char) : List Char :=
  match slashes with
  | [] => []
  | [_, _] => ['/', '/']
  | _ => ['/']

/-- Does a part of a name say nothing? -/
def isIdle (part : List Char) : Bool :=
  part = [] || part = ['.']

/-- Takes a name apart. Empty parts and the part `.` are left out. -/
def ofText (text : String) : Path :=
  { root := rootOf (text.toList.takeWhile (· = '/'))
    parts := (splitSlashes text.toList).filter fun part => !isIdle part }

/-- The spelling of a name. -/
def text (path : Path) : String :=
  match path.root ++ List.intercalate ['/'] path.parts with
  | [] => "."
  | chars => String.ofList chars

/-- The name with something added to its last part. -/
def append (path : Path) (ending : String) : Path :=
  match path.parts.reverse with
  | [] => path
  | last :: before => { path with parts := ((last ++ ending.toList) :: before).reverse }

end Path

/-! ### Contents -/

/-- The contents of files by the spelling of their names. -/
abbrev Files : Type := List (String × String)

namespace Files

/-- The contents of a file. -/
def read? (files : Files) (path : Path) : Option String :=
  (files.find? fun (name, _) => (Path.ofText name).text == path.text).map (·.2)

/-- The files with the contents of one replaced or added. -/
def write (files : Files) (path : Path) (contents : String) : Files :=
  match files with
  | [] => [(path.text, contents)]
  | (name, old) :: others =>
    if (Path.ofText name).text == path.text then (name, contents) :: others
    else (name, old) :: write others path contents

/-- The files that are new or hold something new, in the order of their names. -/
def changes (before after : Files) : Files :=
  (after.filter fun (name, contents) => before.lookup name != some contents).mergeSort
    fun a b => decide (a.1 ≤ b.1)

end Files

/-! ### Line endings -/

/-- A text in which every line ending, of one character or two, is a newline. -/
def unifyNewlines : List Char → List Char
  | '\r' :: '\n' :: rest => '\n' :: unifyNewlines rest
  | '\r' :: rest => '\n' :: unifyNewlines rest
  | c :: rest => c :: unifyNewlines rest
  | [] => []

end ScriptLang
