import ScriptLang.Json.Basic
import ScriptLang.Limits

/-!
# Reading documents

The reader for documents, over a list of characters. It takes exactly one document with blanks
around it, knows the words `NaN`, `Infinity` and `-Infinity`, keeps whole numbers apart from
doubles, and refuses everything else the format does not have: comments, trailing commas, leading
zeros, raw control characters.

## Main Definitions

* `Json.Fault`: why a text is not read, and `Json.Fault.message?`, what is said of it.
* `Json.value`: reads one document and returns the characters after it.
* `Json.read`: reads a whole text.

## Design Notes

`value` recurses on the number of levels that lists and objects may still open, so a text that is
nested too deeply is refused at the bracket that goes too far, as a whole number with too many
digits is refused at the number. The loops over members and fields
take the recursive reader as an argument and are bounded by the number of characters left, of which
every member uses at least one.
-/

namespace ScriptLang.Json

/-- Why a text is not read. -/
inductive Fault where
  /-- The text is no document. -/
  | malformed
  /-- Lists and objects are nested too deeply. -/
  | tooDeep
  /-- A whole number has `count` digits where `limit` are allowed. -/
  | tooManyDigits (limit count : Nat)
deriving Repr, DecidableEq

/-- What is said of a fault, for the one that has something to say. -/
def Fault.message? : Fault → Option String
  | malformed => none
  | tooDeep => none
  | tooManyDigits limit count =>
    some ("Exceeds the limit (" ++ Number.wholeText limit
      ++ " digits) for integer string conversion: value has " ++ Number.wholeText count
      ++ " digits; use sys.set_int_max_str_digits() to increase the limit")

/-- What a reader returns: what it read and the characters after it. -/
abbrev Read (α : Type) : Type := Except Fault (α × List Char)

/-! ### Leaves -/

/-- The blanks between the parts of a document. -/
def isSpace (c : Char) : Bool :=
  c = ' ' || c = '\t' || c = '\n' || c = '\r'

/-- The characters after any blanks. -/
def skipSpaces (cs : List Char) : List Char :=
  cs.dropWhile isSpace

/-- The characters after `word`, if they begin with it. -/
def dropWord? : List Char → List Char → Option (List Char)
  | [], cs => some cs
  | w :: word, c :: cs => if w = c then dropWord? word cs else none
  | _ :: _, [] => none

/-- The value of a digit in base sixteen. -/
def hexValue? (c : Char) : Option Nat :=
  if '0' ≤ c && c ≤ '9' then some (c.toNat - '0'.toNat)
  else if 'a' ≤ c && c ≤ 'f' then some (c.toNat - 'a'.toNat + 10)
  else if 'A' ≤ c && c ≤ 'F' then some (c.toNat - 'A'.toNat + 10)
  else none

/-- Four digits in base sixteen and the characters after them. -/
def hexQuad? : List Char → Option (Nat × List Char)
  | a :: b :: c :: d :: cs =>
    match hexValue? a, hexValue? b, hexValue? c, hexValue? d with
    | some a, some b, some c, some d => some (((a * 16 + b) * 16 + c) * 16 + d, cs)
    | _, _, _, _ => none
  | _ => none

/-- The character that a one-letter escape stands for. -/
def shortEscape? (c : Char) : Option Char :=
  if c = '"' || c = '\\' || c = '/' then some c
  else if c = 'n' then some '\n'
  else if c = 'r' then some '\r'
  else if c = 't' then some '\t'
  else if c = 'f' then some '\x0c'
  else if c = 'b' then some '\x08'
  else none

/-- The rest of an escape by code: two codes that form a pair stand for one character. -/
def codeEscape? (cs : List Char) : Option (Char × List Char) :=
  match hexQuad? cs with
  | none => none
  | some (high, after) =>
    if 0xD800 ≤ high && high < 0xDC00 then
      match after with
      | '\\' :: 'u' :: more =>
        match hexQuad? more with
        | some (low, rest) =>
          if 0xDC00 ≤ low && low < 0xE000 then
            some (Char.ofNat (0x10000 + (high - 0xD800) * 0x400 + (low - 0xDC00)), rest)
          else some (Char.ofNat high, after)
        | none => none
      | _ => some (Char.ofNat high, after)
    else some (Char.ofNat high, after)

/-- The characters of a text up to its closing quote, of at most `n` characters or escapes. -/
def textBody : Nat → List Char → Read (List Char)
  | 0, _ => .error .malformed
  | _ + 1, [] => .error .malformed
  | n + 1, c :: cs =>
    if c = '"' then .ok ([], cs)
    else if c.toNat < 0x20 then .error .malformed
    else if c = '\\' then
      match cs with
      | [] => .error .malformed
      | e :: cs' =>
        match if e = 'u' then codeEscape? cs' else (shortEscape? e).map (·, cs') with
        | none => .error .malformed
        | some (d, rest) =>
          match textBody n rest with
          | .error fault => .error fault
          | .ok (body, rest') => .ok (d :: body, rest')
    else
      match textBody n cs with
      | .error fault => .error fault
      | .ok (body, rest) => .ok (c :: body, rest)

/-- A text whose opening quote has been read. -/
def text (cs : List Char) : Read String :=
  match textBody (cs.length + 1) cs with
  | .error fault => .error fault
  | .ok (body, rest) => .ok (String.ofList body, rest)

/-- The fraction of a number: a point and at least one digit. -/
def fraction (cs : List Char) : Option (List Char) × List Char :=
  match cs with
  | '.' :: d :: rest =>
    if d.isDigit then
      (some (d :: rest.takeWhile Char.isDigit), rest.dropWhile Char.isDigit)
    else (none, cs)
  | _ => (none, cs)

/-- The power of ten of a number: its mark, perhaps a sign, and at least one digit. -/
def power (cs : List Char) : Option Int × List Char :=
  match cs with
  | mark :: more =>
    if mark = 'e' || mark = 'E' then
      let (negative, digits) := match more with
        | '-' :: rest => (true, rest)
        | '+' :: rest => (false, rest)
        | rest => (false, rest)
      match digits.takeWhile Char.isDigit with
      | [] => (none, cs)
      | ds =>
        let size : Int := Number.ofDigits ds
        (some (if negative then -size else size), digits.dropWhile Char.isDigit)
    else (none, cs)
  | [] => (none, cs)

/-- The digits of a number before its point: a zero alone, or digits that begin with another. -/
def wholeDigits? (cs : List Char) : Option (List Char × List Char) :=
  match cs with
  | c :: rest =>
    if c = '0' then some (['0'], rest)
    else if c.isDigit then
      some (c :: rest.takeWhile Char.isDigit, rest.dropWhile Char.isDigit)
    else none
  | [] => none

/-- A number without its sign. With neither fraction nor power of ten it is whole, and then has at
most `limit` digits. -/
def number (limit : Nat) (negative : Bool) (cs : List Char) : Read Json :=
  match wholeDigits? cs with
  | none => .error .malformed
  | some (whole, afterWhole) =>
    let (places, afterFraction) := fraction afterWhole
    let (tens, rest) := power afterFraction
    if places.isNone && tens.isNone then
      if limit < whole.length then .error (.tooManyDigits limit whole.length)
      else
        let n : Int := Number.ofDigits whole
        .ok (.int (if negative then -n else n), rest)
    else
      let digits := places.getD []
      let exponent := tens.getD 0 - (digits.length : Int)
      let x := Number.ofDecimal (Number.ofDigits (whole ++ digits)) exponent
      .ok (.num (if negative then -x else x), rest)

/-! ### Lists, objects and documents -/

/-- The members of a list after its opening bracket or a comma, at most `n` of them. -/
def members (value : List Char → Read Json) : Nat → List Char → Read (List Json)
  | 0, _ => .error .malformed
  | n + 1, cs =>
    match value (skipSpaces cs) with
    | .error fault => .error fault
    | .ok (item, rest) =>
      match skipSpaces rest with
      | ',' :: more =>
        match members value n more with
        | .error fault => .error fault
        | .ok (items, after) => .ok (item :: items, after)
      | ']' :: after => .ok ([item], after)
      | _ => .error .malformed

/-- The fields of an object after its opening brace or a comma, at most `n` of them, put into the
fields read before. -/
def fieldsInto (value : List Char → Read Json) :
    Nat → List (String × Json) → List Char → Read (List (String × Json))
  | 0, _, _ => .error .malformed
  | n + 1, before, cs =>
    match skipSpaces cs with
    | '"' :: more =>
      match text more with
      | .error fault => .error fault
      | .ok (key, rest) =>
        match skipSpaces rest with
        | ':' :: more =>
          match value (skipSpaces more) with
          | .error fault => .error fault
          | .ok (item, rest) =>
            match skipSpaces rest with
            | ',' :: more => fieldsInto value n (put key item before) more
            | '\x7d' :: after => .ok (put key item before, after)
            | _ => .error .malformed
        | _ => .error .malformed
    | _ => .error .malformed

/-- The words of the format and the documents they stand for. -/
def words : List (String × Json) :=
  [("null", .null), ("true", .bool true), ("false", .bool false),
    ("NaN", .num (Float.ofBits 0x7FF8000000000000)),
    ("Infinity", .num (Float.ofBits 0x7FF0000000000000)),
    ("-Infinity", .num (Float.ofBits 0xFFF0000000000000))]

/-- A word of the format. -/
def word? (cs : List Char) : Option (Json × List Char) :=
  words.findSome? fun (word, document) => (dropWord? word.toList cs).map (document, ·)

/-- A document that begins with the first character and opens at most `n` levels. Its whole numbers
have at most `digits` digits. -/
def value (digits : Nat) : Nat → List Char → Read Json
  | _, '"' :: cs =>
    match text cs with
    | .error fault => .error fault
    | .ok (body, rest) => .ok (.str body, rest)
  | 0, '[' :: _ => .error .tooDeep
  | 0, '\x7b' :: _ => .error .tooDeep
  | n + 1, '[' :: cs =>
    match skipSpaces cs with
    | ']' :: rest => .ok (.arr [], rest)
    | _ =>
      match members (value digits n) (cs.length + 1) cs with
      | .error fault => .error fault
      | .ok (items, rest) => .ok (.arr items, rest)
  | n + 1, '\x7b' :: cs =>
    match skipSpaces cs with
    | '\x7d' :: rest => .ok (.obj [], rest)
    | _ =>
      match fieldsInto (value digits n) (cs.length + 1) [] cs with
      | .error fault => .error fault
      | .ok (fields, rest) => .ok (.obj fields, rest)
  | _, cs =>
    match word? cs with
    | some (document, rest) => .ok (document, rest)
    | none =>
      match cs with
      | '-' :: more => number digits true more
      | _ => number digits false cs

/-- The document that a text is, within the limits. -/
def read (limits : Limits) (source : String) : Except Fault Json :=
  match value limits.digits limits.nesting (skipSpaces source.toList) with
  | .error fault => .error fault
  | .ok (document, rest) => if (skipSpaces rest).isEmpty then .ok document else .error .malformed

end ScriptLang.Json
