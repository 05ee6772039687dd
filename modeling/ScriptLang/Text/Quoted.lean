import ScriptLang.Text.Printable

/-!
# Quoted text

How a text is shown inside a message: between quotes, on one line, with everything that cannot be
printed replaced by an escape.

## Main Definitions

* `escape`: the characters that one character becomes.
* `quoted`: a text between its quotes.

## Design Notes

The quote is chosen for the text as a whole: single, unless the text holds a single quote and no
double one. Only the quote in use is escaped.
-/

namespace ScriptLang.Text

/-- The digits of `n` in base sixteen, filled up with zeros to `width`. -/
def hex (width n : Nat) : List Char :=
  let digits := Nat.toDigits 16 n
  List.replicate (width - digits.length) '0' ++ digits

/-- The escape of an unprintable character: by its code, in the shortest of the three widths. -/
def codeEscape (c : Char) : List Char :=
  if c.toNat < 0x100 then '\\' :: 'x' :: hex 2 c.toNat
  else if c.toNat < 0x10000 then '\\' :: 'u' :: hex 4 c.toNat
  else '\\' :: 'U' :: hex 8 c.toNat

/-- What one character becomes between quotes of the kind `quote`. -/
def escape (quote c : Char) : List Char :=
  if c = quote || c = '\\' then ['\\', c]
  else if c = '\n' then ['\\', 'n']
  else if c = '\r' then ['\\', 'r']
  else if c = '\t' then ['\\', 't']
  else if isPrintable c then [c]
  else codeEscape c

/-- The quote for a text: double if it holds a single quote and no double one. -/
def quoteFor (text : List Char) : Char :=
  if text.contains '\'' && !text.contains '"' then '"' else '\''

/-- A text between quotes. -/
def quoted (text : String) : String :=
  let chars := text.toList
  let quote := quoteFor chars
  String.ofList (quote :: chars.flatMap (escape quote) ++ [quote])

end ScriptLang.Text
