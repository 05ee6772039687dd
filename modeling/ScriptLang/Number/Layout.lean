import ScriptLang.Number.Shortest

/-!
# Numbers as text

The two texts of a number. The *printed* text is what a program shows: whole numbers digit by digit,
fractions with the fewest digits that read back, always positional. The *exact* text is the one in
token listings and data documents: the fewest digits throughout, positional up to sixteen digits and
with an exponent beyond.

## Main Definitions

* `positional`: the digits before and after the point.
* `wholeText`: the text of a whole number.
* `printed`: the text a program shows.
* `exactText`: the text in listings and documents, with a `Special` for the spelling of infinity
  and NaN.
* `ofDecimal`: the double nearest to a decimal.
-/

namespace ScriptLang.Number

/-! ### Positional digits -/

/-- A decimal split at its point: the digits before it (at least one) and those after it. -/
def positional (d : Decimal) : List Char × List Char :=
  let digits := Nat.toDigits 10 d.digits
  let places := (-d.exponent).toNat
  if 0 ≤ d.exponent then (digits ++ List.replicate d.exponent.toNat '0', [])
  else if places < digits.length then
    (digits.take (digits.length - places), digits.drop (digits.length - places))
  else (['0'], List.replicate (places - digits.length) '0' ++ digits)

/-- The digits of a decimal with a point between them where there is a fraction. -/
def pointed : List Char × List Char → List Char
  | (whole, []) => whole
  | (whole, fraction) => whole ++ '.' :: fraction

/-- A text with a minus sign in front of it if asked for. -/
def signed (negative : Bool) (text : List Char) : List Char :=
  if negative then '-' :: text else text

/-- The text of a whole number. -/
def wholeText (n : Int) : String :=
  String.ofList (signed (decide (n < 0)) (Nat.toDigits 10 n.natAbs))

/-! ### The printed text -/

/-- The digits that a program shows for a finite magnitude. -/
def printedDigits (x : Binary) : List Char :=
  match x.whole? with
  | some n => Nat.toDigits 10 n
  | none => pointed (positional x.shortest)

/-- The text that a program shows for a number. -/
def printed (x : Float) : String :=
  if x.isNaN then "NaN"
  else if x.isInf then if isNegative x then "-inf" else "inf"
  else String.ofList (signed (isNegative x) (printedDigits (Binary.ofFloat x)))

/-! ### The exact text -/

/-- The spelling of the values that have no digits. -/
structure Special where
  infinity : String
  nan : String

/-- The least exponent of the leading digit that is still written positionally. -/
def plainFrom : Int := -4

/-- The least exponent of the leading digit that is no longer written positionally. -/
def plainBelow : Int := 16

/-- The exponent part of a text: its sign always, and at least two digits. -/
def exponentPart (e : Int) : List Char :=
  let digits := Nat.toDigits 10 e.natAbs
  'e' :: (if e < 0 then '-' else '+') :: List.replicate (2 - digits.length) '0' ++ digits

/-- The digits of a decimal as listings and documents show them. -/
def exactDigits (d : Decimal) : List Char :=
  let digits := Nat.toDigits 10 d.digits
  let leading := (digits.length : Int) - 1 + d.exponent
  if plainFrom ≤ leading && leading < plainBelow then
    match positional d with
    | (whole, []) => whole ++ ['.', '0']
    | (whole, fraction) => whole ++ '.' :: fraction
  else
    pointed (digits.take 1, digits.drop 1) ++ exponentPart leading

/-- The text of a number in listings and documents. -/
def exactText (special : Special) (x : Float) : List Char :=
  if x.isNaN then special.nan.toList
  else
    signed (isNegative x) <|
      if x.isInf then special.infinity.toList
      else if x == 0 then ['0', '.', '0']
      else exactDigits (Binary.ofFloat x).shortest

/-- The text of a number in a listing. -/
def listed (x : Float) : String :=
  String.ofList (exactText { infinity := "inf", nan := "nan" } x)

/-! ### Reading decimals -/

/-- The double nearest to `digits * 10 ^ exponent`. Decimals far outside the range of doubles are
decided by their size alone, so that no huge power is ever computed. -/
def ofDecimal (digits : Nat) (exponent : Int) : Float :=
  let size := (digitCount digits : Int) + exponent
  if digits = 0 || size < -400 then 0
  else if 400 < size then Float.ofBits 0x7FF0000000000000
  else Float.ofScientific digits (decide (exponent < 0)) exponent.natAbs

/-- The number that a row of decimal digits denotes. -/
def ofDigits (digits : List Char) : Nat :=
  digits.foldl (fun n c => 10 * n + (c.toNat - '0'.toNat)) 0

/-- The double nearest to a decimal given by its digits before and after the point. -/
def ofPointed (whole fraction : List Char) : Float :=
  ofDecimal (ofDigits (whole ++ fraction)) (-(fraction.length : Int))

end ScriptLang.Number
