/-!
# Finite doubles as binary fractions

A finite double is a sign and a magnitude `significand * 2 ^ exponent`. Everything that is written
or decided exactly about a number is decided on this form, in whole numbers.

## Main Definitions

* `Binary`: the magnitude of a finite double.
* `Binary.ofFloat`: its magnitude, read off the bits.
* `Binary.whole?`: the whole number it is, if it is one.
-/

namespace ScriptLang.Number

/-- The magnitude `significand * 2 ^ exponent` of a finite double. -/
structure Binary where
  significand : Nat
  exponent : Int
  /-- The gap to the double below is half the gap to the double above. -/
  narrowBelow : Bool
deriving Repr, DecidableEq

/-- Is the sign bit set? True of `-0.0` as well. -/
def isNegative (x : Float) : Bool :=
  x.toBits >>> 63 == 1

/-- The magnitude of a finite double. The infinities and NaN have none: they are tested first. -/
def Binary.ofFloat (x : Float) : Binary :=
  let biased := ((x.toBits >>> 52) &&& 0x7FF).toNat
  let fraction := (x.toBits &&& 0xFFFFFFFFFFFFF).toNat
  if biased = 0 then
    { significand := fraction, exponent := -1074, narrowBelow := false }
  else
    { significand := Nat.pow 2 52 + fraction
      exponent := (biased : Int) - 1075
      narrowBelow := fraction == 0 && 1 < biased }

/-- The numerator of the magnitude as a fraction. -/
def Binary.numerator (x : Binary) : Nat :=
  x.significand * Nat.pow 2 x.exponent.toNat

/-- The denominator of the magnitude as a fraction: one for a non-negative exponent. -/
def Binary.denominator (x : Binary) : Nat :=
  Nat.pow 2 (-x.exponent).toNat

/-- The whole number that the magnitude is, if it is one. -/
def Binary.whole? (x : Binary) : Option Nat :=
  if x.numerator % x.denominator = 0 then some (x.numerator / x.denominator) else none

end ScriptLang.Number
