import ScriptLang.Number.Binary

/-!
# The fewest digits that read back

Among the decimals that round to a given double, the ones with the fewest digits, and of those the
nearest to the double; of two that are equally near, the one with the even last digit.

## Main Definitions

* `Decimal`: a decimal number `digits * 10 ^ exponent`.
* `Binary.readsBack`: does a decimal round to this double?
* `Binary.shortest`: the decimal described above, without trailing zeros.

## Design Notes

All comparisons are made in whole numbers, by multiplying both sides out. The search goes from one
digit upward and asks on each grid only the two neighbours of the double. Seventeen digits suffice
for every double; should no grid hold a decimal that reads back, the exact value is returned.
-/

namespace ScriptLang.Number

/-- The decimal number `digits * 10 ^ exponent`. -/
structure Decimal where
  digits : Nat
  exponent : Int
deriving Repr, DecidableEq

/-- Compares `a * 10 ^ i` with `n * 2 ^ j`, exactly. -/
def compareScaled (a : Nat) (i : Int) (n : Nat) (j : Int) : Ordering :=
  compare (a * Nat.pow 10 i.toNat * Nat.pow 2 (-j).toNat)
    (n * Nat.pow 2 j.toNat * Nat.pow 10 (-i).toNat)

/-- The decimal lies among the reals that round to the double: between the halfway points to its
neighbours, which themselves belong to the double with the even significand. -/
def Binary.readsBack (x : Binary) (d : Decimal) : Bool :=
  let low := if x.narrowBelow then 4 * x.significand - 1 else 4 * x.significand - 2
  let high := 4 * x.significand + 2
  let closed := x.significand % 2 == 0
  let fromLow := compareScaled d.digits d.exponent low (x.exponent - 2)
  let fromHigh := compareScaled d.digits d.exponent high (x.exponent - 2)
  (fromLow == .gt || (closed && fromLow == .eq)) && (fromHigh == .lt || (closed && fromHigh == .eq))

/-- How many decimal digits a number has. -/
def digitCount (n : Nat) : Nat :=
  (Nat.toDigits 10 n).length

/-- The `k` with `10 ^ (k - 1) ≤ x < 10 ^ k`, for a magnitude that is not zero. -/
def Binary.scale (x : Binary) : Int :=
  if x.denominator ≤ x.numerator then digitCount (x.numerator / x.denominator)
  else 1 - (digitCount ((x.denominator - 1) / x.numerator) : Int)

/-- The magnitude divided by `10 ^ g`, rounded down. -/
def Binary.floorAt (x : Binary) (g : Int) : Nat :=
  (x.numerator * Nat.pow 10 (-g).toNat) / (x.denominator * Nat.pow 10 g.toNat)

/-- Of the two neighbours on the grid `10 ^ g` the nearer one, `below` being the lower. -/
def Binary.nearer (x : Binary) (g : Int) (below : Nat) : Nat :=
  match compareScaled (2 * below + 1) g (2 * x.significand) x.exponent with
  | .gt => below
  | .lt => below + 1
  | .eq => if below % 2 = 0 then below else below + 1

/-- The nearest decimal on the grid `10 ^ g` that reads back, if one of the neighbours does. -/
def Binary.onGrid (x : Binary) (g : Int) : Option Decimal :=
  let below := x.floorAt g
  match x.readsBack ⟨below, g⟩, x.readsBack ⟨below + 1, g⟩ with
  | true, true => some ⟨x.nearer g below, g⟩
  | true, false => some ⟨below, g⟩
  | false, true => some ⟨below + 1, g⟩
  | false, false => none

/-- The magnitude itself, written out in decimal. -/
def Binary.exact (x : Binary) : Decimal :=
  if 0 ≤ x.exponent then ⟨x.numerator, 0⟩
  else ⟨x.significand * Nat.pow 5 (-x.exponent).toNat, x.exponent⟩

/-- The same number with the trailing zeros of the digits moved into the exponent. -/
def Decimal.trim (d : Decimal) : Decimal :=
  if d.digits = 0 then d
  else if d.digits % 10 = 0 then Decimal.trim ⟨d.digits / 10, d.exponent + 1⟩
  else d
termination_by d.digits
decreasing_by grind

/-- The decimal with the fewest digits that reads back, the nearest of those. -/
def Binary.shortest (x : Binary) : Decimal :=
  let grids := (List.range 17).map fun n => x.scale - (n + 1 : Nat)
  ((grids.findSome? x.onGrid).getD x.exact).trim

end ScriptLang.Number
