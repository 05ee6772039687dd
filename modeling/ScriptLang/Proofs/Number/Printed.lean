import ScriptLang.Proofs.Number.Digits
import ScriptLang.Proofs.Number.Rounded

/-!
# Printed numbers

A program shows a number in one of three ways: a zero with its sign, a whole number digit by digit,
and a fraction with the fewest digits that read back, written out around the point. All three are
digits with a point where there is a fraction, and all three denote numbers that round to the double,
so that no two numbers are printed alike.

## Main Definitions

* `IsFraction`: digits as they stand behind a point, the last one not a zero.
* `Shows`: digits before and after a point that are the printed text of a number.

## Main Statements

* `exists_shows`: every finite number is shown by digits.
* `printed_injective`: no two numbers other than NaN are printed alike.
-/

namespace ScriptLang.Number

open Float.Model.UnpackedFloat (Sign)

/-! ### Digits behind a point -/

/-- Digits as they stand behind a point, none at all where there is no point. The last one is not a
zero. -/
structure IsFraction (ds : List Char) : Prop where
  digits : ∀ c ∈ ds, c.isDigit = true
  last : ds.getLast? ≠ some '0'

theorem isFraction_nil : IsFraction [] := ⟨by simp, by simp⟩

/-- A decimal without trailing zeros does not end in one. -/
theorem getLast?_toDigits {n : Nat} (hn : n % 10 ≠ 0) :
    ∃ ds c, Nat.toDigits 10 n = ds ++ [c] ∧ c ≠ '0' := by
  have hc : (n % 10).digitChar ≠ '0' := digitChar_ne_zero ⟨n % 10, by omega⟩ hn
  by_cases hsmall : n < 10
  · rw [Nat.mod_eq_of_lt hsmall] at hc
    exact ⟨[], _, Nat.toDigits_of_lt_base hsmall, hc⟩
  · exact ⟨_, _, Nat.toDigits_of_base_le (by decide) (by omega), hc⟩

/-- Moving the trailing zeros into the exponent leaves none. -/
theorem Decimal.trim_mod {d : Decimal} (hd : 0 < d.trim.digits) : d.trim.digits % 10 ≠ 0 := by
  fun_induction Decimal.trim d with
  | case1 d hzero => omega
  | case2 d _ hten ih => exact ih hd
  | case3 d _ hten => exact hten

/-- So the shortest decimal has none. -/
theorem Binary.shortest_mod {x : Binary} (hx : 0 < x.shortest.digits) :
    x.shortest.digits % 10 ≠ 0 :=
  Decimal.trim_mod hx

/-- What is behind the point in the positional layout does not end in a zero. -/
theorem isFraction_positional {d : Decimal} (hd : d.digits % 10 ≠ 0) :
    IsFraction (positional d).2 := by
  obtain ⟨ds, c, hdigits, hc⟩ := getLast?_toDigits hd
  refine ⟨(positional_spec (d := d) (by omega)).2.1, ?_⟩
  unfold positional
  simp only
  split
  · simp
  · split
    · next hplaces =>
      rw [List.getLast?_drop, if_neg (by omega), hdigits, List.getLast?_concat]
      simpa using hc
    · rw [hdigits, ← List.append_assoc, List.getLast?_concat]
      simpa using hc

/-! ### The value of what is shown -/

/-- The magnitude as the fraction that is tested for being whole. -/
theorem Binary.toRat_eq_div (x : Binary) : x.toRat = x.numerator / x.denominator := by
  have hpow := zpow_mul_pow_neg_toNat (two_ne_zero (α := ℚ)) x.exponent
  simp only [toRat, numerator, denominator, Nat.pow_eq]
  push_cast
  rw [← hpow]
  field_simp

/-- The whole number that a magnitude is has its value. -/
theorem Binary.toRat_of_whole? {x : Binary} {n : Nat} (h : x.whole? = some n) : x.toRat = n := by
  unfold whole? at h
  split at h
  · next hmod =>
    cases h
    have hpos : 0 < x.denominator := Nat.pow_pos (by decide)
    rw [toRat_eq_div, Nat.cast_div (Nat.dvd_of_mod_eq_zero hmod) (by positivity)]
  · cases h

theorem pointedValue_whole (n : Nat) : pointedValue (Nat.toDigits 10 n) [] = n := by
  simp [pointedValue]

/-- **The digits that a program shows for a magnitude denote a number that it owns.** -/
theorem printedDigits_spec {x : Binary} (hx : x.Canonical) :
    ∃ whole fraction, printedDigits x = pointed (whole, fraction) ∧ IsWholePart whole ∧
      IsFraction fraction ∧ x.Owns (pointedValue whole fraction) := by
  unfold printedDigits
  split
  · next n hwhole =>
    refine ⟨Nat.toDigits 10 n, [], rfl, isWholePart_toDigits n, isFraction_nil, ?_⟩
    rw [pointedValue_whole, ← Binary.toRat_of_whole? hwhole]
    exact x.owns_self
  · have howns := Binary.owns_shortest hx.pos
    have hdigits := howns.digits_pos hx
    obtain ⟨hwhole, -, hvalue⟩ := positional_spec hdigits
    refine ⟨(positional x.shortest).1, (positional x.shortest).2, rfl, hwhole,
      isFraction_positional (Binary.shortest_mod hdigits), ?_⟩
    rw [hvalue]
    exact howns

/-- Digits before and after a point that are the printed text of a number, with the sign of the
number in front. The number that they denote rounds to it, and it is read back from them. -/
structure Shows (whole fraction : List Char) (x : Float) : Prop where
  text : (printed x).toList = signed (isNegative x) (pointed (whole, fraction))
  isWholePart : IsWholePart whole
  isFraction : IsFraction fraction
  roundsTo : RoundsTo (signedRat (isNegative x) (pointedValue whole fraction)) x
  readBack : signedNumber (isNegative x) (ofPointed whole fraction) = x

theorem printed_of_isFinite {x : Float} (hx : IsFinite x) :
    (printed x).toList = signed (isNegative x) (printedDigits (Binary.ofFloat x)) := by
  simp only [printed, hx.notNaN, hx.notInf, Bool.false_eq_true, if_false, String.toList_ofList]

/-- A magnitude without a value is shown by a zero. -/
theorem printedDigits_zero {x : Binary} (hx : x.significand = 0) : printedDigits x = ['0'] := by
  have hwhole : x.whole? = some 0 := by simp [Binary.whole?, Binary.numerator, hx]
  rw [printedDigits, hwhole]
  exact Nat.toDigits_zero 10

/-- **Every finite number is shown by digits** with a point where there is a fraction, never by an
exponent. -/
theorem exists_shows {x : Float} (hx : IsFinite x) : ∃ whole fraction, Shows whole fraction x := by
  rcases hx.cases with hzero | ⟨hcanonical, h⟩
  · refine ⟨['0'], [], ?_, .inl rfl, isFraction_nil, ?_, ?_⟩
    · rw [printed_of_isFinite hx, printedDigits_zero]
      · rfl
      · rw [hzero]
        generalize signOf x = sign
        cases sign <;> rfl
    · have hvalue : pointedValue ['0'] [] = 0 := by simp [pointedValue, ofDigits]
      rw [hvalue]
      rw [hzero]
      exact roundsTo_zero _ _
    · rw [hzero]
      generalize signOf x = sign
      cases sign <;> rfl
  · obtain ⟨whole, fraction, htext, hwhole, hfraction, howns⟩ := printedDigits_spec hcanonical
    refine ⟨whole, fraction, ?_, hwhole, hfraction, howns.roundsTo hcanonical h, ?_⟩
    · rw [printed_of_isFinite hx, htext]
    · have hread : ofPointed whole fraction = hcanonical.toFloat .positive :=
        howns.ofDecimal_eq hcanonical
      rw [hread, signedNumber_toFloat, ← h]

/-! ### Texts tell numbers apart -/

theorem IsWholePart.digits {ds : List Char} (h : IsWholePart ds) : ∀ c ∈ ds, c.isDigit = true := by
  rcases h with rfl | ⟨hdigits, -⟩
  · simp
  · exact hdigits

/-- Digits with a point begin with a digit. -/
theorem head?_pointed {whole : List Char} (h : IsWholePart whole) (fraction : List Char) :
    ∃ c, (pointed (whole, fraction)).head? = some c ∧ c.isDigit = true := by
  obtain ⟨c, more, rfl, hc⟩ : ∃ c more, whole = c :: more ∧ c.isDigit = true := by
    have hdigits := h.digits
    rcases h with rfl | ⟨-, c, more, rfl, -⟩
    · exact ⟨'0', [], rfl, rfl⟩
    · exact ⟨c, more, rfl, hdigits c List.mem_cons_self⟩
  cases fraction <;> exact ⟨c, rfl, hc⟩

/-- The sign can be read off a text, if what follows it does not begin with one. -/
theorem signed_inj {negative negative' : Bool} {cs cs' : List Char} (hcs : cs.head? ≠ some '-')
    (hcs' : cs'.head? ≠ some '-') (h : signed negative cs = signed negative' cs') :
    negative = negative' ∧ cs = cs' := by
  cases negative <;> cases negative'
  · exact ⟨rfl, h⟩
  · change cs = '-' :: cs' at h
    simp [h] at hcs
  · change '-' :: cs = cs' at h
    simp [← h] at hcs'
  · exact ⟨rfl, (List.cons.inj h).2⟩

/-- The digits before the point and those behind it can be read off the text. -/
theorem split_pointed {whole : List Char} (h : ∀ c ∈ whole, c.isDigit = true)
    (fraction : List Char) :
    (pointed (whole, fraction)).takeWhile Char.isDigit = whole ∧
      ((pointed (whole, fraction)).dropWhile Char.isDigit).drop 1 = fraction := by
  have hwhole : whole.takeWhile Char.isDigit = whole ∧ whole.dropWhile Char.isDigit = [] := by
    simpa using h
  cases fraction with
  | nil =>
      rw [pointed, hwhole.1, hwhole.2]
      exact ⟨rfl, rfl⟩
  | cons d ds =>
      rw [pointed, List.takeWhile_append_of_pos h, List.dropWhile_append_of_pos h]
      · exact ⟨List.append_nil whole, rfl⟩
      · simp

/-- The text of a number that is not NaN: a sign and then digits, or the word for infinity. -/
theorem printed_cases {x : Float} (hx : x.isNaN = false) :
    (∃ whole fraction, Shows whole fraction x) ∨
      x = .ofModel (.pack (.infinity (signOf x))) ∧
        (printed x).toList = signed (isNegative x) ['i', 'n', 'f'] := by
  cases hinf : x.isInf with
  | false => exact .inl (exists_shows ⟨hx, hinf⟩)
  | true =>
      right
      constructor
      · rcases float_cases x with h | h | h | ⟨hcanonical, h⟩
        · rw [hx] at h
          cases h
        · exact h
        · rw [h] at hinf
          generalize signOf x = sign at hinf
          cases sign <;> cases hinf
        · have hfinite := (hcanonical.isFinite_toFloat (signOf x)).notInf
          rw [← h, hinf] at hfinite
          cases hfinite
      · simp only [printed, hx, hinf, Bool.false_eq_true, if_false, if_true]
        cases isNegative x <;> rfl

/-- **No two numbers other than NaN are printed alike.** -/
theorem printed_injective {x y : Float} (hx : x.isNaN = false) (hy : y.isNaN = false)
    (h : printed x = printed y) : x = y := by
  have hword : ['i', 'n', 'f'].head? ≠ some '-' := by decide
  have hdigits {whole fraction : List Char} {x : Float} (hx : Shows whole fraction x) :
      (pointed (whole, fraction)).head? ≠ some '-' ∧
        pointed (whole, fraction) ≠ ['i', 'n', 'f'] := by
    obtain ⟨c, hhead, hc⟩ := head?_pointed hx.isWholePart fraction
    constructor
    · rw [hhead]
      rintro ⟨⟩
      cases hc
    · intro heq
      rw [heq] at hhead
      cases hhead
      cases hc
  have htext : (printed x).toList = (printed y).toList := by rw [h]
  rcases printed_cases hx with ⟨whole, fraction, hx⟩ | ⟨hx, hxtext⟩ <;>
    rcases printed_cases hy with ⟨whole', fraction', hy⟩ | ⟨hy, hytext⟩
  · rw [hx.text, hy.text] at htext
    obtain ⟨hsign, htext⟩ := signed_inj (hdigits hx).1 (hdigits hy).1 htext
    obtain ⟨hwhole, hfraction⟩ := split_pointed hx.isWholePart.digits fraction
    rw [htext, (split_pointed hy.isWholePart.digits fraction').1] at hwhole
    rw [htext, (split_pointed hy.isWholePart.digits fraction').2] at hfraction
    rw [← hx.readBack, ← hy.readBack, hsign, hwhole, hfraction]
  · rw [hx.text, hytext] at htext
    exact absurd (signed_inj (hdigits hx).1 hword htext).2 (hdigits hx).2
  · rw [hxtext, hy.text] at htext
    exact absurd (signed_inj hword (hdigits hy).1 htext).2.symm (hdigits hy).2
  · rw [hxtext, hytext] at htext
    have hsign := (signed_inj hword hword htext).1
    rw [hx, hy, signOf, signOf, hsign]

end ScriptLang.Number
