import ScriptLang.Proofs.Number.ReadBack

/-!
# What it is to be the nearest double

The interval of a magnitude tells which numbers are rounded to it. This module says the same without
intervals: a number rounds to a double if it is not too large and no finite double is nearer, and if
another one is as near, the significand of the double is even. That is what a magnitude that owns a
number has over all others, because next to it there is no double for a whole unit of its last digit,
or for half of one below a power of two.

## Main Definitions

* `valueOf`: the exact value of a finite double.
* `RoundsTo`: the number rounds to the double, to the nearest with ties to even.

## Main Statements

* `Binary.Owns.nearest`: no magnitude is nearer to a number than the one that owns it.
* `Binary.Owns.roundsTo`: a number rounds to the double that owns it.
* `RoundsTo.valueOf_eq`: a number rounds to one value only.
-/

namespace ScriptLang.Number

open Float.Model.UnpackedFloat (Sign)

/-! ### Values of doubles -/

/-- The value of a magnitude. -/
def Binary.toRat (x : Binary) : ℚ :=
  x.significand * 2 ^ x.exponent

/-- A rational number with its sign. -/
def signedRat (negative : Bool) (q : ℚ) : ℚ :=
  if negative then -q else q

/-- The exact value of a finite double. -/
def valueOf (x : Float) : ℚ :=
  signedRat (isNegative x) (Binary.ofFloat x).toRat

/-- The double is neither infinite nor NaN. -/
structure IsFinite (x : Float) : Prop where
  notNaN : x.isNaN = false
  notInf : x.isInf = false

/-- **The number rounds to the double.** It is below the point from which on numbers round to
infinity, no finite double is nearer, and only a double with an even significand has another that is
as near. -/
structure RoundsTo (q : ℚ) (x : Float) : Prop where
  finite : IsFinite x
  lt : |q| < 2 ^ 1024 - 2 ^ 970
  nearest : ∀ y, IsFinite y → |q - valueOf x| ≤ |q - valueOf y|
  tie : ∀ y, IsFinite y → |q - valueOf y| = |q - valueOf x| →
    valueOf y = valueOf x ∨ (Binary.ofFloat x).significand % 2 = 0

theorem Binary.toRat_nonneg (x : Binary) : 0 ≤ x.toRat := by
  unfold toRat
  positivity

theorem Binary.Canonical.toRat_pos {x : Binary} (hx : x.Canonical) : 0 < x.toRat := by
  have hpos : (0 : ℚ) < x.significand := by exact_mod_cast hx.pos
  unfold toRat
  positivity

/-- The significand of every double fits in 53 bits, and its last digit is not below the least. -/
theorem Binary.ofFloat_bounds (x : Float) :
    (Binary.ofFloat x).significand < 2 ^ 53 ∧ -1074 ≤ (Binary.ofFloat x).exponent := by
  rw [Binary.ofFloat_eq]
  split
  · exact ⟨by simp only; omega, le_rfl⟩
  · exact ⟨by simp only; omega, by simp only; omega⟩

/-- A finite double is a zero or has a canonical magnitude. -/
theorem IsFinite.cases {x : Float} (h : IsFinite x) :
    x = .ofModel (.pack (.zero (signOf x))) ∨
      ∃ hx : (Binary.ofFloat x).Canonical, x = hx.toFloat (signOf x) := by
  rcases float_cases x with hnan | hinf | hrest
  · rw [h.notNaN] at hnan
    cases hnan
  · have hnot := h.notInf
    rw [hinf] at hnot
    generalize signOf x = sign at hnot
    cases sign <;> cases hnot
  · exact hrest

/-! ### The gaps around a magnitude -/

section Gaps

variable {x y : Binary}

/-- The value of another magnitude in units of the last digit, if its own unit is no smaller. -/
theorem Binary.toRat_eq_units (h : x.exponent ≤ y.exponent) :
    y.toRat = (y.significand * 2 ^ (y.exponent - x.exponent).toNat : ℕ) * 2 ^ x.exponent := by
  have hpow : (2 : ℚ) ^ y.exponent = 2 ^ (y.exponent - x.exponent).toNat * 2 ^ x.exponent := by
    rw [← zpow_natCast, ← zpow_add₀ two_ne_zero]
    congr 1
    omega
  rw [Binary.toRat, hpow]
  push_cast
  ring

/-- A magnitude with a smaller unit stays below twice as many halves of the larger unit. -/
theorem Binary.toRat_le_halves (hy : y.significand < 2 ^ 53) (h : y.exponent < x.exponent) :
    y.toRat ≤ (2 ^ 52 - 1 / 2) * 2 ^ x.exponent := by
  have hsignificand : (y.significand : ℚ) ≤ 2 ^ 53 - 1 := by
    have hcast : ((y.significand + 1 : ℕ) : ℚ) ≤ ((2 ^ 53 : ℕ) : ℚ) := by exact_mod_cast hy
    push_cast at hcast
    linarith
  calc y.toRat ≤ (2 ^ 53 - 1) * 2 ^ (x.exponent - 1) := by
        unfold Binary.toRat
        gcongr
        · exact one_le_two
        · omega
    _ = (2 ^ 52 - 1 / 2) * 2 ^ x.exponent := by
        rw [zpow_sub_one₀ two_ne_zero]
        ring

/-- **Above a magnitude there is none for a whole unit**, above zero neither. -/
theorem Binary.gap_above (hfull : -1074 < x.exponent → 2 ^ 52 ≤ x.significand)
    (hy : y.significand < 2 ^ 53) (hleast : -1074 ≤ y.exponent) (h : x.toRat < y.toRat) :
    (x.significand + 1) * 2 ^ x.exponent ≤ y.toRat := by
  have hpow : (0 : ℚ) < 2 ^ x.exponent := by positivity
  by_cases hexponent : x.exponent ≤ y.exponent
  · have hn := Binary.toRat_eq_units hexponent
    generalize y.significand * 2 ^ (y.exponent - x.exponent).toNat = n at hn
    rw [hn, Binary.toRat] at h
    have hlt : (x.significand : ℚ) < n := lt_of_mul_lt_mul_right h hpow.le
    have hle : ((x.significand + 1 : ℕ) : ℚ) ≤ n := by exact_mod_cast hlt
    push_cast at hle
    rw [hn]
    gcongr
  · exfalso
    have hle := Binary.toRat_le_halves hy (not_le.1 hexponent)
    have hfull : ((2 ^ 52 : ℕ) : ℚ) ≤ x.significand := by exact_mod_cast hfull (by omega)
    push_cast at hfull
    have hself : (2 ^ 52 - 1 / 2) * 2 ^ x.exponent ≤ x.toRat := by
      unfold Binary.toRat
      gcongr
      linarith
    linarith

/-- **Below a magnitude there is none for a whole unit**, or for half of one. -/
theorem Binary.Canonical.gap_below (hx : x.Canonical) (hy : y.significand < 2 ^ 53)
    (hleast : -1074 ≤ y.exponent) (h : y.toRat < x.toRat) :
    y.toRat ≤ (x.significand - 2 * x.reachBelow) * 2 ^ x.exponent := by
  have hpow : (0 : ℚ) < 2 ^ x.exponent := by positivity
  by_cases hexponent : x.exponent ≤ y.exponent
  · have hn := Binary.toRat_eq_units hexponent
    generalize y.significand * 2 ^ (y.exponent - x.exponent).toNat = n at hn
    rw [hn, Binary.toRat] at h
    have hlt : (n : ℚ) < x.significand := lt_of_mul_lt_mul_right h hpow.le
    have hle : ((n + 1 : ℕ) : ℚ) ≤ x.significand := by exact_mod_cast hlt
    push_cast at hle
    rw [hn]
    gcongr
    linarith [x.reachBelow_le]
  · refine (Binary.toRat_le_halves hy (not_le.1 hexponent)).trans
      (mul_le_mul_of_nonneg_right ?_ hpow.le)
    have hfull := hx.full (by omega)
    cases hnarrow : x.narrowBelow with
    | true =>
        rw [(hx.narrow.1 hnarrow).1, Binary.reachBelow, if_pos hnarrow]
        norm_num
    | false =>
        have hne : x.significand ≠ 2 ^ 52 := fun heq => by
          have := hx.narrow.2 ⟨heq, by omega⟩
          rw [hnarrow] at this
          cases this
        have hcast : ((2 ^ 52 + 1 : ℕ) : ℚ) ≤ x.significand := by
          exact_mod_cast (by omega : 2 ^ 52 + 1 ≤ x.significand)
        push_cast at hcast
        rw [Binary.reachBelow, if_neg (by simp [hnarrow])]
        linarith

/-- **No magnitude is nearer to a number than the one that owns it**, and if another is as near, the
significand of the owner is even. -/
theorem Binary.Owns.nearest {q : ℚ} (h : x.Owns q) (hx : x.Canonical)
    (hy : y.significand < 2 ^ 53) (hleast : -1074 ≤ y.exponent) :
    |q - x.toRat| ≤ |q - y.toRat| ∧
      (|q - y.toRat| = |q - x.toRat| → y.toRat = x.toRat ∨ x.significand % 2 = 0) := by
  have hpow : (0 : ℚ) < 2 ^ x.exponent := by positivity
  have hbelow := h.below
  have habove := h.above
  have htieBelow := h.tieBelow
  have htieAbove := h.tieAbove
  rw [le_div_iff₀ hpow] at hbelow
  rw [div_le_iff₀ hpow] at habove
  rw [div_eq_iff hpow.ne'] at htieBelow htieAbove
  have hself : x.toRat = x.significand * 2 ^ x.exponent := rfl
  rcases lt_trichotomy y.toRat x.toRat with hlt | heq | hlt
  · have hgap := hx.gap_below hy hleast hlt
    -- The number is at least halfway from the other magnitude to the owner.
    have hhalf : x.toRat - q ≤ q - y.toRat := by
      rw [hself]
      linarith
    have hother : |q - y.toRat| = q - y.toRat := abs_of_nonneg (by linarith)
    rw [hother]
    refine ⟨abs_le.2 ⟨by linarith, by linarith⟩, ?_⟩
    intro htie
    refine .inr (htieBelow ?_)
    rcases abs_choice (q - x.toRat) with habs | habs
    · rw [habs] at htie
      linarith
    · rw [habs] at htie
      rw [hself] at htie hhalf
      linarith
  · exact ⟨by rw [heq], fun _ => .inl heq⟩
  · have hgap := Binary.gap_above hx.full hy hleast hlt
    have hhalf : q - x.toRat ≤ y.toRat - q := by
      rw [hself]
      linarith
    have hother : |q - y.toRat| = y.toRat - q := by
      rw [abs_sub_comm]
      exact abs_of_nonneg (by linarith)
    rw [hother]
    refine ⟨abs_le.2 ⟨by linarith, by linarith⟩, ?_⟩
    intro htie
    refine .inr (htieAbove ?_)
    rcases abs_choice (q - x.toRat) with habs | habs
    · rw [habs, hself] at htie
      linarith
    · rw [habs] at htie
      linarith

/-- The numbers that a magnitude owns are below the point from which on numbers round to infinity:
halfway from the largest finite double, whose significand is odd, to the next power of two. -/
theorem Binary.Owns.lt_overflow {q : ℚ} (h : x.Owns q) (hx : x.Canonical) :
    q < 2 ^ 1024 - 2 ^ 970 := by
  have hpow : (0 : ℚ) < 2 ^ x.exponent := by positivity
  have hunit : (2 : ℚ) ^ x.exponent ≤ 2 ^ (971 : Int) :=
    zpow_le_zpow_right₀ one_le_two hx.greatest
  have hquotient : q / 2 ^ x.exponent < 2 ^ 53 - 1 / 2 := by
    have hcast : ((x.significand + 1 : ℕ) : ℚ) ≤ ((2 ^ 53 : ℕ) : ℚ) := by exact_mod_cast hx.lt
    push_cast at hcast
    refine lt_of_le_of_ne (h.above.trans (by linarith)) ?_
    intro heq
    have habove := h.above
    have hlast : x.significand = 2 ^ 53 - 1 := by
      have hle : ((2 ^ 53 : ℕ) : ℚ) ≤ ((x.significand + 1 : ℕ) : ℚ) := by
        push_cast
        linarith
      have hle : 2 ^ 53 ≤ x.significand + 1 := by exact_mod_cast hle
      have := hx.lt
      omega
    have heven := h.tieAbove (by rw [heq, hlast]; norm_num)
    rw [hlast] at heven
    cases heven
  have hlast : (2 : ℚ) ^ (971 : Int) = 2 * 2 ^ 970 := by
    rw [zpow_ofNat, ← pow_succ']
  have hnext : (2 : ℚ) ^ 1024 = 2 ^ 54 * 2 ^ 970 := by rw [← pow_add]
  rw [div_lt_iff₀ hpow] at hquotient
  rw [hlast] at hunit
  rw [hnext]
  calc q < (2 ^ 53 - 1 / 2) * 2 ^ x.exponent := hquotient
    _ ≤ (2 ^ 53 - 1 / 2) * (2 * 2 ^ 970) := mul_le_mul_of_nonneg_left hunit (by norm_num)
    _ = 2 ^ 54 * 2 ^ 970 - 2 ^ 970 := by
        generalize (2 : ℚ) ^ 970 = unit
        ring

end Gaps

/-! ### Signs -/

theorem abs_signedRat (negative : Bool) (q : ℚ) : |signedRat negative q| = |q| := by
  cases negative with
  | false => rfl
  | true => exact abs_neg q

/-- Of the same sign, two numbers are as far apart as their magnitudes. -/
theorem abs_signedRat_sub_self (negative : Bool) (a b : ℚ) :
    |signedRat negative a - signedRat negative b| = |a - b| := by
  cases negative with
  | false => rfl
  | true =>
      change |-a - -b| = _
      rw [neg_sub_neg, abs_sub_comm]

/-- Of different signs, two numbers are as far apart as the sum of their magnitudes. -/
theorem abs_signedRat_sub_of_ne {negative other : Bool} (h : other ≠ negative) {a b : ℚ}
    (ha : 0 ≤ a) (hb : 0 ≤ b) : |signedRat negative a - signedRat other b| = a + b := by
  cases negative <;> cases other
  · exact absurd rfl h
  · change |a - -b| = _
    rw [sub_neg_eq_add]
    exact abs_of_nonneg (by linarith)
  · change |-a - b| = _
    rw [← neg_add', abs_neg]
    exact abs_of_nonneg (by linarith)
  · exact absurd rfl h

/-- Whatever their signs, two numbers are no nearer to each other than their magnitudes. -/
theorem abs_sub_le_signedRat (negative other : Bool) {a b : ℚ} (ha : 0 ≤ a) (hb : 0 ≤ b) :
    |a - b| ≤ |signedRat negative a - signedRat other b| := by
  by_cases h : other = negative
  · rw [h, abs_signedRat_sub_self]
  · rw [abs_signedRat_sub_of_ne h ha hb]
    exact abs_le.2 ⟨by linarith, by linarith⟩

/-! ### Rounding to a double -/

theorem Binary.Canonical.isFinite_toFloat {x : Binary} (hx : x.Canonical) (sign : Sign) :
    IsFinite (hx.toFloat sign) := by
  constructor
  · change (hx.toFloat sign).toModel.unpack.isNaN = false
    rw [hx.unpack_toFloat]
    rfl
  · change (hx.toFloat sign).toModel.unpack.isInf = false
    rw [hx.unpack_toFloat]
    rfl

/-- **A number rounds to the double that owns it**, each with the same sign. -/
theorem Binary.Owns.roundsTo {x : Float} {q : ℚ} (howns : (Binary.ofFloat x).Owns q)
    (hx : (Binary.ofFloat x).Canonical) (h : x = hx.toFloat (signOf x)) :
    RoundsTo (signedRat (isNegative x) q) x := by
  have hq : 0 < q := lt_of_lt_of_le (by positivity) (howns.bounds hx).1
  have hself : |signedRat (isNegative x) q - valueOf x| = |q - (Binary.ofFloat x).toRat| :=
    abs_signedRat_sub_self _ _ _
  refine ⟨?finite, ?lt, ?nearest, ?tie⟩
  case finite =>
    rw [h]
    exact hx.isFinite_toFloat _
  case lt =>
    rw [abs_signedRat, abs_of_pos hq]
    exact howns.lt_overflow hx
  all_goals
    intro y hy
    obtain ⟨hlt, hleast⟩ := Binary.ofFloat_bounds y
    obtain ⟨hnearest, htie⟩ := howns.nearest hx hlt hleast
    have hother := abs_sub_le_signedRat (isNegative x) (isNegative y) hq.le
      (Binary.ofFloat y).toRat_nonneg
    change _ ≤ |signedRat (isNegative x) q - valueOf y| at hother
  case nearest =>
    rw [hself]
    exact hnearest.trans hother
  case tie =>
    intro heq
    rw [hself] at heq
    rw [heq] at hother
    rcases htie (le_antisymm hother hnearest) with hvalue | heven
    · by_cases hsign : isNegative y = isNegative x
      · left
        rw [valueOf, valueOf, hsign, hvalue]
      · -- The same magnitude on the other side is farther away.
        exfalso
        have hfar := abs_signedRat_sub_of_ne hsign hq.le (Binary.ofFloat y).toRat_nonneg
        change |signedRat (isNegative x) q - valueOf y| = _ at hfar
        have hpos := hx.toRat_pos
        rw [hfar, hvalue] at heq
        rcases abs_choice (q - (Binary.ofFloat x).toRat) with habs | habs <;>
          rw [habs] at heq <;> linarith
    · exact .inr heven

theorem isFinite_zero (sign : Sign) : IsFinite (.ofModel (.pack (.zero sign))) := by
  cases sign <;> exact ⟨rfl, rfl⟩

theorem valueOf_zero (sign : Sign) : valueOf (.ofModel (.pack (.zero sign))) = 0 := by
  have hmagnitude : (Binary.ofFloat (.ofModel (.pack (.zero sign)))).significand = 0 := by
    cases sign <;> rfl
  rw [valueOf, Binary.toRat, hmagnitude, Nat.cast_zero, zero_mul]
  generalize isNegative _ = negative
  cases negative <;> simp [signedRat]

/-- Zero rounds to either zero. -/
theorem roundsTo_zero (negative : Bool) (sign : Sign) :
    RoundsTo (signedRat negative 0) (.ofModel (.pack (.zero sign))) := by
  have hzero : signedRat negative 0 = 0 := by cases negative <;> simp [signedRat]
  have hmagnitude : (Binary.ofFloat (.ofModel (.pack (.zero sign)))).significand = 0 := by
    cases sign <;> rfl
  rw [hzero]
  refine ⟨?finite, ?lt, ?nearest, fun _ _ _ => .inr (by rw [hmagnitude])⟩
  case finite => exact isFinite_zero sign
  case lt =>
    rw [abs_zero, sub_pos]
    exact pow_lt_pow_right₀ one_lt_two (by norm_num)
  case nearest =>
    intro y _
    rw [valueOf_zero, sub_zero, abs_zero]
    exact abs_nonneg _

/-! ### One value only -/

/-- The significand fits in 53 bits and uses all of them where the exponent is not the least. -/
structure Binary.Fits (x : Binary) : Prop where
  lt : x.significand < 2 ^ 53
  least : -1074 ≤ x.exponent
  greatest : x.exponent ≤ 971
  full : -1074 < x.exponent → 2 ^ 52 ≤ x.significand

theorem IsFinite.fits {x : Float} (h : IsFinite x) : (Binary.ofFloat x).Fits := by
  rcases h.cases with hzero | ⟨hx, -⟩
  · rw [hzero]
    generalize signOf x = sign
    cases sign <;> exact ⟨by decide, by decide, by decide, by decide⟩
  · exact ⟨hx.lt, hx.least, hx.greatest, hx.full⟩

/-- **Between two magnitudes with even significands there is another.** It is the one next to the
smaller of the two, whose significand is odd. -/
theorem Binary.exists_between {x y : Binary} (hx : x.Fits) (hxeven : x.significand % 2 = 0)
    (hy : y.Fits) (hyeven : y.significand % 2 = 0) (h : x.toRat < y.toRat) :
    ∃ z : Binary, z.Canonical ∧ x.toRat < z.toRat ∧ z.toRat < y.toRat := by
  have hpow : (0 : ℚ) < 2 ^ x.exponent := by positivity
  have hlt := hx.lt
  let z : Binary := ⟨x.significand + 1, x.exponent, false⟩
  have hz : z.Canonical :=
    { pos := Nat.succ_pos _
      lt := show x.significand + 1 < 2 ^ 53 by omega
      least := hx.least
      greatest := hx.greatest
      full := fun hexponent => Nat.le_succ_of_le (hx.full hexponent)
      narrow := by
        simp only [z, Bool.false_eq_true, false_iff]
        omega }
  have hnext : z.toRat = (x.significand + 1) * 2 ^ x.exponent := by simp [toRat, z]
  have hgap := gap_above hx.full hy.lt hy.least h
  rw [← hnext] at hgap
  refine ⟨z, hz, ?_, lt_of_le_of_ne hgap fun heq => ?_⟩
  · rw [hnext, toRat]
    gcongr
    exact lt_add_one _
  · rw [hnext] at heq
    by_cases hexponent : x.exponent ≤ y.exponent
    · rw [toRat_eq_units hexponent] at heq
      have hunits := mul_right_cancel₀ hpow.ne' heq
      have hunits : x.significand + 1 = y.significand * 2 ^ (y.exponent - x.exponent).toNat := by
        exact_mod_cast hunits
      have hparity := congrArg (· % 2) hunits
      simp only [Nat.mul_mod, hyeven, Nat.zero_mul, Nat.zero_mod] at hparity
      omega
    · have hle := toRat_le_halves hy.lt (not_le.1 hexponent)
      rw [← heq] at hle
      have hsignificand := le_of_mul_le_mul_right hle hpow
      have hleast := hy.least
      have hfull : ((2 ^ 52 : ℕ) : ℚ) ≤ x.significand := by exact_mod_cast hx.full (by omega)
      push_cast at hfull
      linarith

/-- A magnitude and its sign are those of the double that is made of them. -/
theorem Binary.Canonical.ofFloat_toFloat {x : Binary} (hx : x.Canonical) (sign : Sign) :
    (Binary.ofFloat (hx.toFloat sign)).toRat = x.toRat ∧ signOf (hx.toFloat sign) = sign := by
  have hunpack := hx.unpack_toFloat sign
  rcases (hx.isFinite_toFloat sign).cases with h | ⟨hy, h⟩
  · exfalso
    rw [h] at hunpack
    generalize signOf (hx.toFloat sign) = other at hunpack
    cases other <;> cases hunpack
  · have hboth := congrArg (fun f : Float => f.toModel.unpack) h
    simp only [hx.unpack_toFloat, hy.unpack_toFloat] at hboth
    obtain ⟨hsign, hsignificand, hexponent⟩ := Float.Model.UnpackedFloat.finite.inj hboth
    exact ⟨by rw [toRat, toRat, hsignificand, hexponent], hsign.symm⟩

theorem Binary.Canonical.valueOf_positive {x : Binary} (hx : x.Canonical) :
    valueOf (hx.toFloat .positive) = x.toRat := by
  obtain ⟨hvalue, hsign⟩ := hx.ofFloat_toFloat .positive
  rw [valueOf, hvalue]
  unfold signOf at hsign
  split at hsign
  · cases hsign
  · next hpositive => simp [signedRat, hpositive]

theorem Binary.Canonical.valueOf_negative {x : Binary} (hx : x.Canonical) :
    valueOf (hx.toFloat .negative) = -x.toRat := by
  obtain ⟨hvalue, hsign⟩ := hx.ofFloat_toFloat .negative
  rw [valueOf, hvalue]
  unfold signOf at hsign
  split at hsign
  · next hnegative => simp [signedRat, hnegative]
  · cases hsign

theorem valueOf_of_nonneg {x : Float} (h : 0 ≤ valueOf x) :
    valueOf x = (Binary.ofFloat x).toRat := by
  have hnonneg := (Binary.ofFloat x).toRat_nonneg
  unfold valueOf signedRat at h ⊢
  split at h
  · next hnegative =>
    rw [if_pos hnegative]
    linarith
  · next hpositive => rw [if_neg hpositive]

theorem valueOf_of_nonpos {x : Float} (h : valueOf x ≤ 0) :
    valueOf x = -(Binary.ofFloat x).toRat := by
  have hnonneg := (Binary.ofFloat x).toRat_nonneg
  unfold valueOf signedRat at h ⊢
  split at h
  · next hnegative => rw [if_pos hnegative]
  · next hpositive =>
    rw [if_neg hpositive]
    linarith

/-- **Between two doubles with even significands there is another.** -/
theorem exists_valueOf_between {x y : Float} (hx : IsFinite x)
    (hxeven : (Binary.ofFloat x).significand % 2 = 0) (hy : IsFinite y)
    (hyeven : (Binary.ofFloat y).significand % 2 = 0) (h : valueOf x < valueOf y) :
    ∃ z, IsFinite z ∧ valueOf x < valueOf z ∧ valueOf z < valueOf y := by
  rcases le_or_gt 0 (valueOf x) with hnonneg | hneg
  · have hvalue := valueOf_of_nonneg (hnonneg.trans h.le)
    rw [valueOf_of_nonneg hnonneg, hvalue] at h ⊢
    obtain ⟨z, hz, hbelow, habove⟩ := Binary.exists_between hx.fits hxeven hy.fits hyeven h
    refine ⟨hz.toFloat .positive, hz.isFinite_toFloat .positive, ?_⟩
    rw [hz.valueOf_positive]
    exact ⟨hbelow, habove⟩
  · rcases le_or_gt (valueOf y) 0 with hnonpos | hpos
    · rw [valueOf_of_nonpos hneg.le, valueOf_of_nonpos hnonpos] at h ⊢
      rw [neg_lt_neg_iff] at h
      obtain ⟨z, hz, hbelow, habove⟩ := Binary.exists_between hy.fits hyeven hx.fits hxeven h
      refine ⟨hz.toFloat .negative, hz.isFinite_toFloat .negative, ?_⟩
      rw [hz.valueOf_negative]
      exact ⟨neg_lt_neg habove, neg_lt_neg hbelow⟩
    · refine ⟨_, isFinite_zero .positive, ?_⟩
      rw [valueOf_zero]
      exact ⟨hneg, hpos⟩

/-- What lies between two numbers that are as near is nearer. -/
theorem abs_sub_lt_of_between {q a b c : ℚ} (hsame : |q - a| = |q - b|) (hac : a < c)
    (hcb : c < b) : |q - c| < |q - a| := by
  have hmiddle : q - a = b - q := by
    rcases abs_eq_abs.1 hsame with heq | heq <;> linarith
  have hpos : 0 < q - a := by linarith
  rw [abs_of_pos hpos]
  exact abs_lt.2 ⟨by linarith, by linarith⟩

/-- **A number rounds to one value only.** If two were as near, both would have even significands,
and a third between them would be nearer. -/
theorem RoundsTo.valueOf_eq {q : ℚ} {x y : Float} (hx : RoundsTo q x) (hy : RoundsTo q y) :
    valueOf x = valueOf y := by
  have hsame : |q - valueOf y| = |q - valueOf x| :=
    le_antisymm (hy.nearest x hx.finite) (hx.nearest y hy.finite)
  by_contra hne
  have hxeven := (hx.tie y hy.finite hsame).resolve_left (Ne.symm hne)
  have hyeven := (hy.tie x hx.finite hsame.symm).resolve_left hne
  rcases lt_or_gt_of_ne hne with hlt | hlt
  · obtain ⟨z, hz, hbelow, habove⟩ := exists_valueOf_between hx.finite hxeven hy.finite hyeven hlt
    exact (hx.nearest z hz).not_gt (abs_sub_lt_of_between hsame.symm hbelow habove)
  · obtain ⟨z, hz, hbelow, habove⟩ := exists_valueOf_between hy.finite hyeven hx.finite hxeven hlt
    exact (hy.nearest z hz).not_gt (abs_sub_lt_of_between hsame hbelow habove)

end ScriptLang.Number
