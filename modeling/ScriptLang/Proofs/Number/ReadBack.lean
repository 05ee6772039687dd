import ScriptLang.Proofs.Number.Decimal
import ScriptLang.Proofs.Number.Magnitude

/-!
# Reading decimals

A decimal is read by one multiplication or division of doubles. Both are exact up to their last
step, which rounds, so a decimal whose value lies in the interval of a magnitude is read as the
double with that magnitude. In particular a double is read back from its shortest decimal, and from
every other decimal of the same value.

## Main Statements

* `Binary.Owns.mul_eq`, `Binary.Owns.div_eq`: the product and the quotient of two doubles.
* `Binary.Owns.ofScientific_eq`: a decimal is read as the double that owns it.
* `Binary.Owns.ofDecimal_eq`: the same where decimals of any size are read.
* `isNaN_ofDecimal`: no decimal is read as NaN.
-/

namespace ScriptLang.Number

open Float.Model (Format UnpackedFloat totalExponent)
open Float.Model.UnpackedFloat

/-! ### What the rounding step is given -/

theorem describes_exact (m : Nat) : Describes (.ofMantissaAndAccuracy m .exact) m := by
  refine ⟨?_, ?_, ?_, ?_⟩ <;> simp [ExtendedMantissa.ofMantissaAndAccuracy]

/-- A remainder is compared with half the divisor. -/
theorem describes_accuracyOfFraction (m : Nat) {num den : Nat} (h : num < den) :
    Describes (.ofMantissaAndAccuracy m (accuracyOfFraction num den)) (m + num / den : ℚ) := by
  have hden : (0 : ℚ) < den := by
    exact_mod_cast Nat.zero_lt_of_lt h
  unfold accuracyOfFraction
  split
  · next hzero => simpa [hzero] using describes_exact m
  · next hzero =>
    have hnum : (0 : ℚ) < num := by exact_mod_cast Nat.pos_of_ne_zero hzero
    have hpos : (0 : ℚ) < num / den := by positivity
    have hlt : (num / den : ℚ) < 1 := by
      rw [div_lt_one hden]
      exact_mod_cast h
    have hhalf : (1 / 2 : ℚ) ≤ num / den ↔ den ≤ 2 * num := by
      rw [div_le_div_iff₀ two_pos hden, one_mul, ← Nat.cast_le (α := ℚ)]
      push_cast
      rw [mul_comm]
    have heq : (num / den : ℚ) = 1 / 2 ↔ 2 * num = den := by
      rw [div_eq_div_iff hden.ne' two_ne_zero, one_mul, ← Nat.cast_inj (R := ℚ)]
      push_cast
      rw [mul_comm]
    rcases lt_trichotomy (2 * num) den with hcmp | hcmp | hcmp
    · rw [compare_lt_iff_lt.2 hcmp]
      refine ⟨?_, ?_, ?_, ?_⟩ <;> simp [ExtendedMantissa.ofMantissaAndAccuracy] <;> grind
    · rw [compare_eq_iff_eq.2 hcmp]
      refine ⟨?_, ?_, ?_, ?_⟩ <;> simp [ExtendedMantissa.ofMantissaAndAccuracy] <;> grind
    · rw [compare_gt_iff_gt.2 hcmp]
      refine ⟨?_, ?_, ?_, ?_⟩ <;> simp [ExtendedMantissa.ofMantissaAndAccuracy] <;> grind

/-! ### Products and quotients -/

/-- **A product is the double that owns it**, if the mantissas have bits enough. -/
theorem Binary.Owns.mul_eq {x : Binary} {m₁ m₂ : Nat} {e₁ e₂ : Int} {h₁ : 0 < m₁} {h₂ : 0 < m₂}
    (h : x.Owns (m₁ * 2 ^ e₁ * (m₂ * 2 ^ e₂))) (hx : x.Canonical) (hbits : 2 ^ 52 ≤ m₁ * m₂) :
    mul .binary64 (.finite .positive m₁ e₁ h₁) (.finite .positive m₂ e₂ h₂) =
      .finite .positive x.significand x.exponent hx.pos := by
  have hquotient : (m₁ * 2 ^ e₁ * (m₂ * 2 ^ e₂) / 2 ^ (e₁ + e₂) : ℚ) = (m₁ * m₂ : ℕ) := by
    rw [zpow_add₀ two_ne_zero]
    push_cast
    field_simp
  refine h.round_eq hx ?_ ?_ .positive
  · rw [hquotient]
    exact describes_exact _
  · rw [targetExponent_totalExponent]
    have := (Nat.le_log2 (by positivity)).2 hbits
    omega

/-- The division of mantissas leaves bits enough, and a remainder that tells the rest. -/
theorem describes_divCore {m₁ m₂ : Nat} (e₁ e₂ : Int) (h₁ : 0 < m₁) (h₂ : 0 < m₂) :
    let result := divCore .binary64 m₁ e₁ m₂ e₂
    Describes (.ofMantissaAndAccuracy result.1 result.2.2)
        (m₁ * 2 ^ e₁ / (m₂ * 2 ^ e₂) / 2 ^ result.2.1) ∧
      result.2.1 ≤ Format.binary64.targetExponent (totalExponent result.1 result.2.1) := by
  unfold divCore
  simp only
  have htarget : Format.binary64.targetExponent (totalExponent m₁ e₁ - totalExponent m₂ e₂) =
      max (m₁.log2 + e₁ - (m₂.log2 + e₂) - 53) (-1074) := by
    simp only [Format.targetExponent, totalExponent, Format.mantissaBits, Format.minExponent]
    omega
  rw [htarget]
  generalize hunit : min (e₁ - e₂) (max (m₁.log2 + e₁ - (m₂.log2 + e₂) - 53) (-1074)) = unit
  generalize hshift : (e₁ - e₂ - unit).toNat = shift
  rw [Nat.shiftLeft_eq]
  constructor
  · -- The quotient in the chosen unit is the whole quotient and its remainder.
    have hquotient : (m₁ * 2 ^ e₁ / (m₂ * 2 ^ e₂) / 2 ^ unit : ℚ) =
        (m₁ * 2 ^ shift / m₂ : ℕ) + (m₁ * 2 ^ shift % m₂ : ℕ) / m₂ := by
      have hpow : (2 : ℚ) ^ e₁ = 2 ^ shift * 2 ^ unit * 2 ^ e₂ := by
        rw [← zpow_natCast, ← zpow_add₀ two_ne_zero, ← zpow_add₀ two_ne_zero]
        congr 1
        omega
      have hm₂ : (m₂ : ℚ) ≠ 0 := by exact_mod_cast h₂.ne'
      have hdivision : (m₁ * 2 ^ shift : ℚ) =
          m₂ * (m₁ * 2 ^ shift / m₂ : ℕ) + (m₁ * 2 ^ shift % m₂ : ℕ) := by
        exact_mod_cast (Nat.div_add_mod (m₁ * 2 ^ shift) m₂).symm
      rw [hpow]
      field_simp
      exact hdivision
    rw [hquotient]
    exact describes_accuracyOfFraction _ (Nat.mod_lt _ h₂)
  · rw [targetExponent_totalExponent]
    by_cases hsmall : unit ≤ -1074
    · omega
    -- Otherwise the shift makes the quotient as long as a full significand.
    have hbits : 2 ^ 52 ≤ m₁ * 2 ^ shift / m₂ := by
      rw [Nat.le_div_iff_mul_le h₂]
      calc 2 ^ 52 * m₂ ≤ 2 ^ 52 * 2 ^ (m₂.log2 + 1) := by
            gcongr
            exact Nat.lt_log2_self.le
        _ ≤ 2 ^ m₁.log2 * 2 ^ shift := by
            rw [← pow_add, ← pow_add]
            exact Nat.pow_le_pow_right (by decide) (by omega)
        _ ≤ m₁ * 2 ^ shift := by
            gcongr
            exact Nat.log2_self_le h₁.ne'
    have hpos : m₁ * 2 ^ shift / m₂ ≠ 0 := by
      have := Nat.two_pow_pos 52
      omega
    have := (Nat.le_log2 hpos).2 hbits
    omega

/-- **A quotient is the double that owns it.** -/
theorem Binary.Owns.div_eq {x : Binary} {m₁ m₂ : Nat} {e₁ e₂ : Int} {h₁ : 0 < m₁} {h₂ : 0 < m₂}
    (h : x.Owns (m₁ * 2 ^ e₁ / (m₂ * 2 ^ e₂))) (hx : x.Canonical) :
    div .binary64 (.finite .positive m₁ e₁ h₁) (.finite .positive m₂ e₂ h₂) =
      .finite .positive x.significand x.exponent hx.pos := by
  obtain ⟨hdescribes, hunit⟩ := describes_divCore e₁ e₂ h₁ h₂
  exact h.round_eq hx hdescribes hunit .positive

/-! ### Whole numbers as doubles -/

/-- The unpacked double is this whole number, with a mantissa of full length. -/
def IsWhole (n : Nat) : UnpackedFloat → Prop
  | .finite .positive m e _ => m * 2 ^ e.toNat = n * 2 ^ (-e).toNat ∧ 2 ^ 52 ≤ m
  | _ => False

instance (n : Nat) : DecidablePred (IsWhole n)
  | .finite .positive m e _ =>
    inferInstanceAs (Decidable (m * 2 ^ e.toNat = n * 2 ^ (-e).toNat ∧ 2 ^ 52 ≤ m))
  | .finite .negative .. => inferInstanceAs (Decidable False)
  | .infinity _ => inferInstanceAs (Decidable False)
  | .notANumber => inferInstanceAs (Decidable False)
  | .zero _ => inferInstanceAs (Decidable False)

theorem IsWhole.eq_finite {n : Nat} {u : UnpackedFloat} (h : IsWhole n u) :
    ∃ m e hm, u = .finite .positive m e hm ∧ (m * 2 ^ e : ℚ) = n ∧ 2 ^ 52 ≤ m := by
  match u, h with
  | .finite .positive m e hm, h =>
    refine ⟨m, e, hm, rfl, ?_, h.2⟩
    have hnat : (m * 2 ^ e.toNat : ℚ) = n * 2 ^ (-e).toNat := by exact_mod_cast h.1
    have hpow := zpow_mul_pow_neg_toNat (by norm_num : (2 : ℚ) ≠ 0) e
    have hscale : (2 : ℚ) ^ (-e).toNat ≠ 0 := by positivity
    apply mul_right_cancel₀ hscale
    rw [mul_assoc, hpow, hnat]

/-- The table of powers of ten is right. -/
theorem isWhole_powersOfTen (k : Fin Float.exactlyRepresentablePowersOfTen.size) :
    IsWhole (10 ^ k.val) Float.exactlyRepresentablePowersOfTen[k].toModel.unpack := by
  revert k
  decide +kernel

/-- A whole number of at most 53 bits, with its mantissa filled up. -/
def Binary.ofNat (n : Nat) : Binary where
  significand := n * 2 ^ (52 - n.log2)
  exponent := n.log2 - 52
  narrowBelow := decide (n * 2 ^ (52 - n.log2) = 2 ^ 52)

theorem Binary.canonical_ofNat {n : Nat} (hpos : 0 < n) (hlt : n < 2 ^ 53) :
    (Binary.ofNat n).Canonical := by
  have hlog := (Nat.log2_lt hpos.ne').2 hlt
  have hlower : 2 ^ 52 ≤ n * 2 ^ (52 - n.log2) := by
    calc 2 ^ 52 = 2 ^ n.log2 * 2 ^ (52 - n.log2) := by
          rw [← pow_add]
          congr 1
          omega
      _ ≤ n * 2 ^ (52 - n.log2) := by
          gcongr
          exact Nat.log2_self_le hpos.ne'
  have hupper : n * 2 ^ (52 - n.log2) < 2 ^ 53 := by
    calc n * 2 ^ (52 - n.log2) < 2 ^ (n.log2 + 1) * 2 ^ (52 - n.log2) := by
          gcongr
          exact Nat.lt_log2_self
      _ = 2 ^ 53 := by
          rw [← pow_add]
          congr 1
          omega
  refine ⟨?_, hupper, ?_, ?_, fun _ => hlower, ?_⟩ <;> simp only [ofNat]
  · exact Nat.lt_of_lt_of_le (by decide) hlower
  · omega
  · omega
  · rw [decide_eq_true_eq]
    constructor
    · intro h
      exact ⟨h, by omega⟩
    · exact fun h => h.1

/-- A magnitude with a full mantissa is rounded to itself. -/
theorem Binary.Canonical.round_self {x : Binary} (hx : x.Canonical) (sign : Sign) :
    roundWithAccuracy .binary64 sign x.significand x.exponent .exact =
      .finite sign x.significand x.exponent hx.pos := by
  refine x.owns_self.round_eq hx ?_ hx.targetExponent_eq.ge sign
  rw [mul_div_cancel_right₀ _ (by positivity)]
  exact describes_exact _

/-- A whole number of at most 53 bits is a double. -/
theorem toFloat_ofNat {n : Nat} (hpos : 0 < n) (hlt : n < 2 ^ 53) :
    n.toUInt64.toFloat = (Binary.canonical_ofNat hpos hlt).toFloat .positive := by
  have hword : n.toUInt64.toNat = n := by
    simp only [Nat.toUInt64_eq, UInt64.toNat_ofNat']
    omega
  have hlog := (Nat.log2_lt hpos.ne').2 hlt
  have hshift : (0 - max ((n.log2 : Int) + 0 - 52) (-1074)).toNat = 52 - n.log2 := by omega
  have hexponent : (0 : Int) - (52 - n.log2 : ℕ) = n.log2 - 52 := by omega
  have hround : UnpackedFloat.round .binary64 .positive n 0 =
      .finite .positive (Binary.ofNat n).significand (Binary.ofNat n).exponent
        (Binary.canonical_ofNat hpos hlt).pos := by
    simp only [UnpackedFloat.round, decreaseExponent, targetExponent_totalExponent, hshift,
      hexponent, Nat.shiftLeft_eq]
    exact (Binary.canonical_ofNat hpos hlt).round_self .positive
  change Float.ofModel (.pack (UnpackedFloat.normalize .binary64 n.toUInt64.toNat 0 .positive)) = _
  rw [hword, UnpackedFloat.normalize, Int.compare_eq_gt.2 (by exact_mod_cast hpos)]
  simp only [Int.toNat_natCast, hround]
  rfl

theorem isWhole_toFloat {n : Nat} (hpos : 0 < n) (hlt : n < 2 ^ 53) :
    IsWhole n n.toUInt64.toFloat.toModel.unpack := by
  have hx := Binary.canonical_ofNat hpos hlt
  have hlog := (Nat.log2_lt hpos.ne').2 hlt
  have hexponent : (Binary.ofNat n).exponent = n.log2 - 52 := rfl
  have hpositive : (Binary.ofNat n).exponent.toNat = 0 := by omega
  have hnegative : (-(Binary.ofNat n).exponent).toNat = 52 - n.log2 := by omega
  rw [toFloat_ofNat hpos hlt, hx.unpack_toFloat]
  refine ⟨?_, hx.full (by omega)⟩
  rw [hpositive, hnegative, pow_zero, mul_one]
  rfl

/-! ### Decimals -/

/-- Digits and power that are doubles themselves are multiplied or divided as such. -/
theorem Binary.Owns.ofScientific_fast {x : Binary} {digits : Nat} {e : Int}
    (h : x.Owns (digits * 10 ^ e)) (hx : x.Canonical) (hpos : 0 < digits)
    (hdigits : digits < 2 ^ 53) (hsize : e.natAbs < Float.exactlyRepresentablePowersOfTen.size) :
    (if decide (e < 0) then
        digits.toUInt64.toFloat / Float.exactlyRepresentablePowersOfTen[e.natAbs]
      else digits.toUInt64.toFloat * Float.exactlyRepresentablePowersOfTen[e.natAbs]) =
      hx.toFloat .positive := by
  obtain ⟨m₁, e₁, h₁, hu₁, hq₁, hbits⟩ := (isWhole_toFloat hpos hdigits).eq_finite
  obtain ⟨m₂, e₂, h₂, hu₂, hq₂, -⟩ := (isWhole_powersOfTen ⟨e.natAbs, hsize⟩).eq_finite
  simp only [Fin.getElem_fin] at hu₂
  push_cast at hq₂
  by_cases hneg : e < 0
  · have hpower : (10 : ℚ) ^ e = (10 ^ e.natAbs)⁻¹ := by
      rw [← zpow_natCast, ← zpow_neg]
      congr 1
      omega
    rw [hpower, ← hq₁, ← hq₂, ← div_eq_mul_inv] at h
    rw [if_pos (decide_eq_true hneg)]
    change Float.ofModel (.pack (div .binary64 digits.toUInt64.toFloat.toModel.unpack
      Float.exactlyRepresentablePowersOfTen[e.natAbs].toModel.unpack)) = _
    rw [hu₁, hu₂, h.div_eq hx]
    rfl
  · have hpower : (10 : ℚ) ^ e = 10 ^ e.natAbs := by
      rw [← zpow_natCast]
      congr 1
      omega
    rw [hpower, ← hq₁, ← hq₂] at h
    rw [if_neg (by simpa using hneg)]
    change Float.ofModel (.pack (mul .binary64 digits.toUInt64.toFloat.toModel.unpack
      Float.exactlyRepresentablePowersOfTen[e.natAbs].toModel.unpack)) = _
    rw [hu₁, hu₂, h.mul_eq hx (hbits.trans (Nat.le_mul_of_pos_right _ h₂))]
    rfl

theorem shiftLeft_mul_zpow (n k : Nat) : ((n <<< k : ℕ) : ℚ) * 2 ^ (-(k : Int)) = n := by
  rw [Nat.shiftLeft_eq, zpow_neg, zpow_natCast]
  push_cast
  field_simp

/-- Others are multiplied or divided with mantissas of any length. -/
theorem Binary.Owns.ofScientific_slow {x : Binary} {digits : Nat} {e : Int}
    (h : x.Owns (digits * 10 ^ e)) (hx : x.Canonical) (hpos : 0 < digits) (hlarge : e ≤ 2048)
    (hsmall : -(2048 + digits.log2) ≤ e) :
    ofScientific .binary64 digits e = .finite .positive x.significand x.exponent hx.pos := by
  unfold ofScientific
  rw [dif_neg hpos.ne', if_neg (by change ¬ e > 2048; omega),
    if_neg (by change ¬ e < -(2048 + (digits.log2 : Int)); omega)]
  split
  · next hnonneg =>
    have hpower : (10 : ℚ) ^ e = 10 ^ e.toNat := by
      rw [← zpow_natCast]
      congr 1
      omega
    refine Owns.mul_eq ?_ hx ?_
    · rw [shiftLeft_mul_zpow, zpow_zero, mul_one]
      push_cast
      rw [← hpower]
      exact h
    · rw [Nat.shiftLeft_eq]
      calc 2 ^ 52 ≤ 1 * 2 ^ Format.binary64.mantissaBits * 1 := by decide
        _ ≤ digits * 2 ^ Format.binary64.mantissaBits * 10 ^ e.toNat := by
            gcongr
            · exact hpos
            · exact Nat.one_le_pow _ _ (by decide)
  · next hneg =>
    have hpower : (10 : ℚ) ^ e = (10 ^ (-e).toNat)⁻¹ := by
      rw [← zpow_natCast, ← zpow_neg]
      congr 1
      omega
    refine Owns.div_eq ?_ hx
    rw [hpower, ← div_eq_mul_inv] at h
    simpa using h

/-- **A decimal is read as the double that owns it.** -/
theorem Binary.Owns.ofScientific_eq {x : Binary} {digits : Nat} {e : Int}
    (h : x.Owns (digits * 10 ^ e)) (hx : x.Canonical) (hpos : 0 < digits) (hlarge : e ≤ 2048)
    (hsmall : -(2048 + digits.log2) ≤ e) :
    Float.ofScientific digits (decide (e < 0)) e.natAbs = hx.toFloat .positive := by
  unfold Float.ofScientific
  split
  · next hfast => exact h.ofScientific_fast hx hpos hfast.1 _
  · have hexponent :
        (if decide (e < 0) then Int.negOfNat e.natAbs else Int.ofNat e.natAbs) = e := by
      by_cases hneg : e < 0
      · rw [if_pos (decide_eq_true hneg), Int.negOfNat_eq, Int.ofNat_eq_natCast]
        omega
      · rw [if_neg (by simpa using hneg), Int.ofNat_eq_natCast]
        omega
    simp only [hexponent]
    exact congrArg (fun u => Float.ofModel (.pack u)) (h.ofScientific_slow hx hpos hlarge hsmall)

/-! ### The size of a decimal -/

theorem digitCount_pos (n : Nat) : 0 < digitCount n := Nat.length_toDigits_pos

theorem digitCount_le_iff {n k : Nat} (hk : 0 < k) : digitCount n ≤ k ↔ n < 10 ^ k :=
  Nat.length_toDigits_le_iff (by decide) hk

theorem pow_digitCount_le {n : Nat} (hn : 0 < n) : 10 ^ (digitCount n - 1) ≤ n := by
  by_contra hlt
  rw [not_le] at hlt
  rcases Nat.eq_zero_or_pos (digitCount n - 1) with hone | hone
  · rw [hone] at hlt
    omega
  · have := (digitCount_le_iff hone).2 hlt
    omega

theorem digitCount_le_log2 (n : Nat) : digitCount n ≤ n.log2 + 1 := by
  rw [digitCount_le_iff (Nat.succ_pos _)]
  exact Nat.lt_log2_self.trans_le (Nat.pow_le_pow_left (by decide) _)

/-- Three binary digits are worth less than one decimal digit. -/
theorem two_zpow_le_ten_zpow {a k : Nat} (h : a ≤ 3 * k) :
    (2 : ℚ) ^ (a : Int) ≤ 10 ^ (k : Int) := by
  rw [zpow_natCast, zpow_natCast]
  calc (2 : ℚ) ^ a ≤ 2 ^ (3 * k) := pow_le_pow_right₀ one_le_two h
    _ = 8 ^ k := by
        rw [pow_mul]
        norm_num
    _ ≤ 10 ^ k := by
        gcongr
        norm_num

/-- The numbers that a magnitude owns are neither too small for a double nor too large. -/
theorem Binary.Owns.bounds {x : Binary} {q : ℚ} (h : x.Owns q) (hx : x.Canonical) :
    2 ^ (-1075 : Int) ≤ q ∧ q < 2 ^ (1024 : Int) := by
  have hpow : (0 : ℚ) < 2 ^ x.exponent := by positivity
  have hpos : (1 : ℚ) ≤ x.significand := by exact_mod_cast hx.pos
  have hlt : (x.significand : ℚ) + 1 ≤ 2 ^ 53 := by exact_mod_cast hx.lt
  have hbelow := h.below
  have habove := h.above
  rw [le_div_iff₀ hpow] at hbelow
  rw [div_le_iff₀ hpow] at habove
  constructor
  · calc (2 : ℚ) ^ (-1075 : Int) = 1 / 2 * 2 ^ (-1074 : Int) := by
          rw [show (-1075 : Int) = -1074 - 1 by norm_num, zpow_sub_one₀ two_ne_zero]
          ring
      _ ≤ (x.significand - x.reachBelow) * 2 ^ x.exponent := by
          have hreach : 1 / 2 ≤ x.significand - x.reachBelow := by linarith [x.reachBelow_le]
          have hunit : (2 : ℚ) ^ (-1074 : Int) ≤ 2 ^ x.exponent :=
            zpow_le_zpow_right₀ one_le_two hx.least
          exact mul_le_mul hreach hunit (by positivity) (by linarith)
      _ ≤ q := hbelow
  · calc q ≤ (x.significand + 1 / 2) * 2 ^ x.exponent := habove
      _ < 2 ^ 53 * 2 ^ x.exponent := by
          gcongr
          linarith
      _ ≤ 2 ^ 53 * 2 ^ (971 : Int) := by
          gcongr
          · exact one_le_two
          · exact hx.greatest
      _ = 2 ^ (1024 : Int) := by
          rw [← zpow_natCast, ← zpow_add₀ two_ne_zero]
          norm_num

theorem Binary.Owns.digits_pos {x : Binary} {digits : Nat} {e : Int}
    (h : x.Owns (digits * 10 ^ e)) (hx : x.Canonical) : 0 < digits := by
  rcases Nat.eq_zero_or_pos digits with rfl | hpos
  · have hlow := (h.bounds hx).1
    rw [Nat.cast_zero, zero_mul] at hlow
    exact absurd hlow (by simp)
  · exact hpos

/-- **A decimal of any size is read as the double that owns it.** -/
theorem Binary.Owns.ofDecimal_eq {x : Binary} {digits : Nat} {e : Int}
    (h : x.Owns (digits * 10 ^ e)) (hx : x.Canonical) :
    ofDecimal digits e = hx.toFloat .positive := by
  obtain ⟨hlow, hhigh⟩ := h.bounds hx
  have hpos := h.digits_pos hx
  have hsplit (k : Nat) : (10 : ℚ) ^ (k + e) = 10 ^ k * 10 ^ e := by
    rw [zpow_add₀ (by norm_num), zpow_natCast]
  -- The count of the digits gives the power of ten on both sides.
  have hlt : (digits * 10 ^ e : ℚ) < 10 ^ (digitCount digits + e) := by
    rw [hsplit]
    gcongr
    exact_mod_cast (digitCount_le_iff (digitCount_pos _)).1 le_rfl
  have hle : (10 : ℚ) ^ ((digitCount digits - 1 : ℕ) + e) ≤ digits * 10 ^ e := by
    rw [hsplit]
    gcongr
    exact_mod_cast pow_digitCount_le hpos
  have hcount := digitCount_pos digits
  have hsmall : -401 < digitCount digits + e := by
    have hpow : (10 : ℚ) ^ (-401 : Int) ≤ 2 ^ (-1075 : Int) := by
      rw [zpow_neg, zpow_neg]
      exact inv_anti₀ (by positivity) (two_zpow_le_ten_zpow (a := 1075) (k := 401) (by decide))
    exact (zpow_lt_zpow_iff_right₀ (by norm_num)).1 (hpow.trans_lt (hlow.trans_lt hlt))
  have hlarge : (digitCount digits - 1 : ℕ) + e < 400 := by
    have hpow : (2 : ℚ) ^ (1024 : Int) ≤ 10 ^ (400 : Int) :=
      two_zpow_le_ten_zpow (a := 1024) (k := 400) (by decide)
    exact (zpow_lt_zpow_iff_right₀ (by norm_num)).1 (hle.trans_lt (hhigh.trans_le hpow))
  have hlog := digitCount_le_log2 digits
  unfold ofDecimal
  simp only
  rw [if_neg (by simp; omega), if_neg (by omega)]
  exact h.ofScientific_eq hx hpos (by omega) (by omega)

/-! ### Decimals are numbers -/

/-- Bits whose exponent is not all ones are those of a number. -/
theorem isNaN_unpack {b : BitVec Format.binary64.numBits} (h : unpackExponent b ≠ -1#11) :
    (unpack .binary64 b).isNaN = false := by
  unfold unpack
  simp only
  rw [if_neg h]
  split
  · split <;> rfl
  · rfl

/-- What is packed from a number is one. An exponent of all ones is packed for infinities alone. -/
theorem isNaN_ofModel_pack {u : UnpackedFloat} (h : u.isNaN = false) :
    (Float.ofModel (.pack u)).isNaN = false := by
  change (unpack .binary64 (UnpackedFloat.pack .binary64 u)).isNaN = false
  cases u with
  | notANumber => cases h
  | infinity sign => cases sign <;> decide
  | zero sign => cases sign <;> decide
  | finite sign m e hm =>
      unfold UnpackedFloat.pack
      dsimp only
      split
      · cases sign <;> decide
      · next hrange =>
        split
        · apply isNaN_unpack
          rw [unpackExponent_packComponents]
          intro htop
          have hnat := congrArg BitVec.toNat htop
          have hones : (-1#11).toNat = 2047 := rfl
          change ¬ 2 ^ 11 ≤ _ at hrange
          rw [hones] at hnat
          change (BitVec.ofNat 11 _).toNat = 2047 at hnat
          rw [BitVec.toNat_ofNat, Nat.mod_eq_of_lt (by omega)] at hnat
          omega
        · apply isNaN_unpack
          rw [unpackExponent_packComponents]
          decide

theorem isNaN_roundWithAccuracy (sign : Sign) (m : Nat) (e : Int) (accuracy : Accuracy) :
    (roundWithAccuracy .binary64 sign m e accuracy).isNaN = false := by
  unfold roundWithAccuracy
  dsimp only
  split <;> rfl

theorem isNaN_mul_finite (s₁ s₂ : Sign) {m₁ m₂ : Nat} (e₁ e₂ : Int) (h₁ : 0 < m₁) (h₂ : 0 < m₂) :
    (UnpackedFloat.mul .binary64 (.finite s₁ m₁ e₁ h₁) (.finite s₂ m₂ e₂ h₂)).isNaN = false :=
  isNaN_roundWithAccuracy ..

theorem isNaN_div_finite (s₁ s₂ : Sign) {m₁ m₂ : Nat} (e₁ e₂ : Int) (h₁ : 0 < m₁) (h₂ : 0 < m₂) :
    (UnpackedFloat.div .binary64 (.finite s₁ m₁ e₁ h₁) (.finite s₂ m₂ e₂ h₂)).isNaN = false :=
  isNaN_roundWithAccuracy ..

/-- With mantissas of any length, no step gives NaN. -/
theorem isNaN_ofScientific_slow {digits : Nat} (hpos : 0 < digits) (e : Int) :
    (ofScientific .binary64 digits e).isNaN = false := by
  unfold ofScientific
  rw [dif_neg hpos.ne']
  split
  · rfl
  · split
    · rfl
    · split
      · exact isNaN_mul_finite ..
      · exact isNaN_div_finite ..

theorem isNaN_ofScientific {digits : Nat} (hpos : 0 < digits) (negative : Bool) (e : Nat) :
    (Float.ofScientific digits negative e).isNaN = false := by
  unfold Float.ofScientific
  split
  · next hfast =>
    have hsize : e < Float.exactlyRepresentablePowersOfTen.size := Nat.lt_succ_of_le hfast.2
    obtain ⟨m₁, e₁, h₁, hu₁, -⟩ := (isWhole_toFloat hpos hfast.1).eq_finite
    obtain ⟨m₂, e₂, h₂, hu₂, -⟩ := (isWhole_powersOfTen ⟨e, hsize⟩).eq_finite
    simp only [Fin.getElem_fin] at hu₂
    dsimp only
    split
    · refine isNaN_ofModel_pack (u := div .binary64 digits.toUInt64.toFloat.toModel.unpack
        Float.exactlyRepresentablePowersOfTen[e].toModel.unpack) ?_
      rw [hu₁, hu₂]
      exact isNaN_div_finite ..
    · refine isNaN_ofModel_pack (u := mul .binary64 digits.toUInt64.toFloat.toModel.unpack
        Float.exactlyRepresentablePowersOfTen[e].toModel.unpack) ?_
      rw [hu₁, hu₂]
      exact isNaN_mul_finite ..
  · exact isNaN_ofModel_pack (isNaN_ofScientific_slow hpos _)

/-- **No decimal is read as NaN.** -/
theorem isNaN_ofDecimal (digits : Nat) (e : Int) : (ofDecimal digits e).isNaN = false := by
  unfold ofDecimal
  dsimp only
  split
  · decide
  · next hsome =>
    split
    · decide
    · simp only [Bool.or_eq_true, not_or, decide_eq_true_eq] at hsome
      exact isNaN_ofScientific (Nat.pos_of_ne_zero hsome.1) _ _

end ScriptLang.Number
