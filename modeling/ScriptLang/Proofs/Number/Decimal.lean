import ScriptLang.Proofs.Number.Nearest
import ScriptLang.Number.Shortest

/-!
# Decimals that read back

A decimal is tested against a magnitude in whole numbers, with both sides multiplied out. This
module reads the test in rational numbers: a decimal reads back exactly if its value lies in the
interval of the magnitude. The shortest decimal passes the test, whichever grid it was found on.

## Main Definitions

* `Decimal.toRat`: the value of a decimal.

## Main Statements

* `compareScaled_eq`: the comparison in whole numbers is the comparison of the values.
* `Binary.readsBack_iff`: a decimal reads back exactly if the magnitude owns its value.
* `Binary.owns_shortest`: the magnitude owns the value of its shortest decimal.
-/

namespace ScriptLang.Number

/-! ### Comparing in whole numbers -/

/-- The value of a decimal. -/
def Decimal.toRat (d : Decimal) : ℚ :=
  d.digits * 10 ^ d.exponent

/-- The negative part of an exponent cancels against the power. -/
theorem zpow_mul_pow_neg_toNat {b : ℚ} (hb : b ≠ 0) (i : Int) :
    b ^ i * b ^ (-i).toNat = b ^ i.toNat := by
  rw [← zpow_natCast, ← zpow_natCast, ← zpow_add₀ hb]
  congr 1
  omega

/-- **The comparison in whole numbers is the comparison of the values.** -/
theorem compareScaled_eq (a : Nat) (i : Int) (n : Nat) (j : Int) :
    compareScaled a i n j = compare (a * 10 ^ i : ℚ) (n * 2 ^ j) := by
  have hscale : (0 : ℚ) < 10 ^ (-i).toNat * 2 ^ (-j).toNat := by positivity
  have hleft : ((a * Nat.pow 10 i.toNat * Nat.pow 2 (-j).toNat : ℕ) : ℚ) =
      a * 10 ^ i * (10 ^ (-i).toNat * 2 ^ (-j).toNat) := by
    have h10 := zpow_mul_pow_neg_toNat (by norm_num : (10 : ℚ) ≠ 0) i
    simp only [Nat.pow_eq]
    push_cast
    rw [← h10]
    ring
  have hright : ((n * Nat.pow 2 j.toNat * Nat.pow 10 (-i).toNat : ℕ) : ℚ) =
      n * 2 ^ j * (10 ^ (-i).toNat * 2 ^ (-j).toNat) := by
    have h2 := zpow_mul_pow_neg_toNat (by norm_num : (2 : ℚ) ≠ 0) j
    simp only [Nat.pow_eq]
    push_cast
    rw [← h2]
    ring
  unfold compareScaled
  rcases lt_trichotomy (a * 10 ^ i : ℚ) (n * 2 ^ j) with h | h | h
  · rw [compare_lt_iff_lt.2 h, compare_lt_iff_lt, ← Nat.cast_lt (α := ℚ), hleft, hright]
    exact mul_lt_mul_of_pos_right h hscale
  · rw [compare_eq_iff_eq.2 h, compare_eq_iff_eq, ← Nat.cast_inj (R := ℚ), hleft, hright, h]
  · rw [compare_gt_iff_gt.2 h, compare_gt_iff_gt, ← Nat.cast_lt (α := ℚ), hleft, hright]
    exact mul_lt_mul_of_pos_right h hscale

/-! ### The interval of a magnitude -/

/-- A bound in quarters of the last digit, as the test multiplies it out. -/
theorem quarters_eq (n : ℚ) (e : Int) : n * 2 ^ (e - 2) = n / 4 * 2 ^ e := by
  rw [zpow_sub₀ two_ne_zero]
  norm_num
  ring

/-- Up to a bound that belongs to the interval only on some condition. -/
theorem lt_or_and_eq_iff {a b : ℚ} {p : Prop} : a < b ∨ p ∧ a = b ↔ a ≤ b ∧ (a = b → p) := by
  rw [le_iff_lt_or_eq]
  constructor
  · rintro (h | ⟨hp, h⟩)
    · exact ⟨.inl h, fun heq => absurd heq h.ne⟩
    · exact ⟨.inr h, fun _ => hp⟩
  · rintro ⟨h | h, hp⟩
    · exact .inl h
    · exact .inr ⟨hp h, h⟩

/-- The lower end of the interval, from quarters to units of the last digit. -/
theorem Binary.lower_eq {x : Binary} (hx : 0 < x.significand) :
    ((if x.narrowBelow then 4 * x.significand - 1 else 4 * x.significand - 2 : ℕ) : ℚ) *
      2 ^ (x.exponent - 2) = (x.significand - x.reachBelow) * 2 ^ x.exponent := by
  rw [quarters_eq]
  congr 1
  unfold reachBelow
  split
  · rw [Nat.cast_sub (by omega)]
    push_cast
    ring
  · rw [Nat.cast_sub (by omega)]
    push_cast
    ring

/-- The upper end of the interval. -/
theorem Binary.upper_eq (x : Binary) :
    ((4 * x.significand + 2 : ℕ) : ℚ) * 2 ^ (x.exponent - 2) =
      (x.significand + 1 / 2) * 2 ^ x.exponent := by
  rw [quarters_eq]
  push_cast
  ring

/-- **A decimal reads back exactly if the magnitude owns its value.** -/
theorem Binary.readsBack_iff {x : Binary} (hx : 0 < x.significand) (d : Decimal) :
    x.readsBack d = true ↔ x.Owns d.toRat := by
  have hpow : (0 : ℚ) < 2 ^ x.exponent := by positivity
  unfold readsBack
  simp only [compareScaled_eq, lower_eq hx, upper_eq, Bool.and_eq_true, Bool.or_eq_true,
    beq_iff_eq, compare_gt_iff_gt, compare_lt_iff_lt, compare_eq_iff_eq]
  change (_ < d.toRat ∨ _ ∧ d.toRat = _) ∧ (d.toRat < _ ∨ _ ∧ d.toRat = _) ↔ _
  rw [← lt_div_iff₀ hpow, ← div_lt_iff₀ hpow, ← div_eq_iff hpow.ne', ← div_eq_iff hpow.ne',
    eq_comm (b := x.significand - x.reachBelow), lt_or_and_eq_iff, lt_or_and_eq_iff]
  constructor
  · rintro ⟨⟨hbelow, htieBelow⟩, habove, htieAbove⟩
    exact ⟨hbelow, habove, fun h => htieBelow h.symm, htieAbove⟩
  · rintro ⟨hbelow, habove, htieBelow, htieAbove⟩
    exact ⟨⟨hbelow, fun h => htieBelow h.symm⟩, habove, htieAbove⟩

/-- The magnitude lies in its own interval. -/
theorem Binary.owns_self (x : Binary) : x.Owns (x.significand * 2 ^ x.exponent) := by
  have hquotient : (x.significand * 2 ^ x.exponent / 2 ^ x.exponent : ℚ) = x.significand :=
    mul_div_cancel_right₀ _ (by positivity)
  have hreach := x.reachBelow_pos
  refine ⟨?_, ?_, ?_, ?_⟩ <;> rw [hquotient]
  · linarith
  · linarith
  · intro h
    linarith
  · intro h
    linarith

/-! ### The shortest decimal -/

/-- The same value with fewer digits. -/
theorem Decimal.toRat_trim (d : Decimal) : d.trim.toRat = d.toRat := by
  fun_induction Decimal.trim d with
  | case1 => rfl
  | case2 d _ hten ih =>
      rw [ih]
      have hdigits : (d.digits : ℚ) = 10 * ((d.digits / 10 : ℕ) : ℚ) := by
        exact_mod_cast (by omega : d.digits = 10 * (d.digits / 10))
      rw [toRat, toRat, hdigits, zpow_add_one₀ (by norm_num)]
      ring
  | case3 => rfl

theorem Binary.toRat_exact (x : Binary) :
    x.exact.toRat = x.significand * 2 ^ x.exponent := by
  unfold exact
  split
  · next hexponent =>
    obtain ⟨e, he⟩ := Int.eq_ofNat_of_zero_le hexponent
    simp [Decimal.toRat, numerator, he]
  · next hexponent =>
    have hten : (5 : ℚ) ^ (-x.exponent).toNat * 10 ^ x.exponent = 2 ^ x.exponent := by
      have hneg : x.exponent = -((-x.exponent).toNat : Int) := by omega
      rw [show (10 : ℚ) = 5 * 2 by norm_num, mul_zpow]
      nth_rewrite 2 [hneg]
      rw [zpow_neg, zpow_natCast]
      field_simp
    simp only [Decimal.toRat, Nat.pow_eq]
    push_cast
    rw [mul_assoc, hten]

/-- A decimal that is found on a grid reads back. -/
theorem Binary.readsBack_of_onGrid {x : Binary} {g : Int} {d : Decimal}
    (h : x.onGrid g = some d) : x.readsBack d = true := by
  unfold onGrid at h
  simp only at h
  split at h
  · next hbelow habove =>
    cases h
    unfold nearer
    split
    · exact hbelow
    · exact habove
    · split
      · exact hbelow
      · exact habove
  · next hbelow _ =>
    cases h
    exact hbelow
  · next _ habove =>
    cases h
    exact habove
  · cases h

/-- **The magnitude owns the value of its shortest decimal.** -/
theorem Binary.owns_shortest {x : Binary} (hx : 0 < x.significand) : x.Owns x.shortest.toRat := by
  unfold shortest
  simp only
  rw [Decimal.toRat_trim]
  cases hfound : List.findSome? x.onGrid _ with
  | some d =>
      obtain ⟨g, -, hgrid⟩ := List.exists_of_findSome?_eq_some hfound
      exact (readsBack_iff hx d).1 (readsBack_of_onGrid hgrid)
  | none =>
      rw [Option.getD_none, toRat_exact]
      exact x.owns_self

end ScriptLang.Number
