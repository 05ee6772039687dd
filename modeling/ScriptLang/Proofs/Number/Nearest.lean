import Mathlib
import ScriptLang.Number.Binary

/-!
# Rounding to the nearest double

Every operation on doubles ends in one rounding step: a mantissa that was cut off too late and a
note of what was cut off are brought to the width of the format. This module says what that step
returns. Around every magnitude lies an interval of numbers that are nearer to it than to any other,
and a number of that interval is rounded to the magnitude, however many digits of it the step was
given.

## Main Definitions

* `Binary.Canonical`: the magnitudes of finite doubles that are not zero.
* `Binary.Owns`: the number lies in the interval of the magnitude.
* `Describes`: a mantissa with its two residual bits is a number, cut off.

## Main Statements

* `Describes.shiftRight`: a shift to the right cuts off more of the same number.
* `Describes.roundedMantissa_eq`: rounding goes to the nearest whole number, ties to the even one.
* `Binary.Owns.targetExponent_eq`: the unit that a number of the interval is rounded in.
* `Binary.Owns.round_eq`: a number of the interval is rounded to the magnitude.
-/

namespace ScriptLang.Number

open Float.Model Float.Model.UnpackedFloat

/-! ### Magnitudes and their intervals -/

/-- The magnitudes of finite doubles that are not zero: the significand fills its 53 bits, unless
the exponent is the least one. -/
structure Binary.Canonical (x : Binary) : Prop where
  pos : 0 < x.significand
  lt : x.significand < 2 ^ 53
  least : -1074 ≤ x.exponent
  greatest : x.exponent ≤ 971
  full : -1074 < x.exponent → 2 ^ 52 ≤ x.significand
  narrow : x.narrowBelow = true ↔ x.significand = 2 ^ 52 ∧ -1074 < x.exponent

/-- Half the gap to the double below, in units of the last digit of the significand. -/
def Binary.reachBelow (x : Binary) : ℚ :=
  if x.narrowBelow then 1 / 4 else 1 / 2

/-- The number lies among those that round to the magnitude: between the halfway points to its
neighbours, which themselves belong to an even significand. -/
structure Binary.Owns (x : Binary) (q : ℚ) : Prop where
  below : x.significand - x.reachBelow ≤ q / 2 ^ x.exponent
  above : q / 2 ^ x.exponent ≤ x.significand + 1 / 2
  tieBelow : q / 2 ^ x.exponent = x.significand - x.reachBelow → x.significand % 2 = 0
  tieAbove : q / 2 ^ x.exponent = x.significand + 1 / 2 → x.significand % 2 = 0

theorem Binary.reachBelow_pos (x : Binary) : 0 < x.reachBelow := by
  unfold reachBelow
  split <;> norm_num

theorem Binary.reachBelow_le (x : Binary) : x.reachBelow ≤ 1 / 2 := by
  unfold reachBelow
  split <;> norm_num

/-! ### Mantissas with residual bits -/

/-- The mantissa is the whole part of the number, and the residual bits tell how the rest of it
compares with nothing and with a half. -/
structure Describes (em : ExtendedMantissa) (t : ℚ) : Prop where
  le : em.mantissa ≤ t
  lt : t < em.mantissa + 1
  roundBit : em.roundBit = true ↔ em.mantissa + 1 / 2 ≤ t
  stickyBit : em.stickyBit = true ↔ t ≠ em.mantissa ∧ t ≠ em.mantissa + 1 / 2

/-- **One shift to the right cuts off one digit more.** -/
theorem Describes.shiftRightOne {em : ExtendedMantissa} {t : ℚ} (h : Describes em t) :
    Describes em.shiftRightOne (t / 2) := by
  obtain ⟨m, r, s⟩ := em
  obtain ⟨hle, hlt, hround, hsticky⟩ := h
  simp only at hle hlt hround hsticky
  have hm : (m : ℚ) = 2 * ((m / 2 : ℕ) : ℚ) + ((m % 2 : ℕ) : ℚ) := by
    exact_mod_cast (Nat.div_add_mod m 2).symm
  -- Something was cut off before exactly if one of the two bits was set.
  have hany : (r || s) = true ↔ t ≠ m := by
    rw [Bool.or_eq_true, hround, hsticky]
    constructor
    · rintro (h | h)
      · exact (by linarith : (m : ℚ) < t).ne'
      · exact h.1
    · intro hne
      by_cases hhalf : t = m + 1 / 2
      · exact .inl hhalf.ge
      · exact .inr ⟨hne, hhalf⟩
  rcases Nat.mod_two_eq_zero_or_one m with hpar | hpar
  · simp only [hpar, Nat.cast_zero] at hm
    refine ⟨?_, ?_, ?_, ?_⟩ <;> simp only [ExtendedMantissa.shiftRightOne, hpar]
    · linarith
    · linarith
    · simp only [bne_self_eq_false, Bool.false_eq_true, false_iff, not_le]
      linarith
    · rw [hany]
      refine ⟨fun h => ⟨fun h' => h (by linarith), fun h' => by linarith⟩, ?_⟩
      exact fun h h' => h.1 (by linarith)
  · simp only [hpar, Nat.cast_one] at hm
    refine ⟨?_, ?_, ?_, ?_⟩ <;> simp only [ExtendedMantissa.shiftRightOne, hpar]
    · linarith
    · linarith
    · simp only [ne_eq, one_ne_zero, not_false_eq_true, bne_iff_ne, true_iff]
      linarith
    · rw [hany]
      refine ⟨fun h => ⟨fun h' => by linarith, fun h' => h (by linarith)⟩, ?_⟩
      exact fun h h' => h.2 (by linarith)

/-- **A shift to the right cuts off more of the same number.** -/
theorem Describes.shiftRight {em : ExtendedMantissa} {t : ℚ} (h : Describes em t) (n : Nat) :
    Describes (em >>> n) (t / 2 ^ n) := by
  change Describes (n.repeat ExtendedMantissa.shiftRightOne em) _
  induction n with
  | zero => simpa [Nat.repeat] using h
  | succ n ih =>
      rw [pow_succ, ← div_div]
      exact ih.shiftRightOne

/-- **Rounding goes to the nearest whole number, and from halfway to the even one.** -/
theorem Describes.roundedMantissa_eq {em : ExtendedMantissa} {t : ℚ} (h : Describes em t) {n : Nat}
    (hlow : n - 1 / 2 ≤ t) (hhigh : t ≤ n + 1 / 2)
    (htie : t = n - 1 / 2 ∨ t = n + 1 / 2 → n % 2 = 0) : em.roundedMantissa = n := by
  obtain ⟨m, r, s⟩ := em
  obtain ⟨hle, hlt, hround, hsticky⟩ := h
  simp only at hle hlt hround hsticky
  -- The candidates are the two whole numbers around `t`.
  have hn : n = m ∨ n = m + 1 := by
    have h1 : (m : ℚ) < n + 1 := by linarith
    have h2 : (n : ℚ) < m + 2 := by linarith
    have h1 : m < n + 1 := by exact_mod_cast h1
    have h2 : n < m + 2 := by exact_mod_cast h2
    omega
  have hmn : (n : ℚ) = m ∨ (n : ℚ) = m + 1 := by exact_mod_cast hn
  unfold ExtendedMantissa.roundedMantissa ExtendedMantissa.accuracy
  cases r <;> cases s <;>
    simp only [Bool.false_eq_true, false_iff, true_iff, not_le, not_and_or, not_not, ne_eq]
      at hround hsticky <;>
    simp only [Accuracy.roundToNearestEven]
  · rcases hn with rfl | rfl
    · rfl
    · push_cast at hlow
      rcases hsticky with h | h <;> linarith
  · rcases hn with rfl | rfl
    · rfl
    · push_cast at hlow
      linarith
  · have ht : t = m + 1 / 2 := by
      rcases hsticky with h | h <;> linarith
    rcases hn with rfl | rfl
    · have := htie (.inr ht)
      omega
    · have := htie (.inl (by push_cast; linarith))
      omega
  · rcases hn with rfl | rfl
    · exact absurd (le_antisymm hhigh hround) hsticky.2
    · rfl

/-! ### The unit of the last digit -/

theorem targetExponent_totalExponent (m : Nat) (e : Int) :
    Format.binary64.targetExponent (totalExponent m e) = max (m.log2 + e - 52) (-1074) := by
  simp only [Format.targetExponent, totalExponent, Format.mantissaBits, Format.minExponent]
  omega

/-- The bits of a mantissa tell the binade of the number, or that it is below the least one. -/
theorem Describes.binade {m : Nat} {e : Int} {acc : Accuracy} {q : ℚ}
    (h : Describes (.ofMantissaAndAccuracy m acc) (q / 2 ^ e))
    (he : e ≤ Format.binary64.targetExponent (totalExponent m e)) :
    q < 2 ^ (m.log2 + e + 1) ∧ (2 ^ (m.log2 + e) ≤ q ∨ m.log2 + e ≤ -1074) := by
  have hmantissa : (ExtendedMantissa.ofMantissaAndAccuracy m acc).mantissa = m := by
    cases acc with
    | exact => rfl
    | inexact o => cases o <;> rfl
  have hpow : (0 : ℚ) < 2 ^ e := by positivity
  have hle := h.le
  have hlt := h.lt
  rw [hmantissa, le_div_iff₀ hpow] at hle
  rw [hmantissa, div_lt_iff₀ hpow] at hlt
  have hsplit (k : Nat) : (2 : ℚ) ^ (k + e) = 2 ^ k * 2 ^ e := by
    rw [zpow_add₀ two_ne_zero, zpow_natCast]
  constructor
  · have hm : ((m + 1 : ℕ) : ℚ) ≤ ((2 ^ (m.log2 + 1) : ℕ) : ℚ) := by
      exact_mod_cast Nat.lt_log2_self
    calc q < (m + 1) * 2 ^ e := hlt
      _ ≤ 2 ^ (m.log2 + 1) * 2 ^ e := by
          push_cast at hm
          gcongr
      _ = 2 ^ (m.log2 + e + 1) := by
          rw [← hsplit]
          congr 1
          push_cast
          ring
  · rcases Nat.eq_zero_or_pos m with rfl | hpos
    · right
      rw [targetExponent_totalExponent] at he
      simp only [Nat.log2_zero] at he ⊢
      omega
    · left
      have hm : ((2 ^ m.log2 : ℕ) : ℚ) ≤ m := by
        exact_mod_cast Nat.log2_self_le hpos.ne'
      calc (2 : ℚ) ^ (m.log2 + e) = 2 ^ m.log2 * 2 ^ e := hsplit _
        _ ≤ m * 2 ^ e := by
            push_cast at hm
            gcongr
        _ ≤ q := hle

/-- A power of two in units of `2 ^ e`. -/
theorem le_div_two_zpow_iff {q : ℚ} {e : Int} (k : Nat) :
    (2 ^ k : ℚ) ≤ q / 2 ^ e ↔ (2 : ℚ) ^ (k + e) ≤ q := by
  rw [le_div_iff₀ (by positivity), zpow_add₀ two_ne_zero, zpow_natCast]

/-- **The unit that a number is rounded in is that of its magnitude**, except below a power of two,
where the doubles are twice as dense. -/
theorem Binary.Owns.targetExponent_eq {x : Binary} {q : ℚ} (h : x.Owns q) (hx : x.Canonical)
    {m : Nat} {e : Int} {acc : Accuracy}
    (hq : Describes (.ofMantissaAndAccuracy m acc) (q / 2 ^ e))
    (he : e ≤ Format.binary64.targetExponent (totalExponent m e)) :
    Format.binary64.targetExponent (totalExponent m e) = x.exponent ∨
      Format.binary64.targetExponent (totalExponent m e) = x.exponent - 1 ∧
        x.narrowBelow = true ∧ q / 2 ^ x.exponent < 2 ^ 52 := by
  obtain ⟨hbelow, habove⟩ := hq.binade he
  rw [targetExponent_totalExponent]
  generalize m.log2 + e = k at hbelow habove ⊢
  -- What the size of `q` says about its binade, in both directions.
  have hupper {a : Nat} (ha : q / 2 ^ x.exponent < 2 ^ a) (hleast : -1074 < a + x.exponent) :
      k < a + x.exponent := by
    rcases habove with habove | habove
    · rw [← not_le, le_div_two_zpow_iff, not_le] at ha
      exact (zpow_lt_zpow_iff_right₀ one_lt_two).1 (habove.trans_lt ha)
    · omega
  have hlower {a : Nat} (ha : 2 ^ a ≤ q / 2 ^ x.exponent) : a + x.exponent < k + 1 := by
    rw [le_div_two_zpow_iff] at ha
    exact (zpow_lt_zpow_iff_right₀ one_lt_two).1 (ha.trans_lt hbelow)
  have hleast := hx.least
  have hlt : q / 2 ^ x.exponent < 2 ^ 53 := by
    have hcast : ((x.significand + 1 : ℕ) : ℚ) ≤ ((2 ^ 53 : ℕ) : ℚ) := by exact_mod_cast hx.lt
    push_cast at hcast
    linarith [h.above]
  have hk := hupper hlt (by omega)
  by_cases hexp : x.exponent = -1074
  · left
    omega
  by_cases hfull : 2 ^ 52 ≤ q / 2 ^ x.exponent
  · have := hlower hfull
    left
    omega
  · right
    rw [not_le] at hfull
    have hfilled : ((2 ^ 52 : ℕ) : ℚ) ≤ x.significand := by
      exact_mod_cast hx.full (by omega)
    have hsignificand : x.significand = 2 ^ 52 := by
      have hcast : (x.significand : ℚ) < ((2 ^ 52 + 1 : ℕ) : ℚ) := by
        push_cast
        linarith [h.below, x.reachBelow_le]
      have : x.significand < 2 ^ 52 + 1 := by exact_mod_cast hcast
      have := hx.full (by omega)
      omega
    have hhalf : 2 ^ 51 ≤ q / 2 ^ x.exponent := by
      push_cast at hfilled
      linarith [h.below, x.reachBelow_le]
    have := hupper hfull (by omega)
    have := hlower hhalf
    exact ⟨by omega, hx.narrow.2 ⟨hsignificand, by omega⟩, hfull⟩

/-! ### The rounding step -/

theorem shiftToTargetExponent_eq {m : Nat} {e : Int} {acc : Accuracy} {target : Int}
    (h : Format.binary64.targetExponent (totalExponent m e) = target) (he : e ≤ target) :
    shiftToTargetExponent Format.binary64 m e acc =
      (ExtendedMantissa.ofMantissaAndAccuracy m acc >>> (target - e).toNat, target) := by
  simp only [shiftToTargetExponent, shiftToExponent, h]
  congr 1
  omega

theorem Describes.shiftTo {em : ExtendedMantissa} {q : ℚ} {e target : Int}
    (h : Describes em (q / 2 ^ e)) (he : e ≤ target) :
    Describes (em >>> (target - e).toNat) (q / 2 ^ target) := by
  have hpow : (2 : ℚ) ^ target = 2 ^ e * 2 ^ (target - e).toNat := by
    rw [← zpow_natCast, ← zpow_add₀ two_ne_zero]
    congr 1
    omega
  rw [hpow, ← div_div]
  exact h.shiftRight _

theorem Binary.Canonical.targetExponent_eq {x : Binary} (hx : x.Canonical) :
    Format.binary64.targetExponent (totalExponent x.significand x.exponent) = x.exponent := by
  rw [targetExponent_totalExponent]
  have hlog := (Nat.log2_lt hx.pos.ne').2 hx.lt
  have hleast := hx.least
  by_cases hexp : x.exponent = -1074
  · omega
  · have := (Nat.le_log2 hx.pos.ne').2 (hx.full (by omega))
    omega

/-- **A number of the interval is rounded to the magnitude**, whatever sign it is given and however
many digits of it are known beyond those that fit. -/
theorem Binary.Owns.round_eq {x : Binary} {q : ℚ} (h : x.Owns q) (hx : x.Canonical) {m : Nat}
    {e : Int} {acc : Accuracy} (hq : Describes (.ofMantissaAndAccuracy m acc) (q / 2 ^ e))
    (he : e ≤ Format.binary64.targetExponent (totalExponent m e)) (sign : Sign) :
    roundWithAccuracy Format.binary64 sign m e acc =
      .finite sign x.significand x.exponent hx.pos := by
  unfold roundWithAccuracy
  rcases h.targetExponent_eq hx hq he with htarget | ⟨htarget, hnarrow, hlt⟩
  · rw [htarget] at he
    rw [shiftToTargetExponent_eq htarget he]
    have hrounded := (hq.shiftTo he).roundedMantissa_eq (n := x.significand)
      (by linarith [h.below, x.reachBelow_le]) h.above ?_
    · simp only [hrounded, shiftToTargetExponent_eq hx.targetExponent_eq le_rfl, sub_self,
        Int.toNat_zero]
      exact dif_neg hx.pos.ne'
    · rintro (htie | htie)
      · refine h.tieBelow (le_antisymm ?_ h.below)
        linarith [x.reachBelow_le]
      · exact h.tieAbove htie
  · -- Below a power of two the significand overflows, and one more shift brings it back.
    obtain ⟨hsignificand, hexponent⟩ := hx.narrow.1 hnarrow
    rw [htarget] at he
    rw [shiftToTargetExponent_eq htarget he]
    have hunit : q / 2 ^ (x.exponent - 1) = q / 2 ^ x.exponent * 2 := by
      rw [zpow_sub_one₀ two_ne_zero]
      field_simp
    have hbelow := h.below
    simp only [reachBelow, hnarrow, hsignificand, if_true] at hbelow
    push_cast at hbelow
    have hrounded := (hq.shiftTo he).roundedMantissa_eq (n := 2 ^ 53)
      (by rw [hunit]; push_cast; linarith) (by rw [hunit]; push_cast; linarith)
      (fun _ => by decide)
    have hcarry : Format.binary64.targetExponent (totalExponent (2 ^ 53) (x.exponent - 1)) =
        x.exponent := by
      rw [targetExponent_totalExponent, Nat.log2_two_pow]
      have := hx.least
      omega
    have hone : (x.exponent - (x.exponent - 1)).toNat = 1 := by omega
    simp only [hrounded, shiftToTargetExponent_eq hcarry (by omega), hone]
    simp only [hsignificand]
    rfl

end ScriptLang.Number
