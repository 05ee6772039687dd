import ScriptLang.Number.Layout
import ScriptLang.Proofs.Number.Nearest

/-!
# Doubles and their magnitudes

A double is its bits, and an operation works on the sign, the mantissa and the exponent in them.
This module ties the three views together: a finite double that is not zero is packed from its sign
and the magnitude that `Binary.ofFloat` reads off, and unpacks into these again.

## Main Definitions

* `signOf`: the sign of a double.
* `Binary.Canonical.toFloat`: the double with a given sign and magnitude.
* `signedNumber`: a number with a sign in front.

## Main Statements

* `Binary.Canonical.unpack_toFloat`: what the double of a sign and a magnitude unpacks into.
* `Binary.ofFloat_canonical`: a finite double that is not zero has a canonical magnitude.
* `float_cases`: a double is NaN, infinite, zero, or that of its sign and its magnitude.
* `Binary.Canonical.neg_toFloat`: negation changes the sign alone.
-/

namespace ScriptLang.Number

open Float.Model (Format UnpackedFloat)
open Float.Model.UnpackedFloat

/-! ### The parts of the bits -/

/-- The sign of a double. -/
def signOf (x : Float) : Sign :=
  if isNegative x then .negative else .positive

theorem toNat_unpackMantissa (x : Float) :
    (@unpackMantissa .binary64 x.toBits.toBitVec).toNat = x.toBits.toNat % 2 ^ 52 := by
  simp [unpackMantissa]

theorem toNat_unpackExponent (x : Float) :
    (@unpackExponent .binary64 x.toBits.toBitVec).toNat =
      x.toBits.toNat / 2 ^ 52 % 2 ^ 11 := by
  simp [unpackExponent, Nat.shiftRight_eq_div_pow]

theorem toNat_unpackSign (x : Float) :
    (@unpackSign .binary64 x.toBits.toBitVec).toNat = x.toBits.toNat / 2 ^ 63 := by
  have := x.toBits.toNat_lt
  simp [unpackSign, Nat.shiftRight_eq_div_pow]
  omega

theorem toBitVec_ofBitVec (b : BitVec 1) : (Sign.ofBitVec b).toBitVec = b := by
  revert b
  decide

theorem packComponents_unpack (b : BitVec Format.binary64.numBits) :
    packComponents .binary64 (Sign.ofBitVec (unpackSign b)) (unpackExponent b)
      (unpackMantissa b) = b := by
  simp only [packComponents, toBitVec_ofBitVec, unpackSign, unpackExponent, unpackMantissa,
    BitVec.extractLsb]
  ext i hi
  grind

theorem ofBitVec_unpackSign (x : Float) :
    Sign.ofBitVec (@unpackSign .binary64 x.toBits.toBitVec) = signOf x := by
  have hlt := x.toBits.toNat_lt
  have hbits := toNat_unpackSign x
  have hnegative : isNegative x = true ↔ x.toBits.toNat / 2 ^ 63 = 1 := by
    simp [isNegative, ← UInt64.toNat_inj, Nat.shiftRight_eq_div_pow]
  unfold signOf Sign.ofBitVec
  by_cases h : x.toBits.toNat / 2 ^ 63 = 1
  · rw [if_pos (hnegative.2 h), if_neg]
    intro hzero
    rw [hzero, h] at hbits
    cases hbits
  · rw [if_neg (mt hnegative.1 h), if_pos]
    apply BitVec.eq_of_toNat_eq
    rw [hbits]
    have : x.toBits.toNat / 2 ^ 63 < 2 := by omega
    simp
    omega

/-- The magnitude in terms of the bits as a number. -/
theorem Binary.ofFloat_eq (x : Float) :
    Binary.ofFloat x =
      if x.toBits.toNat / 2 ^ 52 % 2 ^ 11 = 0 then ⟨x.toBits.toNat % 2 ^ 52, -1074, false⟩
      else
        ⟨2 ^ 52 + x.toBits.toNat % 2 ^ 52, (x.toBits.toNat / 2 ^ 52 % 2 ^ 11 : ℕ) - 1075,
          x.toBits.toNat % 2 ^ 52 == 0 && 1 < x.toBits.toNat / 2 ^ 52 % 2 ^ 11⟩ := by
  have hbiased : ((x.toBits >>> 52) &&& 0x7FF).toNat = x.toBits.toNat / 2 ^ 52 % 2 ^ 11 := by
    rw [UInt64.toNat_and, UInt64.toNat_shiftRight]
    change x.toBits.toNat >>> 52 &&& (2 ^ 11 - 1) = _
    rw [Nat.and_two_pow_sub_one_eq_mod, Nat.shiftRight_eq_div_pow]
  have hfraction : (x.toBits &&& 0xFFFFFFFFFFFFF).toNat = x.toBits.toNat % 2 ^ 52 := by
    rw [UInt64.toNat_and]
    change x.toBits.toNat &&& (2 ^ 52 - 1) = _
    rw [Nat.and_two_pow_sub_one_eq_mod]
  simp only [ofFloat, hbiased, hfraction]
  rfl

/-- What is packed after the sign, for a magnitude. -/
theorem Binary.Canonical.pack_eq {x : Binary} (hx : x.Canonical) (sign : Sign) :
    UnpackedFloat.pack .binary64 (.finite sign x.significand x.exponent hx.pos) =
      packComponents .binary64 sign
        (if 2 ^ 52 ≤ x.significand then BitVec.ofNat 11 (x.exponent + 1075).toNat else 0#11)
        (BitVec.ofNat 52 x.significand) := by
  have hleast := hx.least
  have hgreatest := hx.greatest
  have hbiased : x.exponent + (Format.binary64.exponentBias : ℕ) + (52 : ℕ) =
      x.exponent + 1075 := by
    change x.exponent + (1023 : ℕ) + (52 : ℕ) = _
    omega
  have hsmall : ¬ 2 ^ 11 ≤ (x.exponent + 1075).toNat + 1 := by omega
  have hlog : x.significand.log2 + 1 = Format.binary64.mantissaBits ↔ 2 ^ 52 ≤ x.significand := by
    have hlt := (Nat.log2_lt hx.pos.ne').2 hx.lt
    rw [← Nat.le_log2 hx.pos.ne']
    change _ + 1 = 53 ↔ _
    omega
  simp only [UnpackedFloat.pack, hbiased]
  rw [if_neg hsmall]
  by_cases hfull : 2 ^ 52 ≤ x.significand
  · rw [if_pos (hlog.2 hfull), if_pos hfull]
  · rw [if_neg (mt hlog.1 hfull), if_neg hfull]

/-- The double with a given sign and magnitude. -/
def Binary.Canonical.toFloat {x : Binary} (hx : x.Canonical) (sign : Sign) : Float :=
  .ofModel (.pack (.finite sign x.significand x.exponent hx.pos))

theorem ofBitVec_unpackSign_packComponents (sign : Sign) (exponent : BitVec 11)
    (mantissa : BitVec 52) :
    Sign.ofBitVec (unpackSign (packComponents .binary64 sign exponent mantissa)) = sign := by
  simp only [unpackSign, packComponents, BitVec.extractLsb]
  rw [BitVec.extractLsb'_append_eq_of_le (by omega), BitVec.extractLsb'_append_eq_of_le (by omega)]
  cases sign <;> rfl

/-- The bits of a subnormal double: no exponent, and a mantissa as it stands. -/
theorem unpack_subnormal {b : BitVec Format.binary64.numBits} (hexponent : unpackExponent b = 0#11)
    (hmantissa : 0 < (unpackMantissa b).toNat) :
    unpack .binary64 b =
      .finite (Sign.ofBitVec (unpackSign b)) (unpackMantissa b).toNat (-1074) hmantissa := by
  have hzero : unpackMantissa b ≠ 0#52 := by
    intro h
    rw [h] at hmantissa
    exact absurd hmantissa (by decide)
  unfold unpack
  simp only [hexponent]
  rw [if_neg (by decide), if_pos trivial, dif_neg hzero]
  rfl

/-- The bits of any other finite double: the mantissa has one more bit than is stored. -/
theorem unpack_normal {b : BitVec Format.binary64.numBits}
    (hzero : (unpackExponent b).toNat ≠ 0) (htop : (unpackExponent b).toNat ≠ 2047) :
    unpack .binary64 b =
      .finite (Sign.ofBitVec (unpackSign b)) (2 ^ 52 + (unpackMantissa b).toNat)
        ((unpackExponent b).toNat - 1075) (Nat.add_pos_left (by decide) _) := by
  have happend : (1#1 ++ unpackMantissa b).toNat = 2 ^ 52 + (unpackMantissa b).toNat := by
    rw [BitVec.toNat_append, ← Nat.shiftLeft_add_eq_or_of_lt (unpackMantissa b).isLt]
    rfl
  unfold unpack
  simp only [happend]
  rw [if_neg, if_neg]
  · rfl
  · rintro h
    exact hzero (by rw [h]; rfl)
  · rintro h
    exact htop (by rw [h]; rfl)

theorem Binary.Canonical.unpack_toFloat {x : Binary} (hx : x.Canonical) (sign : Sign) :
    (hx.toFloat sign).toModel.unpack = .finite sign x.significand x.exponent hx.pos := by
  have hlt := hx.lt
  have hleast := hx.least
  have hgreatest := hx.greatest
  change unpack .binary64 (UnpackedFloat.pack .binary64 _) = _
  rw [hx.pack_eq]
  by_cases hfull : 2 ^ 52 ≤ x.significand
  · have hexponent : (BitVec.ofNat 11 (x.exponent + 1075).toNat).toNat =
        (x.exponent + 1075).toNat := by
      rw [BitVec.toNat_ofNat, Nat.mod_eq_of_lt (by omega)]
    rw [if_pos hfull, unpack_normal]
    · simp only [unpackExponent_packComponents, unpackMantissa_packComponents,
        ofBitVec_unpackSign_packComponents, hexponent, BitVec.toNat_ofNat]
      congr 1
      · omega
      · omega
    · rw [unpackExponent_packComponents, hexponent]
      omega
    · rw [unpackExponent_packComponents, hexponent]
      omega
  · have hmantissa : (BitVec.ofNat 52 x.significand).toNat = x.significand := by
      rw [BitVec.toNat_ofNat, Nat.mod_eq_of_lt (by omega)]
    have hexponent : x.exponent = -1074 := by
      by_contra hne
      exact hfull (hx.full (by omega))
    rw [if_neg hfull, unpack_subnormal]
    · simp only [unpackMantissa_packComponents, ofBitVec_unpackSign_packComponents, hmantissa,
        hexponent]
    · rw [unpackExponent_packComponents]
    · rw [unpackMantissa_packComponents, hmantissa]
      exact hx.pos

/-! ### The kinds of double -/

theorem eq_ofModel_pack {x : Float} {u : UnpackedFloat}
    (h : x.toBits.toBitVec = UnpackedFloat.pack .binary64 u) : x = .ofModel (.pack u) := by
  obtain ⟨⟨⟨bits⟩, valid⟩⟩ := x
  change bits = _ at h
  subst h
  rfl

/-- An exponent of ones and no mantissa make an infinity, any other mantissa no number. -/
theorem isNaN_of_unpackExponent {x : Float}
    (hexponent : @unpackExponent .binary64 x.toBits.toBitVec = -1#11)
    (hmantissa : @unpackMantissa .binary64 x.toBits.toBitVec ≠ 0#52) : x.isNaN = true := by
  change (unpack .binary64 x.toBits.toBitVec).isNaN = true
  unfold unpack
  simp only [hexponent, if_true]
  rw [if_neg hmantissa]
  rfl

/-- **A finite double that is not zero has a canonical magnitude**, and the significand and the
exponent in its bits belong to it. -/
theorem Binary.ofFloat_canonical {x : Float}
    (htop : (@unpackExponent .binary64 x.toBits.toBitVec).toNat ≠ 2047)
    (hzero : (@unpackExponent .binary64 x.toBits.toBitVec).toNat = 0 →
      (@unpackMantissa .binary64 x.toBits.toBitVec).toNat ≠ 0) :
    (Binary.ofFloat x).Canonical ∧
      @unpackMantissa .binary64 x.toBits.toBitVec = BitVec.ofNat 52 (Binary.ofFloat x).significand ∧
      @unpackExponent .binary64 x.toBits.toBitVec =
        if 2 ^ 52 ≤ (Binary.ofFloat x).significand then
          BitVec.ofNat 11 ((Binary.ofFloat x).exponent + 1075).toNat
        else 0#11 := by
  have hofFloat := Binary.ofFloat_eq x
  rw [← toNat_unpackExponent, ← toNat_unpackMantissa] at hofFloat
  generalize @unpackExponent .binary64 x.toBits.toBitVec = exponent at *
  generalize @unpackMantissa .binary64 x.toBits.toBitVec = mantissa at *
  have hmantissa : mantissa.toNat < 2 ^ 52 := mantissa.isLt
  have hexponent : exponent.toNat < 2 ^ 11 := exponent.isLt
  by_cases hnone : exponent.toNat = 0
  · rw [if_pos hnone] at hofFloat
    rw [hofFloat]
    refine ⟨⟨?_, ?_, le_rfl, by norm_num, by simp, by simp⟩, ?_, ?_⟩ <;> simp only
    · have := hzero hnone
      omega
    · omega
    · rw [BitVec.ofNat_toNat, BitVec.setWidth_eq]
    · rw [if_neg (by omega)]
      exact BitVec.eq_of_toNat_eq hnone
  · rw [if_neg hnone] at hofFloat
    rw [hofFloat]
    refine ⟨⟨by simp, ?_, ?_, ?_, ?_, ?_⟩, ?_, ?_⟩ <;> simp only
    · omega
    · omega
    · omega
    · omega
    · simp only [Bool.and_eq_true, beq_iff_eq, decide_eq_true_eq]
      omega
    · apply BitVec.eq_of_toNat_eq
      rw [BitVec.toNat_ofNat]
      change _ = (2 ^ 52 + mantissa.toNat) % 2 ^ 52
      omega
    · rw [if_pos (by omega)]
      apply BitVec.eq_of_toNat_eq
      rw [BitVec.toNat_ofNat]
      change _ = ((exponent.toNat : Int) - 1075 + 1075).toNat % 2 ^ 11
      omega

/-- **Every double is no number, an infinity, a zero, or the double with its magnitude.** -/
theorem float_cases (x : Float) :
    x.isNaN = true ∨ x = .ofModel (.pack (.infinity (signOf x))) ∨
      x = .ofModel (.pack (.zero (signOf x))) ∨
      ∃ hx : (Binary.ofFloat x).Canonical, x = hx.toFloat (signOf x) := by
  have hparts := packComponents_unpack x.toBits.toBitVec
  rw [ofBitVec_unpackSign] at hparts
  by_cases htop : (@unpackExponent .binary64 x.toBits.toBitVec).toNat = 2047
  · have hones : @unpackExponent .binary64 x.toBits.toBitVec = -1#11 := BitVec.eq_of_toNat_eq htop
    by_cases hmantissa : @unpackMantissa .binary64 x.toBits.toBitVec = 0#52
    · rw [hones, hmantissa] at hparts
      exact .inr (.inl (eq_ofModel_pack hparts.symm))
    · exact .inl (isNaN_of_unpackExponent hones hmantissa)
  by_cases hzero : (@unpackExponent .binary64 x.toBits.toBitVec).toNat = 0 ∧
      (@unpackMantissa .binary64 x.toBits.toBitVec).toNat = 0
  · have hexponent : @unpackExponent .binary64 x.toBits.toBitVec = 0#11 :=
      BitVec.eq_of_toNat_eq hzero.1
    have hmantissa : @unpackMantissa .binary64 x.toBits.toBitVec = 0#52 :=
      BitVec.eq_of_toNat_eq hzero.2
    rw [hexponent, hmantissa] at hparts
    exact .inr (.inr (.inl (eq_ofModel_pack hparts.symm)))
  · obtain ⟨hx, hmantissa, hexponent⟩ :=
      Binary.ofFloat_canonical htop (fun h h' => hzero ⟨h, h'⟩)
    rw [hmantissa, hexponent, ← hx.pack_eq] at hparts
    exact .inr (.inr (.inr ⟨hx, eq_ofModel_pack hparts.symm⟩))

/-! ### Negation -/

/-- Negation changes the sign alone. -/
theorem Binary.Canonical.neg_toFloat {x : Binary} (hx : x.Canonical) :
    -hx.toFloat .positive = hx.toFloat .negative := by
  change Float.ofModel (.pack (hx.toFloat .positive).toModel.unpack.neg) = _
  rw [hx.unpack_toFloat]
  rfl

/-- A number with its sign. -/
def signedNumber (negative : Bool) (x : Float) : Float :=
  if negative then -x else x

/-- A double is the one with its magnitude and its sign in front. -/
theorem signedNumber_toFloat {x : Float} {y : Binary} (hy : y.Canonical) :
    signedNumber (isNegative x) (hy.toFloat .positive) = hy.toFloat (signOf x) := by
  unfold signedNumber signOf
  cases isNegative x with
  | true => exact hy.neg_toFloat
  | false => rfl

end ScriptLang.Number
