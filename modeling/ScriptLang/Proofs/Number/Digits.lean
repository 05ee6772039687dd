import ScriptLang.Number.Layout
import ScriptLang.Proofs.Number.Decimal

/-!
# Rows of digits

A row of digits is read from left to right, and a number is written without superfluous zeros in
front. This module says what the layouts of a decimal are: rows of digits whose value, with the
point where it stands, is the value of the decimal.

## Main Definitions

* `IsWholePart`: digits as they stand before a point, a zero only if it is alone.

## Main Statements

* `ofDigits_append`: the value of two rows next to each other.
* `isWholePart_toDigits`: the digits of a whole number.
* `positional_spec`: the positional layout of a decimal.
-/

namespace ScriptLang.Number

/-! ### Values of rows -/

@[simp] theorem ofDigits_toDigits (n : Nat) : ofDigits (Nat.toDigits 10 n) = n :=
  Nat.ofDigitChars_ten_toDigits

@[simp] theorem ofDigits_replicate_zero (n : Nat) : ofDigits (List.replicate n '0') = 0 :=
  Nat.ofDigitChars_replicate_zero.trans (Nat.mul_zero _)

/-- **The first of two rows counts as often as the second has places.** -/
theorem ofDigits_append (ds es : List Char) :
    ofDigits (ds ++ es) = 10 ^ es.length * ofDigits ds + ofDigits es := by
  change Nat.ofDigitChars 10 (ds ++ es) 0 = _
  rw [Nat.ofDigitChars_append, Nat.ofDigitChars_eq_ofDigitChars_zero]
  rfl

/-! ### Digits before a point -/

/-- Digits as they stand before a point: a zero alone, or a row that begins with another digit. -/
def IsWholePart (ds : List Char) : Prop :=
  ds = ['0'] ∨ (∀ c ∈ ds, c.isDigit = true) ∧ ∃ c more, ds = c :: more ∧ c ≠ '0'

/-- What is appended to a row that begins with a digit other than zero leaves its first digit. -/
theorem isWholePart_append {ds es : List Char} (hds : IsWholePart ds) (hzero : ds ≠ ['0'])
    (hes : ∀ c ∈ es, c.isDigit = true) : IsWholePart (ds ++ es) := by
  obtain h | ⟨hdigits, c, more, rfl, hc⟩ := hds
  · exact absurd h hzero
  · exact .inr ⟨List.forall_mem_append.2 ⟨hdigits, hes⟩, c, more ++ es, rfl, hc⟩

/-- Digits of a row that begins with a digit other than zero, from the first on. -/
theorem isWholePart_take {ds : List Char} (hds : IsWholePart ds) {n : Nat} (hn : 0 < n) :
    IsWholePart (ds.take n) := by
  obtain rfl | ⟨hdigits, c, more, rfl, hc⟩ := hds
  · obtain ⟨n, rfl⟩ := Nat.exists_eq_succ_of_ne_zero hn.ne'
    exact .inl (by simp)
  · obtain ⟨n, rfl⟩ := Nat.exists_eq_succ_of_ne_zero hn.ne'
    exact .inr ⟨fun c hc => hdigits c (List.mem_of_mem_take hc), c, more.take n, rfl, hc⟩

theorem digitChar_ne_zero : ∀ n : Fin 10, n.val ≠ 0 → n.val.digitChar ≠ '0' := by
  decide

theorem isDigit_of_mem_toDigits {n : Nat} {c : Char} (h : c ∈ Nat.toDigits 10 n) :
    c.isDigit = true :=
  Nat.isDigit_of_mem_toDigits (by decide) (by decide) h

/-- The digits of a number other than zero do not begin with a zero. -/
theorem toDigits_eq_cons {n : Nat} (hn : 0 < n) :
    ∃ c more, Nat.toDigits 10 n = c :: more ∧ c ≠ '0' := by
  induction n using Nat.strongRecOn with
  | ind n ih =>
      by_cases hsmall : n < 10
      · refine ⟨n.digitChar, [], Nat.toDigits_of_lt_base hsmall, ?_⟩
        exact digitChar_ne_zero ⟨n, hsmall⟩ hn.ne'
      · obtain ⟨c, more, hdigits, hc⟩ := ih (n / 10) (by omega) (by omega)
        refine ⟨c, more ++ [(n % 10).digitChar], ?_, hc⟩
        rw [Nat.toDigits_of_base_le (by decide) (by omega), hdigits]
        rfl

/-- **A whole number is written as digits before a point are.** -/
theorem isWholePart_toDigits (n : Nat) : IsWholePart (Nat.toDigits 10 n) := by
  rcases Nat.eq_zero_or_pos n with rfl | hn
  · exact .inl (Nat.toDigits_zero 10)
  · exact .inr ⟨fun _ => isDigit_of_mem_toDigits, toDigits_eq_cons hn⟩

/-! ### Layouts of a decimal -/

/-- The value of digits with a point between them. -/
def pointedValue (whole fraction : List Char) : ℚ :=
  ofDigits (whole ++ fraction) * 10 ^ (-(fraction.length : Int))

/-- **The positional layout has the value of the decimal**, with at least one digit before the point
and no zero too many. -/
theorem positional_spec {d : Decimal} (hd : 0 < d.digits) :
    IsWholePart (positional d).1 ∧ (∀ c ∈ (positional d).2, c.isDigit = true) ∧
      pointedValue (positional d).1 (positional d).2 = d.toRat := by
  have hlen : 0 < (Nat.toDigits 10 d.digits).length := Nat.length_toDigits_pos
  obtain ⟨c, more, hcons, hc⟩ := toDigits_eq_cons hd
  unfold positional
  simp only
  split
  · next hexponent =>
    refine ⟨?_, by simp, ?_⟩
    · refine isWholePart_append (isWholePart_toDigits _) ?_ (by simp)
      rw [hcons]
      intro h
      exact hc (List.cons.inj h).1
    · have hpower : (10 : ℚ) ^ d.exponent = 10 ^ d.exponent.toNat := by
        rw [← zpow_natCast]
        congr 1
        omega
      simp only [pointedValue, List.append_nil, ofDigits_append, ofDigits_toDigits,
        ofDigits_replicate_zero, List.length_replicate, List.length_nil, Decimal.toRat, hpower]
      push_cast
      simp [mul_comm]
  · next hexponent =>
    split
    · next hplaces =>
      refine ⟨isWholePart_take (isWholePart_toDigits _) (by omega), ?_, ?_⟩
      · exact fun c hc => isDigit_of_mem_toDigits (List.mem_of_mem_drop hc)
      · simp only [pointedValue, List.take_append_drop, ofDigits_toDigits, List.length_drop,
          Decimal.toRat]
        congr 2
        omega
    · next hplaces =>
      refine ⟨.inl rfl, ?_, ?_⟩
      · rw [List.forall_mem_append]
        exact ⟨by simp, fun _ => isDigit_of_mem_toDigits⟩
      · rw [pointedValue, ← List.append_assoc, ofDigits_append]
        have hzeros : ofDigits (['0'] ++ List.replicate
            ((-d.exponent).toNat - (Nat.toDigits 10 d.digits).length) '0') = 0 := by
          rw [ofDigits_append, ofDigits_replicate_zero]
          rfl
        simp only [hzeros, ofDigits_toDigits, List.length_append, List.length_replicate,
          Decimal.toRat, mul_zero, zero_add]
        congr 2
        omega

end ScriptLang.Number
