import ScriptLang.Json.Printer
import ScriptLang.Json.Reader
import ScriptLang.Proofs.Number.Digits
import ScriptLang.Proofs.Number.ReadBack

/-!
# Numbers in documents

A number is written with a point or an exponent if it is a double and with neither if it is a whole
number, and is read back as what it was. A double need not be read from the very digits that were
chosen for it: every layout has the value of the shortest decimal, and the value decides.

## Main Definitions

* `Json.Ends`: what can follow a document that stands inside another.
* `Json.Denotes`: the characters are read as the double nearest to a number.

## Main Statements

* `Json.denotes_pointed`, `Json.denotes_powered`: what digits with a point denote, and digits with a
  power of ten.
* `Json.denotes_exactDigits`: the exact digits of a decimal denote its value.
* `Json.value_writeNumber`: a double other than NaN is read back from its text.
* `Json.value_wholeText`: a whole number is read back from its text.
-/

namespace ScriptLang.Json

open Number
open Float.Model.UnpackedFloat (Sign)

/-! ### What follows -/

/-- What can follow a document that stands inside another: the end, a comma or a new line. -/
def Ends (rest : List Char) : Prop :=
  ∀ c ∈ rest.head?, c = ',' ∨ c = '\n'

/-- The characters do not begin with one of this kind. -/
def Stops (p : Char → Bool) (rest : List Char) : Prop :=
  ∀ c ∈ rest.head?, p c = false

theorem Ends.stops {rest : List Char} (h : Ends rest) {p : Char → Bool} (hcomma : p ',' = false)
    (hline : p '\n' = false) : Stops p rest := by
  intro c hc
  rcases h c hc with rfl | rfl
  · exact hcomma
  · exact hline

theorem stops_cons {p : Char → Bool} {c : Char} (h : p c = false) (rest : List Char) :
    Stops p (c :: rest) := by
  rintro d ⟨⟩
  exact h

/-- A row ends where the characters are of another kind. -/
theorem takeWhile_append_stops {p : Char → Bool} {ds rest : List Char} (hds : ∀ c ∈ ds, p c = true)
    (hrest : Stops p rest) :
    (ds ++ rest).takeWhile p = ds ∧ (ds ++ rest).dropWhile p = rest := by
  rw [List.takeWhile_append_of_pos hds, List.dropWhile_append_of_pos hds]
  cases rest with
  | nil => simp
  | cons c rest =>
      have hc : p c = false := hrest c rfl
      simp [hc]

/-! ### The parts of a number -/

theorem wholeDigits?_append {whole rest : List Char} (hwhole : IsWholePart whole)
    (hrest : Stops Char.isDigit rest) : wholeDigits? (whole ++ rest) = some (whole, rest) := by
  obtain rfl | ⟨hdigits, c, more, rfl, hc⟩ := hwhole
  · rfl
  · obtain ⟨htake, hdrop⟩ :=
      takeWhile_append_stops (List.forall_mem_cons.1 hdigits).2 hrest
    simp [wholeDigits?, hc, hdigits c List.mem_cons_self, htake, hdrop]

theorem fraction_point {ds rest : List Char} (hne : ds ≠ []) (hds : ∀ c ∈ ds, c.isDigit = true)
    (hrest : Stops Char.isDigit rest) : fraction ('.' :: ds ++ rest) = (some ds, rest) := by
  obtain ⟨d, more, rfl⟩ := List.exists_cons_of_ne_nil hne
  obtain ⟨htake, hdrop⟩ := takeWhile_append_stops (List.forall_mem_cons.1 hds).2 hrest
  simp [fraction, hds d List.mem_cons_self, htake, hdrop]

theorem fraction_none {rest : List Char} (h : Stops (· == '.') rest) :
    fraction rest = (none, rest) := by
  unfold fraction
  split
  · exact absurd (h '.' rfl) (by simp)
  · rfl

/-- The digits of an exponent, at least two of them. -/
def exponentDigits (e : Int) : List Char :=
  List.replicate (2 - (Nat.toDigits 10 e.natAbs).length) '0' ++ Nat.toDigits 10 e.natAbs

theorem exponentDigits_ne_nil (e : Int) : exponentDigits e ≠ [] := by
  simp [exponentDigits, Nat.toDigits_ne_nil]

theorem isDigit_of_mem_exponentDigits {e : Int} {c : Char} (h : c ∈ exponentDigits e) :
    c.isDigit = true := by
  rcases List.mem_append.1 h with h | h
  · rw [(List.mem_replicate.1 h).2]
    rfl
  · exact isDigit_of_mem_toDigits h

@[simp] theorem ofDigits_exponentDigits (e : Int) : ofDigits (exponentDigits e) = e.natAbs := by
  rw [exponentDigits, ofDigits_append, ofDigits_replicate_zero, ofDigits_toDigits, Nat.mul_zero,
    Nat.zero_add]

theorem exponentPart_eq (e : Int) :
    exponentPart e = 'e' :: (if e < 0 then '-' else '+') :: exponentDigits e := rfl

theorem power_exponentPart (e : Int) {rest : List Char} (hrest : Stops Char.isDigit rest) :
    power (exponentPart e ++ rest) = (some e, rest) := by
  have hvalue := ofDigits_exponentDigits e
  obtain ⟨htake, hdrop⟩ :=
    takeWhile_append_stops (fun _ => isDigit_of_mem_exponentDigits (e := e)) hrest
  obtain ⟨d, more, hdigits⟩ := List.exists_cons_of_ne_nil (exponentDigits_ne_nil e)
  rw [hdigits, List.cons_append] at htake hdrop
  rw [exponentPart_eq, hdigits, List.cons_append, List.cons_append, List.cons_append]
  rw [hdigits] at hvalue
  by_cases h : e < 0
  · simp only [power, h, htake, hdrop, hvalue, if_true, decide_true, Bool.true_or]
    refine Prod.ext (congrArg some ?_) rfl
    omega
  · simp only [power, h, htake, hdrop, hvalue, if_true, if_false, decide_true, Bool.true_or,
      Bool.false_eq_true]
    refine Prod.ext (congrArg some ?_) rfl
    omega

theorem power_none {rest : List Char} (h : Stops (fun c => c == 'e' || c == 'E') rest) :
    power rest = (none, rest) := by
  unfold power
  split
  · next mark more =>
    have hmark := h mark rfl
    simp_all
  · rfl

/-! ### Numbers -/

/-- The characters before `rest` are a double that is read from a decimal of this value. -/
def Denotes (cs rest : List Char) (q : ℚ) : Prop :=
  ∀ limit negative, ∃ digits e,
    number limit negative cs = .ok (.num (signedNumber negative (ofDecimal digits e)), rest) ∧
      (digits * 10 ^ e : ℚ) = q

/-- A number with a fraction or a power of ten is a double. -/
theorem denotes_of_parts {cs afterWhole afterFraction rest whole : List Char}
    {places : Option (List Char)} {tens : Option Int}
    (hwhole : wholeDigits? cs = some (whole, afterWhole))
    (hfraction : fraction afterWhole = (places, afterFraction))
    (hpower : power afterFraction = (tens, rest))
    (hsome : (places.isNone && tens.isNone) = false) :
    Denotes cs rest (pointedValue whole (places.getD []) * 10 ^ tens.getD 0) := by
  intro limit negative
  refine ⟨ofDigits (whole ++ places.getD []), tens.getD 0 - ((places.getD []).length : Int), ?_, ?_⟩
  · simp only [number, hwhole, hfraction, hpower, hsome]
    rfl
  · rw [pointedValue, sub_eq_add_neg, zpow_add₀ (by norm_num)]
    ring

/-- **Digits with a point between them are a double.** -/
theorem denotes_pointed {whole ds rest : List Char} (hwhole : IsWholePart whole) (hne : ds ≠ [])
    (hds : ∀ c ∈ ds, c.isDigit = true) (hrest : Ends rest) :
    Denotes (whole ++ '.' :: ds ++ rest) rest (pointedValue whole ds) := by
  have hparts := denotes_of_parts (wholeDigits?_append hwhole (stops_cons (by rfl) _))
    (fraction_point hne hds (hrest.stops rfl rfl)) (power_none (hrest.stops rfl rfl)) rfl
  simpa using hparts

/-- **Digits with a power of ten are a double**, with or without a point between them. -/
theorem denotes_powered {whole ds rest : List Char} (hwhole : IsWholePart whole)
    (hds : ∀ c ∈ ds, c.isDigit = true) (e : Int) (hrest : Ends rest) :
    Denotes (pointed (whole, ds) ++ exponentPart e ++ rest) rest
      (pointedValue whole ds * 10 ^ e) := by
  have hpower := power_exponentPart e (hrest.stops rfl rfl)
  have hmark : ∃ more, exponentPart e ++ rest = 'e' :: more := ⟨_, rfl⟩
  rw [List.append_assoc]
  obtain ⟨more, hmark⟩ := hmark
  rw [hmark] at hpower ⊢
  cases ds with
  | nil =>
      exact denotes_of_parts (wholeDigits?_append hwhole (stops_cons (by rfl) _))
        (fraction_none (stops_cons (by rfl) _)) hpower rfl
  | cons d ds =>
      have hfraction := fraction_point (List.cons_ne_nil d ds) hds
        (stops_cons (c := 'e') (by rfl) more)
      have hparts := denotes_of_parts (wholeDigits?_append hwhole (stops_cons (by rfl) _))
        hfraction hpower rfl
      simpa [pointed] using hparts

/-- A zero after the point changes nothing. -/
theorem pointedValue_zero (whole : List Char) :
    pointedValue whole ['0'] = pointedValue whole [] := by
  have hzero : ofDigits ['0'] = 0 := rfl
  simp only [pointedValue, ofDigits_append, hzero, List.append_nil, List.length_singleton,
    List.length_nil]
  push_cast
  rw [zpow_neg]
  norm_num
  ring

/-- The digits of a number with a point after the first of them. -/
theorem pointedValue_first {n : Nat} :
    pointedValue ((Nat.toDigits 10 n).take 1) ((Nat.toDigits 10 n).drop 1) =
      n * 10 ^ (-((digitCount n : Int) - 1)) := by
  have hlen := digitCount_pos n
  rw [pointedValue, List.take_append_drop, ofDigits_toDigits, List.length_drop]
  congr 2
  unfold digitCount at hlen ⊢
  omega

/-- **What is read from the exact digits of a decimal has its value.** -/
theorem denotes_exactDigits {d : Decimal} (hd : 0 < d.digits) {rest : List Char}
    (hrest : Ends rest) : Denotes (exactDigits d ++ rest) rest d.toRat := by
  unfold exactDigits
  simp only
  split
  · obtain ⟨hwhole, hfraction, hvalue⟩ := positional_spec hd
    split
    · next whole hpositional =>
      rw [hpositional] at hwhole hvalue
      rw [← hvalue, ← pointedValue_zero]
      exact denotes_pointed hwhole (List.cons_ne_nil _ _) (by simp) hrest
    · next whole fraction hne hpositional =>
      rw [hpositional] at hwhole hfraction hvalue
      rw [← hvalue]
      exact denotes_pointed hwhole hne hfraction hrest
  · have hfraction : ∀ c ∈ (Nat.toDigits 10 d.digits).drop 1, c.isDigit = true :=
      fun c hc => isDigit_of_mem_toDigits (List.mem_of_mem_drop hc)
    have hpowered := denotes_powered
      (isWholePart_take (isWholePart_toDigits d.digits) Nat.one_pos) hfraction
      ((digitCount d.digits : Int) - 1 + d.exponent) hrest
    rw [pointedValue_first, mul_assoc, ← zpow_add₀ (by norm_num), neg_add_cancel_left] at hpowered
    exact hpowered

/-! ### Numbers among other documents -/

/-- Only a text that begins with a digit is a number. -/
theorem exists_digit_of_number {limit : Nat} {negative : Bool} {cs : List Char}
    {r : Json × List Char} (h : number limit negative cs = .ok r) : ∃ c more, cs = c :: more ∧ c.isDigit = true := by
  cases cs with
  | nil => cases h
  | cons c more =>
      refine ⟨c, more, rfl, ?_⟩
      by_contra hc
      have hzero : c ≠ '0' := by
        rintro rfl
        exact hc rfl
      simp [number, wholeDigits?, hzero, hc] at h

/-- A digit is none of the characters that other documents begin with. -/
theorem ne_of_isDigit {c d : Char} (hc : c.isDigit = true) (hd : d.isDigit = false) : d ≠ c := by
  rintro rfl
  rw [hc] at hd
  cases hd

theorem word?_eq_none {c : Char} (hc : c.isDigit = true) (negative : Bool) (more : List Char) :
    word? (signed negative (c :: more)) = none := by
  have hn := ne_of_isDigit (d := 'n') hc rfl
  have ht := ne_of_isDigit (d := 't') hc rfl
  have hf := ne_of_isDigit (d := 'f') hc rfl
  have hN := ne_of_isDigit (d := 'N') hc rfl
  have hI := ne_of_isDigit (d := 'I') hc rfl
  have hminus := ne_of_isDigit (d := '-') hc rfl
  cases negative with
  | false => simp [signed, word?, words, dropWord?, hn, ht, hf, hN, hI, hminus]
  | true => simp [signed, word?, words, dropWord?, hI]

/-- What a number is read as, it is read as among other documents. -/
theorem value_eq_number {limit n : Nat} {negative : Bool} {cs : List Char} {r : Json × List Char}
    (h : number limit negative cs = .ok r) : value limit n (signed negative cs) = .ok r := by
  obtain ⟨c, more, rfl, hc⟩ := exists_digit_of_number h
  have hword := word?_eq_none hc negative more
  have hquote := ne_of_isDigit (d := '"') hc rfl
  have hbracket := ne_of_isDigit (d := '[') hc rfl
  have hbrace := ne_of_isDigit (d := '\x7b') hc rfl
  have hminus := ne_of_isDigit (d := '-') hc rfl
  cases negative with
  | true =>
      rw [signed, if_pos rfl] at hword ⊢
      cases n <;> simp [value, hword, h]
  | false =>
      rw [signed, if_neg Bool.false_ne_true] at hword ⊢
      cases n <;> simp [value, hword, h, hquote.symm, hbracket.symm, hbrace.symm, hminus.symm]

/-! ### Doubles -/

theorem signed_append (negative : Bool) (cs rest : List Char) :
    signed negative cs ++ rest = signed negative (cs ++ rest) := by
  cases negative <;> rfl

theorem writeNumber_eq {x : Float} (hx : (Binary.ofFloat x).Canonical)
    (h : x = hx.toFloat (signOf x)) :
    writeNumber x = signed (isNegative x) (exactDigits (Binary.ofFloat x).shortest) := by
  have hunpack : x.toModel.unpack = .finite (signOf x) _ _ hx.pos :=
    (congrArg (fun y => y.toModel.unpack) h).trans (hx.unpack_toFloat _)
  have hnan : x.isNaN = false := by
    change x.toModel.unpack.isNaN = false
    rw [hunpack]
    rfl
  have hinf : x.isInf = false := by
    change x.toModel.unpack.isInf = false
    rw [hunpack]
    rfl
  have hzero : (x == 0) = false := by
    change (x.toModel.unpack.compare (0 : Float).toModel.unpack == some .eq) = false
    rw [hunpack]
    cases signOf x <;> rfl
  simp only [writeNumber, exactText, hnan, hinf, hzero, Bool.false_eq_true, if_false]

theorem value_infinity (limit n : Nat) (sign : Sign) (rest : List Char) :
    value limit n (writeNumber (.ofModel (.pack (.infinity sign))) ++ rest) =
      .ok (.num (.ofModel (.pack (.infinity sign))), rest) := by
  cases sign <;> cases n <;> rfl

theorem value_zero (limit n : Nat) (sign : Sign) {rest : List Char} (hrest : Ends rest) :
    value limit n (writeNumber (.ofModel (.pack (.zero sign))) ++ rest) =
      .ok (.num (.ofModel (.pack (.zero sign))), rest) := by
  have hvalue : pointedValue ['0'] ['0'] = 0 := by
    rw [pointedValue_zero]
    simp [pointedValue, ofDigits]
  have hdenotes := denotes_pointed (.inl rfl) (List.cons_ne_nil '0' []) (by simp) hrest
  obtain ⟨digits, e, hnumber, hdigits⟩ := hdenotes limit (sign == .negative)
  have hzero : digits = 0 := by
    have hpow : (10 : ℚ) ^ e ≠ 0 := by positivity
    simpa [hvalue, hpow] using hdigits
  have hread : signedNumber (sign == .negative) (ofDecimal digits e) =
      .ofModel (.pack (.zero sign)) := by
    have hnone : ofDecimal 0 e = 0 := rfl
    rw [hzero, hnone]
    cases sign <;> rfl
  rw [hread] at hnumber
  cases sign <;> exact value_eq_number hnumber

/-- **A double other than NaN is read back from its text.** -/
theorem value_writeNumber (limit n : Nat) {x : Float} (hnan : x.isNaN = false) {rest : List Char}
    (hrest : Ends rest) : value limit n (writeNumber x ++ rest) = .ok (.num x, rest) := by
  rcases float_cases x with h | h | h | ⟨hx, h⟩
  · rw [h] at hnan
    cases hnan
  · rw [h]
    exact value_infinity limit n _ rest
  · rw [h]
    exact value_zero limit n _ hrest
  · have howns : (Binary.ofFloat x).Owns (Binary.ofFloat x).shortest.toRat :=
      Binary.owns_shortest hx.pos
    rw [writeNumber_eq hx h, signed_append]
    obtain ⟨digits, e, hnumber, hvalue⟩ :=
      denotes_exactDigits (howns.digits_pos hx) hrest limit (isNegative x)
    rw [← hvalue] at howns
    rw [howns.ofDecimal_eq hx, signedNumber_toFloat hx, ← h] at hnumber
    exact value_eq_number hnumber

/-! ### Whole numbers -/

/-- **A whole number is read back from its text**, if it has no more digits than are allowed. -/
theorem value_wholeText {limit : Nat} (n : Nat) {i : Int} (hi : digitCount i.natAbs ≤ limit)
    {rest : List Char} (hrest : Ends rest) :
    value limit n ((wholeText i).toList ++ rest) = .ok (.int i, rest) := by
  have hnumber : number limit (decide (i < 0)) (Nat.toDigits 10 i.natAbs ++ rest) =
      .ok (.int i, rest) := by
    have hwhole := wholeDigits?_append (isWholePart_toDigits i.natAbs) (hrest.stops rfl rfl)
    have hfraction := fraction_none (hrest.stops rfl rfl)
    have hpower := power_none (hrest.stops rfl rfl)
    have hlimit : ¬ limit < (Nat.toDigits 10 i.natAbs).length := Nat.not_lt.2 hi
    simp only [number, hwhole, hfraction, hpower, Option.isNone_none, Bool.and_self, if_true,
      if_neg hlimit, ofDigits_toDigits, decide_eq_true_eq]
    congr 3
    split <;> omega
  rw [wholeText, String.toList_ofList, signed_append]
  exact value_eq_number hnumber

end ScriptLang.Json
