import ScriptLang.Proofs.Json.RoundTrip

/-!
# The characters of a written document

Whatever texts a document holds, its own text has no control characters but newlines, so it stays as
it is where line endings are unified.

## Main Definitions

* `IsPlain`, `IsPlainOrNewline`: no control character, and none but a newline.

## Main Statements

* `plain_escape`: a character is escaped into plain ones.
* `plainOrNewline_write`: a document is written with plain characters and newlines.
-/

namespace ScriptLang.Json

open Number

/-- The character is no control character. -/
def IsPlain (c : Char) : Prop := 0x20 ≤ c.toNat

instance : DecidablePred IsPlain := fun c => inferInstanceAs (Decidable (0x20 ≤ c.toNat))

/-- Characters that are written out are plain if the test says so of each. -/
theorem plain_of_all {cs : List Char} (h : cs.all (fun c => decide (IsPlain c)) = true) :
    ∀ c ∈ cs, IsPlain c := by
  simpa using h

/-! ### Numbers -/

theorem plain_of_isDigit {c : Char} (h : c.isDigit = true) : IsPlain c := by
  have hlow : '0'.toNat ≤ c.toNat := by
    simp only [Char.isDigit, Bool.and_eq_true, decide_eq_true_eq] at h
    exact UInt32.le_iff_toNat_le.1 h.1
  exact Nat.le_trans (by decide) hlow

theorem plain_toDigits (n : Nat) : ∀ c ∈ Nat.toDigits 10 n, IsPlain c :=
  fun _ hc => plain_of_isDigit (isDigit_of_mem_toDigits hc)

theorem plain_replicate {c : Char} (hc : IsPlain c) (n : Nat) :
    ∀ d ∈ List.replicate n c, IsPlain d := by
  intro d hd
  rwa [List.eq_of_mem_replicate hd]

theorem plain_signed {cs : List Char} (h : ∀ c ∈ cs, IsPlain c) (negative : Bool) :
    ∀ c ∈ signed negative cs, IsPlain c := by
  cases negative with
  | true => exact List.forall_mem_cons.2 ⟨by decide, h⟩
  | false => exact h

theorem plain_positional (d : Decimal) :
    (∀ c ∈ (positional d).1, IsPlain c) ∧ ∀ c ∈ (positional d).2, IsPlain c := by
  have hdigits := plain_toDigits d.digits
  have hzeros := plain_replicate (c := '0') (by decide)
  unfold positional
  dsimp only
  split
  · exact ⟨List.forall_mem_append.2 ⟨hdigits, hzeros _⟩, by simp⟩
  · split
    · exact ⟨fun c hc => hdigits c (List.mem_of_mem_take hc),
        fun c hc => hdigits c (List.mem_of_mem_drop hc)⟩
    · exact ⟨List.forall_mem_singleton.2 (by decide),
        List.forall_mem_append.2 ⟨hzeros _, hdigits⟩⟩

theorem plain_pointed {whole fraction : List Char} (hwhole : ∀ c ∈ whole, IsPlain c)
    (hfraction : ∀ c ∈ fraction, IsPlain c) : ∀ c ∈ pointed (whole, fraction), IsPlain c := by
  cases fraction with
  | nil => exact hwhole
  | cons c cs =>
      exact List.forall_mem_append.2 ⟨hwhole, List.forall_mem_cons.2 ⟨by decide, hfraction⟩⟩

theorem plain_exponentPart (e : Int) : ∀ c ∈ exponentPart e, IsPlain c := by
  unfold exponentPart
  dsimp only
  rw [List.cons_append, List.cons_append, List.forall_mem_cons, List.forall_mem_cons,
    List.forall_mem_append]
  refine ⟨by decide, ?_, plain_replicate (by decide) _, plain_toDigits _⟩
  split
  · decide
  · decide

theorem plain_exactDigits (d : Decimal) : ∀ c ∈ exactDigits d, IsPlain c := by
  unfold exactDigits
  dsimp only
  split
  · obtain ⟨hwhole, hfraction⟩ := plain_positional d
    split
    · next hparts =>
      rw [hparts] at hwhole
      exact List.forall_mem_append.2 ⟨hwhole, plain_of_all (by decide)⟩
    · next hparts =>
      rw [hparts] at hwhole hfraction
      exact List.forall_mem_append.2 ⟨hwhole, List.forall_mem_cons.2 ⟨by decide, hfraction⟩⟩
  · have hdigits := plain_toDigits d.digits
    refine List.forall_mem_append.2 ⟨plain_pointed ?_ ?_, plain_exponentPart _⟩
    · exact fun c hc => hdigits c (List.mem_of_mem_take hc)
    · exact fun c hc => hdigits c (List.mem_of_mem_drop hc)

theorem plain_writeNumber (x : Float) : ∀ c ∈ writeNumber x, IsPlain c := by
  unfold writeNumber exactText
  split
  · exact plain_of_all (by decide)
  · refine plain_signed ?_ _
    split
    · exact plain_of_all (by decide)
    · split
      · exact plain_of_all (by decide)
      · exact plain_exactDigits _

/-! ### Texts -/

theorem plain_hex (n : Fin 32) : ∀ c ∈ Text.hex 4 n, IsPlain c := by
  refine plain_of_all ?_
  revert n
  decide

/-- **A character is escaped into plain ones**, or is plain itself. -/
theorem plain_escape (c : Char) : ∀ d ∈ escape c, IsPlain d := by
  unfold escape
  split_ifs with hquoted _ _ _ _ _ hcontrol
  · obtain rfl | rfl : c = '"' ∨ c = '\\' := by simpa using hquoted
    · exact plain_of_all (by decide)
    · exact plain_of_all (by decide)
  · exact plain_of_all (by decide)
  · exact plain_of_all (by decide)
  · exact plain_of_all (by decide)
  · exact plain_of_all (by decide)
  · exact plain_of_all (by decide)
  · exact List.forall_mem_cons.2 ⟨by decide,
      List.forall_mem_cons.2 ⟨by decide, plain_hex ⟨c.toNat, hcontrol⟩⟩⟩
  · exact List.forall_mem_singleton.2 (Nat.le_of_not_lt hcontrol)

theorem plain_writeText (text : String) : ∀ c ∈ writeText text, IsPlain c := by
  unfold writeText
  rw [List.cons_append, List.forall_mem_cons, List.forall_mem_append]
  refine ⟨by decide, ?_, List.forall_mem_singleton.2 (by decide)⟩
  intro c hc
  obtain ⟨d, -, hd⟩ := List.mem_flatMap.1 hc
  exact plain_escape d c hd

/-! ### Documents -/

/-- The character is a newline, or no control character. -/
def IsPlainOrNewline (c : Char) : Prop := c = '\n' ∨ IsPlain c

variable {cs ds : List Char}

theorem plainOrNewline_of_plain (h : ∀ c ∈ cs, IsPlain c) : ∀ c ∈ cs, IsPlainOrNewline c :=
  fun c hc => .inr (h c hc)

theorem plainOrNewline_newLine (depth : Nat) : ∀ c ∈ newLine depth, IsPlainOrNewline c :=
  List.forall_mem_cons.2 ⟨.inl rfl, plainOrNewline_of_plain (plain_replicate (by decide) _)⟩

theorem plainOrNewline_writeItems {depth : Nat} {items : List Json}
    (h : ∀ item ∈ items, ∀ c ∈ writeAt depth item, IsPlainOrNewline c) :
    ∀ c ∈ writeItems depth items, IsPlainOrNewline c := by
  induction items with
  | nil => simp [writeItems]
  | cons item items ih =>
      obtain ⟨hitem, hitems⟩ := List.forall_mem_cons.1 h
      simp only [writeItems, List.cons_append, List.append_assoc, List.forall_mem_cons,
        List.forall_mem_append]
      exact ⟨.inr (by decide), plainOrNewline_newLine depth, hitem, ih hitems⟩

theorem plainOrNewline_writeFields {depth : Nat} {fields : List (String × Json)}
    (h : ∀ field ∈ fields, ∀ c ∈ writeAt depth field.2, IsPlainOrNewline c) :
    ∀ c ∈ writeFields depth fields, IsPlainOrNewline c := by
  induction fields with
  | nil => simp [writeFields]
  | cons field fields ih =>
      obtain ⟨hfield, hfields⟩ := List.forall_mem_cons.1 h
      simp only [writeFields, List.cons_append, List.append_assoc, List.forall_mem_cons,
        List.forall_mem_append]
      exact ⟨.inr (by decide), plainOrNewline_newLine depth,
        plainOrNewline_of_plain (plain_writeText _), .inr (by decide), .inr (by decide), hfield,
        ih hfields⟩

/-- **A document is written with plain characters and newlines**, at any depth. -/
theorem plainOrNewline_writeAt (document : Json) :
    ∀ depth, ∀ c ∈ writeAt depth document, IsPlainOrNewline c := by
  induction document using ofParts with
  | null =>
      intro depth
      rw [writeAt]
      exact plainOrNewline_of_plain (plain_of_all (by decide))
  | bool b =>
      intro depth
      cases b <;> rw [writeAt] <;> exact plainOrNewline_of_plain (plain_of_all (by decide))
  | int n =>
      intro depth
      rw [writeAt, wholeText, String.toList_ofList]
      exact plainOrNewline_of_plain (plain_signed (plain_toDigits _) _)
  | num x => exact fun depth => plainOrNewline_of_plain (plain_writeNumber x)
  | str text => exact fun depth => plainOrNewline_of_plain (plain_writeText text)
  | arr items ih =>
      intro depth
      cases items with
      | nil =>
          rw [writeAt]
          exact plainOrNewline_of_plain (plain_of_all (by decide))
      | cons item items =>
          obtain ⟨hitem, hitems⟩ := List.forall_mem_cons.1 ih
          simp only [writeAt, List.cons_append, List.append_assoc, List.forall_mem_cons,
            List.forall_mem_append]
          exact ⟨.inr (by decide), plainOrNewline_newLine _, hitem _,
            plainOrNewline_writeItems fun item hmem => hitems item hmem _,
            plainOrNewline_newLine _, .inr (by decide), by simp⟩
  | obj fields ih =>
      intro depth
      cases fields with
      | nil =>
          rw [writeAt]
          exact plainOrNewline_of_plain (plain_of_all (by decide))
      | cons field fields =>
          obtain ⟨hfield, hfields⟩ := List.forall_mem_cons.1 ih
          simp only [writeAt, List.cons_append, List.append_assoc, List.forall_mem_cons,
            List.forall_mem_append]
          exact ⟨.inr (by decide), plainOrNewline_newLine _,
            plainOrNewline_of_plain (plain_writeText _), .inr (by decide), .inr (by decide),
            hfield _, plainOrNewline_writeFields fun field hmem => hfields field hmem _,
            plainOrNewline_newLine _, .inr (by decide), by simp⟩

/-- **The text of a document has no control characters but newlines.** -/
theorem plainOrNewline_write (document : Json) :
    ∀ c ∈ document.write.toList, IsPlainOrNewline c := by
  rw [write, String.toList_ofList]
  exact plainOrNewline_writeAt document 0

end ScriptLang.Json
