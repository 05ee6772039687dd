import ScriptLang.Proofs.Json.Numeral

/-!
# Reading what was written

A document that is written as text is read back as it was, within any limits that it keeps. The
reader and the writer share no definition, so the proof goes along the text: what is written for a
part of the document is read as that part, and the reader stops where the next part begins.

## Main Definitions

* `Json.Faithful`: no number of the document is NaN, and no object has two fields of one name.
* `Json.depth`: how many lists and objects are open at once.
* `Json.longest`: how many digits the longest whole number has.

## Main Statements

* `Json.text_escape`: a text is read back from its escapes.
* `Json.value_writeAt`: a document is read back at any depth, whatever follows it.
* `Json.read_write`: a document is read back from its text.
-/

namespace ScriptLang.Json

open Number

/-! ### Texts -/

theorem hexQuad?_append {cs : List Char} {n : Nat} (h : hexQuad? cs = some (n, []))
    (rest : List Char) : hexQuad? (cs ++ rest) = some (n, rest) := by
  unfold hexQuad? at h
  split at h
  · next a b c d cs =>
    split at h
    · next ha hb hc hd =>
      obtain ⟨rfl, rfl⟩ : _ ∧ _ := by simpa using h
      simp [hexQuad?, ha, hb, hc, hd]
    · cases h
  · cases h

theorem hexQuad?_hex : ∀ n : Fin 32, hexQuad? (Text.hex 4 n) = some (n.val, []) := by
  decide

theorem codeEscape?_hex {c : Char} (hc : c.toNat < 0x20) (rest : List Char) :
    codeEscape? (Text.hex 4 c.toNat ++ rest) = some (c, rest) := by
  have hquad := hexQuad?_append (hexQuad?_hex ⟨c.toNat, hc⟩) rest
  have hhigh : ¬ 0xD800 ≤ c.toNat := by omega
  simp [codeEscape?, hquad, hhigh]

/-- **A character is read back from its escape.** -/
theorem textBody_escape (n : Nat) (c : Char) {more body rest : List Char}
    (h : textBody n more = .ok (body, rest)) :
    textBody (n + 1) (escape c ++ more) = .ok (c :: body, rest) := by
  unfold escape
  split
  · next hc =>
    obtain rfl | rfl : c = '"' ∨ c = '\\' := by simpa using hc
    · simp [textBody, shortEscape?, h]
    · simp [textBody, shortEscape?, h]
  split
  · next hc => simp [textBody, shortEscape?, h, hc]
  split
  · next hc => simp [textBody, shortEscape?, h, hc]
  split
  · next hc => simp [textBody, shortEscape?, h, hc]
  split
  · next hc => simp [textBody, shortEscape?, h, hc]
  split
  · next hc => simp [textBody, shortEscape?, h, hc]
  split
  · next hc => simp [textBody, codeEscape?_hex hc, h]
  · next hquote _ _ _ _ _ hcontrol =>
    obtain ⟨hquote, hslash⟩ : c ≠ '"' ∧ c ≠ '\\' := by simpa using hquote
    simp [textBody, hquote, hslash, hcontrol, h]

theorem textBody_flatMap {chars : List Char} {n : Nat} (hn : chars.length < n) (rest : List Char) :
    textBody n (chars.flatMap escape ++ '"' :: rest) = .ok (chars, rest) := by
  induction chars generalizing n with
  | nil =>
      obtain ⟨n, rfl⟩ := Nat.exists_eq_succ_of_ne_zero hn.ne'
      rfl
  | cons c chars ih =>
      obtain ⟨n, rfl⟩ := Nat.exists_eq_succ_of_ne_zero (Nat.ne_zero_of_lt hn)
      rw [List.flatMap_cons, List.append_assoc]
      exact textBody_escape n c (ih (by simpa using hn))

theorem length_le_flatMap_escape (chars : List Char) :
    chars.length ≤ (chars.flatMap escape).length := by
  induction chars with
  | nil => simp
  | cons c chars ih =>
      have hc : 0 < (escape c).length := by
        unfold escape
        repeat' split
        all_goals simp
      rw [List.flatMap_cons, List.length_append, List.length_cons]
      omega

/-- **A text is read back from its escapes.** -/
theorem text_escape (s : String) (rest : List Char) :
    text (s.toList.flatMap escape ++ '"' :: rest) = .ok (s, rest) := by
  have hlen := length_le_flatMap_escape s.toList
  have hbody : textBody ((s.toList.flatMap escape ++ '"' :: rest).length + 1)
      (s.toList.flatMap escape ++ '"' :: rest) = .ok (s.toList, rest) :=
    textBody_flatMap (by rw [List.length_append]; omega) rest
  rw [text, hbody]
  simp

/-! ### Between the parts -/

theorem skipSpaces_cons {c : Char} (hc : isSpace c = false) (cs : List Char) :
    skipSpaces (c :: cs) = c :: cs := by
  simp [skipSpaces, hc]

theorem skipSpaces_newLine (depth : Nat) (cs : List Char) :
    skipSpaces (newLine depth ++ cs) = skipSpaces cs := by
  refine List.dropWhile_append_of_pos ?_
  intro c hc
  rcases List.mem_cons.1 hc with rfl | hc
  · rfl
  · rw [(List.mem_replicate.1 hc).2]
    rfl

theorem ends_newLine (depth : Nat) (cs : List Char) : Ends (newLine depth ++ cs) := by
  rintro c ⟨⟩
  exact .inr rfl

theorem ends_comma (cs : List Char) : Ends (',' :: cs) := by
  rintro c ⟨⟩
  exact .inl rfl

/-- A document begins neither with a blank nor with the end of a list. -/
theorem value_begins {limit n : Nat} {cs : List Char} {r : Json × List Char}
    (h : value limit n cs = .ok r) : ∃ c more, cs = c :: more ∧ isSpace c = false ∧ c ≠ ']' := by
  cases cs with
  | nil => cases n <;> cases h
  | cons c more =>
      refine ⟨c, more, rfl, ?_, ?_⟩
      · by_contra hspace
        rw [Bool.not_eq_false, isSpace] at hspace
        obtain ((rfl | rfl) | rfl) | rfl : ((c = ' ' ∨ c = '\t') ∨ c = '\n') ∨ c = '\r' := by
          simpa using hspace
        all_goals cases n <;> cases h
      · rintro rfl
        cases n <;> cases h

/-- The document is read back at this depth, whatever follows it. -/
def ReadsAt (limit n depth : Nat) (document : Json) : Prop :=
  ∀ rest, Ends rest →
    value limit n (writeAt depth document ++ rest) = .ok (document, rest)

theorem ReadsAt.skipSpaces_eq {limit n depth : Nat} {document : Json}
    (h : ReadsAt limit n depth document) {rest : List Char} (hrest : Ends rest) :
    skipSpaces (writeAt depth document ++ rest) = writeAt depth document ++ rest := by
  obtain ⟨c, more, hcons, hspace, -⟩ := value_begins (h rest hrest)
  rw [hcons, skipSpaces_cons hspace]

/-! ### Lists -/

theorem ends_writeItems (depth outer : Nat) (items : List Json) (rest : List Char) :
    Ends (writeItems depth items ++ (newLine outer ++ rest)) := by
  cases items with
  | nil => exact ends_newLine outer rest
  | cons item items => exact ends_comma _

/-- **The members of a list are read back one after the other.** -/
theorem members_writeItems {limit n depth outer : Nat} {item : Json} {items : List Json}
    (h : ∀ j ∈ item :: items, ReadsAt limit n depth j) {bound : Nat} (hbound : items.length < bound)
    (rest : List Char) :
    members (value limit n) bound (newLine depth ++ (writeAt depth item ++
      (writeItems depth items ++ (newLine outer ++ ']' :: rest)))) = .ok (item :: items, rest) := by
  induction items generalizing item bound with
  | nil =>
      obtain ⟨bound, rfl⟩ := Nat.exists_eq_succ_of_ne_zero (Nat.ne_zero_of_lt hbound)
      have hitem := h item List.mem_cons_self
      have hends := ends_writeItems depth outer [] (']' :: rest)
      rw [members, skipSpaces_newLine, hitem.skipSpaces_eq hends, hitem _ hends]
      simp only [writeItems, List.nil_append, skipSpaces_newLine]
      rw [skipSpaces_cons rfl]
      rfl
  | cons next items ih =>
      obtain ⟨bound, rfl⟩ := Nat.exists_eq_succ_of_ne_zero (Nat.ne_zero_of_lt hbound)
      have hitem := h item List.mem_cons_self
      have hends := ends_writeItems depth outer (next :: items) (']' :: rest)
      have hothers := ih (fun j hj => h j (List.mem_cons_of_mem _ hj))
        (Nat.lt_of_succ_lt_succ hbound)
      rw [members, skipSpaces_newLine, hitem.skipSpaces_eq hends, hitem _ hends]
      simp only [writeItems, List.cons_append, List.append_assoc]
      rw [skipSpaces_cons rfl]
      simp only [hothers]

theorem length_le_writeItems (depth : Nat) (items : List Json) :
    items.length ≤ (writeItems depth items).length := by
  induction items with
  | nil => simp [writeItems]
  | cons item items ih =>
      simp only [writeItems, List.cons_append, List.length_cons, List.length_append]
      omega

/-! ### Objects -/

/-- A field of a new name goes to the end. -/
theorem put_of_notMem {key : String} {value : Json} {fields : List (String × Json)}
    (h : key ∉ fields.map Prod.fst) : put key value fields = fields ++ [(key, value)] := by
  induction fields with
  | nil => rfl
  | cons field fields ih =>
      obtain ⟨k, v⟩ := field
      simp only [List.map_cons, List.mem_cons, not_or] at h
      rw [put, if_neg (Ne.symm h.1), ih h.2]
      rfl

theorem ends_writeFields (depth outer : Nat) (fields : List (String × Json)) (rest : List Char) :
    Ends (writeFields depth fields ++ (newLine outer ++ rest)) := by
  cases fields with
  | nil => exact ends_newLine outer rest
  | cons field fields => exact ends_comma _

/-- One field is read, and put behind those read before: others follow it, or it is the last. -/
theorem fieldsInto_field {limit n depth bound : Nat} {key : String} {document : Json}
    {before : List (String × Json)} (h : ReadsAt limit n depth document)
    (hkey : key ∉ before.map Prod.fst) {rest cs : List Char} (hrest : Ends rest)
    (hcs : cs = newLine depth ++ (writeText key ++
      (':' :: ' ' :: (writeAt depth document ++ rest)))) :
    (∀ more, skipSpaces rest = ',' :: more →
      fieldsInto (value limit n) (bound + 1) before cs =
        fieldsInto (value limit n) bound (before ++ [(key, document)]) more) ∧
    (∀ after, skipSpaces rest = '\x7d' :: after →
      fieldsInto (value limit n) (bound + 1) before cs =
        .ok (before ++ [(key, document)], after)) := by
  have hblank : skipSpaces (' ' :: (writeAt depth document ++ rest)) =
      writeAt depth document ++ rest := h.skipSpaces_eq hrest
  rw [fieldsInto, hcs, skipSpaces_newLine, writeText, List.append_assoc, List.cons_append,
    skipSpaces_cons rfl]
  simp only [List.cons_append, List.nil_append, text_escape]
  rw [skipSpaces_cons rfl]
  simp only [hblank, h rest hrest, put_of_notMem hkey]
  refine ⟨fun more hmore => ?_, fun after hafter => ?_⟩
  · simp only [hmore]
  · simp only [hafter]

theorem notMem_of_nodup {key : String} {document : Json} {fields before : List (String × Json)}
    (h : ((before ++ (key, document) :: fields).map Prod.fst).Nodup) :
    key ∉ before.map Prod.fst := by
  rw [List.map_append, List.map_cons] at h
  exact fun hmem => (List.nodup_append.1 h).2.2 _ hmem _ List.mem_cons_self rfl

/-- **The fields of an object are read back one after the other**, behind those read before. -/
theorem fieldsInto_writeFields {limit n depth outer : Nat} {key : String} {document : Json}
    {fields before : List (String × Json)}
    (h : ∀ field ∈ (key, document) :: fields, ReadsAt limit n depth field.2)
    (hkeys : ((before ++ (key, document) :: fields).map Prod.fst).Nodup)
    {bound : Nat} (hbound : fields.length < bound) (rest : List Char) :
    fieldsInto (value limit n) bound before (newLine depth ++ (writeText key ++
      (':' :: ' ' :: (writeAt depth document ++
        (writeFields depth fields ++ (newLine outer ++ '\x7d' :: rest)))))) =
      .ok (before ++ (key, document) :: fields, rest) := by
  induction fields generalizing key document before bound with
  | nil =>
      obtain ⟨bound, rfl⟩ := Nat.exists_eq_succ_of_ne_zero (Nat.ne_zero_of_lt hbound)
      have hends := ends_writeFields depth outer [] ('\x7d' :: rest)
      refine (fieldsInto_field (h _ List.mem_cons_self) (notMem_of_nodup hkeys) hends rfl).2
        rest ?_
      rw [writeFields, List.nil_append, skipSpaces_newLine, skipSpaces_cons rfl]
  | cons next fields ih =>
      obtain ⟨bound, rfl⟩ := Nat.exists_eq_succ_of_ne_zero (Nat.ne_zero_of_lt hbound)
      have hends := ends_writeFields depth outer (next :: fields) ('\x7d' :: rest)
      obtain ⟨nextKey, nextDocument⟩ := next
      have hmore : (((before ++ [(key, document)]) ++ (nextKey, nextDocument) :: fields).map
          Prod.fst).Nodup := by
        simpa using hkeys
      have hothers := ih (fun field hfield => h field (List.mem_cons_of_mem _ hfield)) hmore
        (Nat.lt_of_succ_lt_succ hbound)
      rw [List.append_assoc] at hothers
      refine ((fieldsInto_field (h _ List.mem_cons_self) (notMem_of_nodup hkeys) hends rfl).1
        _ ?_).trans hothers
      simp only [writeFields, List.cons_append, List.append_assoc]
      rw [skipSpaces_cons rfl]

theorem length_le_writeFields (depth : Nat) (fields : List (String × Json)) :
    fields.length ≤ (writeFields depth fields).length := by
  induction fields with
  | nil => simp [writeFields]
  | cons field fields ih =>
      obtain ⟨key, document⟩ := field
      simp only [writeFields, List.cons_append, List.length_cons, List.length_append]
      omega

/-! ### Documents -/

mutual

/-- No number of the document is NaN, and no object has two fields of one name. -/
def Faithful : Json → Prop
  | num x => x.isNaN = false
  | arr items => allFaithful items
  | obj fields => (fields.map Prod.fst).Nodup ∧ fieldsFaithful fields
  | _ => True

/-- The same of all members of a list. -/
def allFaithful : List Json → Prop
  | [] => True
  | item :: items => item.Faithful ∧ allFaithful items

/-- The same of the values of all fields. -/
def fieldsFaithful : List (String × Json) → Prop
  | [] => True
  | (_, document) :: fields => document.Faithful ∧ fieldsFaithful fields

end

mutual

/-- The most that `leaf` gives for a part of the document, with `level` added for every list and
object around it. -/
def most (leaf : Json → Nat) (level : Nat) : Json → Nat
  | arr items => mostOfItems leaf level items + level
  | obj fields => mostOfFields leaf level fields + level
  | document => leaf document

/-- The most among the members of a list. -/
def mostOfItems (leaf : Json → Nat) (level : Nat) : List Json → Nat
  | [] => 0
  | item :: items => max (item.most leaf level) (mostOfItems leaf level items)

/-- The most among the values of fields. -/
def mostOfFields (leaf : Json → Nat) (level : Nat) : List (String × Json) → Nat
  | [] => 0
  | (_, document) :: fields => max (document.most leaf level) (mostOfFields leaf level fields)

end

/-- How many lists and objects are open at once. -/
def depth : Json → Nat :=
  most (fun _ => 0) 1

/-- How many digits the longest whole number of the document has. -/
def longest : Json → Nat :=
  most (fun document => match document with
    | int i => digitCount i.natAbs
    | _ => 0) 0

/-- What holds of a document because it holds of its parts. -/
theorem ofParts {P : Json → Prop} (null : P null) (bool : ∀ b, P (bool b)) (int : ∀ i, P (int i))
    (num : ∀ x, P (num x)) (str : ∀ s, P (str s))
    (arr : ∀ items, (∀ item ∈ items, P item) → P (arr items))
    (obj : ∀ fields, (∀ field ∈ fields, P field.2) → P (obj fields)) (document : Json) :
    P document :=
  @Json.rec P (fun items => ∀ item ∈ items, P item) (fun fields => ∀ field ∈ fields, P field.2)
    (fun field => P field.2) null bool int num str arr obj (by simp)
    (fun _ _ hitem hitems => List.forall_mem_cons.2 ⟨hitem, hitems⟩) (by simp)
    (fun _ _ hfield hfields => List.forall_mem_cons.2 ⟨hfield, hfields⟩) (fun _ _ h => h) document

theorem allFaithful_iff {items : List Json} :
    allFaithful items ↔ ∀ item ∈ items, item.Faithful := by
  induction items with
  | nil => simp [allFaithful]
  | cons item items ih => rw [allFaithful, ih, List.forall_mem_cons]

theorem fieldsFaithful_iff {fields : List (String × Json)} :
    fieldsFaithful fields ↔ ∀ field ∈ fields, field.2.Faithful := by
  induction fields with
  | nil => simp [fieldsFaithful]
  | cons field fields ih => rw [fieldsFaithful, ih, List.forall_mem_cons]

theorem most_le_of_mem_items {leaf : Json → Nat} {level : Nat} {item : Json} {items : List Json}
    (h : item ∈ items) : item.most leaf level ≤ mostOfItems leaf level items := by
  induction items with
  | nil => cases h
  | cons first items ih =>
      rw [mostOfItems]
      rcases List.mem_cons.1 h with rfl | h
      · exact Nat.le_max_left _ _
      · exact (ih h).trans (Nat.le_max_right _ _)

theorem most_le_of_mem_fields {leaf : Json → Nat} {level : Nat} {field : String × Json}
    {fields : List (String × Json)} (h : field ∈ fields) :
    field.2.most leaf level ≤ mostOfFields leaf level fields := by
  induction fields with
  | nil => cases h
  | cons first fields ih =>
      rw [mostOfFields]
      rcases List.mem_cons.1 h with rfl | h
      · exact Nat.le_max_left _ _
      · exact (ih h).trans (Nat.le_max_right _ _)

/-- A list whose first member is read back is not taken for an empty one. -/
theorem readsAt_arr {limit n depth : Nat} {item : Json} {items : List Json}
    (h : ∀ j ∈ item :: items, ReadsAt limit n (depth + 1) j) :
    ReadsAt limit (n + 1) depth (arr (item :: items)) := by
  intro rest _
  have hitem := h item List.mem_cons_self
  have hends := ends_writeItems (depth + 1) depth items (']' :: rest)
  have hlen := length_le_writeItems (depth + 1) items
  obtain ⟨c, more, hcons, -, hbracket⟩ := value_begins (hitem _ hends)
  simp only [writeAt, List.cons_append, List.append_assoc, List.nil_append]
  rw [value, skipSpaces_newLine, hitem.skipSpaces_eq hends]
  split
  · next heq =>
    rw [hcons] at heq
    exact absurd (List.cons.inj heq).1 hbracket
  · rw [members_writeItems h (by simp only [List.length_append]; omega)]

/-- An object whose values are read back is read back itself. -/
theorem readsAt_obj {limit n depth : Nat} {key : String} {document : Json}
    {fields : List (String × Json)}
    (h : ∀ field ∈ (key, document) :: fields, ReadsAt limit n (depth + 1) field.2)
    (hkeys : (((key, document) :: fields).map Prod.fst).Nodup) :
    ReadsAt limit (n + 1) depth (obj ((key, document) :: fields)) := by
  intro rest _
  have hlen := length_le_writeFields (depth + 1) fields
  have hnone : (([] ++ (key, document) :: fields).map Prod.fst).Nodup := hkeys
  simp only [writeAt, List.cons_append, List.append_assoc, List.nil_append]
  rw [value, skipSpaces_newLine]
  split
  · next heq => exact absurd (List.cons.inj heq).1 (by decide)
  · rw [fieldsInto_writeFields h hnone (by simp only [List.length_append, List.length_cons]; omega)]
    rfl

/-- **A document is read back at any depth, whatever follows it.** -/
theorem value_writeAt {limit : Nat} (document : Json) :
    document.Faithful → document.longest ≤ limit →
      ∀ n depth, document.depth ≤ n → ReadsAt limit n depth document := by
  induction document using ofParts with
  | null =>
      intro _ _ n depth _ rest _
      cases n <;> rfl
  | bool b =>
      intro _ _ n depth _ rest _
      cases b <;> cases n <;> rfl
  | int i =>
      intro _ hdigits n depth _ rest hrest
      exact value_wholeText n hdigits hrest
  | num x =>
      intro hnan _ n depth _ rest hrest
      exact value_writeNumber limit n hnan hrest
  | str s =>
      intro _ _ n depth _ rest _
      simp only [writeAt, writeText, List.cons_append, List.append_assoc, List.nil_append]
      rw [value, text_escape]
  | arr items ih =>
      intro hfaithful hdigits n depth hdepth
      obtain ⟨n, rfl⟩ := Nat.exists_eq_succ_of_ne_zero (Nat.ne_zero_of_lt hdepth)
      cases items with
      | nil => exact fun rest _ => rfl
      | cons item items =>
          refine readsAt_arr fun j hj => ih j hj ?_ ?_ n (depth + 1) ?_
          · exact allFaithful_iff.1 hfaithful j hj
          · exact (most_le_of_mem_items hj).trans hdigits
          · exact (most_le_of_mem_items hj).trans (Nat.le_of_succ_le_succ hdepth)
  | obj fields ih =>
      intro hfaithful hdigits n depth hdepth
      obtain ⟨n, rfl⟩ := Nat.exists_eq_succ_of_ne_zero (Nat.ne_zero_of_lt hdepth)
      cases fields with
      | nil => exact fun rest _ => rfl
      | cons field fields =>
          obtain ⟨key, document⟩ := field
          refine readsAt_obj (fun field hfield => ih field hfield ?_ ?_ n (depth + 1) ?_)
            hfaithful.1
          · exact fieldsFaithful_iff.1 hfaithful.2 field hfield
          · exact (most_le_of_mem_fields hfield).trans hdigits
          · exact (most_le_of_mem_fields hfield).trans (Nat.le_of_succ_le_succ hdepth)

/-- **A document is read back from its text**, within any limits that it keeps. -/
theorem read_write {limits : Limits} {document : Json} (h : document.Faithful)
    (hdepth : document.depth ≤ limits.nesting) (hdigits : document.longest ≤ limits.digits) :
    read limits (write document) = .ok document := by
  have hreads := value_writeAt document h hdigits limits.nesting 0 hdepth
  have hnil : Ends [] := by simp [Ends]
  have hvalue := hreads [] hnil
  have hspaces := hreads.skipSpaces_eq hnil
  rw [List.append_nil] at hvalue hspaces
  rw [read, write, String.toList_ofList, hspaces, hvalue]
  rfl

end ScriptLang.Json
