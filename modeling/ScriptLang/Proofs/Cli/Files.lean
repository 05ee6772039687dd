import Mathlib.Data.List.TakeWhile
import ScriptLang.Cli.Files

/-!
# Files and their names

A name is spelled in one way only: taken apart and spelled again it stays as it is. So a file that
is written is found under its name afterwards, and all other files are as they were.

## Main Definitions

* `Path.Spelled`: the parts of a name as they are when a name has been taken apart.
* `Path.EndsInPart`: the last part of a name says something.

## Main Statements

* `Path.ofText_text`: a spelled name is taken apart into the same parts.
* `Path.ofText_append`: a name with something added to its last part.
* `Files.read?_write`: what the files hold after one is written.
* `unifyNewlines_of_not_mem`: a text without carriage returns stays as it is.
-/

namespace ScriptLang

namespace Path

@[simp] theorem isIdle_nil : isIdle [] = true := rfl

/-! ### Parts between slashes -/

theorem splitSlashes_eq (cs : List Char) : splitSlashes cs = cs.splitOn '/' := by
  induction cs with
  | nil => rfl
  | cons c cs ih =>
      have hcons : List.splitOn '/' (c :: cs) =
          if c == '/' then [] :: cs.splitOn '/' else (cs.splitOn '/').modifyHead (c :: ·) :=
        List.splitOnP_cons_eq_if_modifyHead c cs
      rw [splitSlashes, hcons, ih]
      by_cases hc : c = '/'
      · rw [if_pos hc, if_pos (beq_iff_eq.2 hc)]
      · rw [if_neg hc, if_neg (by simpa using hc)]
        split
        · next hnil => exact absurd hnil (List.splitOn_ne_nil _ _)
        · next hparts => rw [hparts, List.modifyHead_cons]

theorem exists_splitSlashes_cons (cs : List Char) :
    ∃ part parts, splitSlashes cs = part :: parts :=
  List.exists_cons_of_ne_nil (by rw [splitSlashes_eq]; exact List.splitOn_ne_nil _ _)

theorem splitSlashes_slash (cs : List Char) : splitSlashes ('/' :: cs) = [] :: splitSlashes cs := by
  rw [splitSlashes, if_pos rfl]

theorem splitSlashes_of_ne {c : Char} (hc : c ≠ '/') {cs part : List Char}
    {parts : List (List Char)} (h : splitSlashes cs = part :: parts) :
    splitSlashes (c :: cs) = (c :: part) :: parts := by
  rw [splitSlashes, if_neg hc, h]

/-- What stands between the slashes of a name is of the name and holds no slash. -/
theorem mem_of_mem_splitSlashes {cs part : List Char} (h : part ∈ splitSlashes cs) :
    ∀ c ∈ part, c ≠ '/' ∧ c ∈ cs := by
  induction cs generalizing part with
  | nil =>
      obtain rfl := List.mem_singleton.1 h
      simp
  | cons c cs ih =>
      by_cases hc : c = '/'
      · rw [splitSlashes, if_pos hc] at h
        rcases List.mem_cons.1 h with rfl | h
        · simp
        · exact fun d hd => (ih h d hd).imp_right (List.mem_cons_of_mem _)
      · obtain ⟨first, others, hparts⟩ := exists_splitSlashes_cons cs
        rw [splitSlashes_of_ne hc hparts] at h
        rw [hparts] at ih
        rcases List.mem_cons.1 h with rfl | h
        · refine List.forall_mem_cons.2 ⟨⟨hc, List.mem_cons_self⟩, fun d hd => ?_⟩
          exact (ih List.mem_cons_self d hd).imp_right (List.mem_cons_of_mem _)
        · exact fun d hd =>
            (ih (List.mem_cons_of_mem _ h) d hd).imp_right (List.mem_cons_of_mem _)

theorem splitSlashes_of_not_mem {cs : List Char} (h : '/' ∉ cs) : splitSlashes cs = [cs] := by
  induction cs with
  | nil => rfl
  | cons c cs ih =>
      rw [List.mem_cons, not_or] at h
      exact splitSlashes_of_ne (Ne.symm h.1) (ih h.2)

/-- What is added at the end is added to the last part. -/
theorem splitSlashes_append {cs ds last : List Char} {before : List (List Char)} (hds : '/' ∉ ds)
    (h : splitSlashes cs = before ++ [last]) :
    splitSlashes (cs ++ ds) = before ++ [last ++ ds] := by
  induction cs generalizing before last with
  | nil =>
      have h : [] ++ [[]] = before ++ [last] := h
      obtain ⟨rfl, hlast⟩ := List.append_inj' h rfl
      obtain rfl : [] = last := (List.cons.inj hlast).1
      exact splitSlashes_of_not_mem hds
  | cons c cs ih =>
      by_cases hc : c = '/'
      · rw [splitSlashes, if_pos hc] at h
        cases before with
        | nil =>
            obtain ⟨part, parts, hparts⟩ := exists_splitSlashes_cons cs
            rw [hparts] at h
            cases h
        | cons first before =>
            obtain ⟨rfl, hothers⟩ := List.cons.inj h
            rw [List.cons_append, splitSlashes, if_pos hc, ih hothers, List.cons_append]
      · obtain ⟨part, parts, hparts⟩ := exists_splitSlashes_cons cs
        rw [splitSlashes_of_ne hc hparts] at h
        rw [List.cons_append]
        cases before with
        | nil =>
            obtain ⟨rfl, rfl⟩ := List.cons.inj h
            exact splitSlashes_of_ne hc (@ih part [] hparts)
        | cons first before =>
            obtain ⟨rfl, rfl⟩ := List.cons.inj h
            exact splitSlashes_of_ne hc (@ih last (part :: before) hparts)

/-! ### Spellings -/

/-- The parts of a name as they are when a name has been taken apart. -/
structure Spelled (path : Path) : Prop where
  root : path.root = [] ∨ path.root = ['/'] ∨ path.root = ['/', '/']
  parts : ∀ part ∈ path.parts, isIdle part = false ∧ '/' ∉ part

theorem spelled_ofText (text : String) : (ofText text).Spelled where
  root := by
    simp only [ofText, rootOf]
    split <;> simp
  parts := by
    intro part hpart
    obtain ⟨hmem, hidle⟩ := List.mem_filter.1 hpart
    exact ⟨by simpa using hidle, fun hslash => (mem_of_mem_splitSlashes hmem _ hslash).1 rfl⟩

theorem Spelled.ofText_text {path : Path} (h : path.Spelled) : ofText path.text = path := by
  obtain ⟨root, parts⟩ := path
  obtain ⟨hroot, hparts⟩ := h
  dsimp only at hroot hparts
  cases parts with
  | nil => rcases hroot with rfl | rfl | rfl <;> rfl
  | cons first others =>
      have hslashes : ∀ part ∈ first :: others, '/' ∉ part :=
        fun part hpart => (hparts part hpart).2
      have hsplit : splitSlashes (List.intercalate ['/'] (first :: others)) = first :: others := by
        rw [splitSlashes_eq]
        exact List.splitOn_intercalate '/' hslashes (List.cons_ne_nil _ _)
      have hfilter : (first :: others).filter (fun part => !isIdle part) = first :: others :=
        List.filter_eq_self.2 fun part hpart => by simp [(hparts part hpart).1]
      -- The first part begins with something other than a slash, where the root ends.
      obtain ⟨c, cs, hbegin⟩ : ∃ c cs, List.intercalate ['/'] (first :: others) = c :: cs := by
        refine List.exists_cons_of_ne_nil fun hnil => ?_
        rw [hnil] at hsplit
        have hidle := (hparts [] (by rw [← hsplit]; exact List.mem_singleton_self _)).1
        cases hidle
      have hc : c ≠ '/' := by
        rintro rfl
        rw [hbegin, splitSlashes_slash] at hsplit
        obtain ⟨rfl, -⟩ := List.cons.inj hsplit
        cases (hparts [] List.mem_cons_self).1
      rw [hbegin] at hsplit
      rcases hroot with rfl | rfl | rfl <;>
        simp [ofText, text, hbegin, hc, rootOf, splitSlashes_slash, hsplit, hfilter]

/-- **A name that is spelled is taken apart into the same parts.** -/
theorem ofText_text (text : String) : ofText (ofText text).text = ofText text :=
  (spelled_ofText text).ofText_text

theorem text_ofText_text (text : String) : (ofText (ofText text).text).text = (ofText text).text :=
  congrArg Path.text (ofText_text text)

/-! ### Names with something added -/

/-- The last part of the name says something. -/
def EndsInPart (name : String) : Prop :=
  isIdle ((splitSlashes name.toList).getLastD []) = false

instance (name : String) : Decidable (EndsInPart name) :=
  inferInstanceAs (Decidable (_ = _))

theorem EndsInPart.exists_last {name : String} (h : EndsInPart name) :
    ∃ before c cs, splitSlashes name.toList = before ++ [c :: cs] ∧ isIdle (c :: cs) = false := by
  obtain ⟨part, parts, hcons⟩ := exists_splitSlashes_cons name.toList
  obtain ⟨before, last, hparts⟩ : ∃ before last, splitSlashes name.toList = before ++ [last] :=
    ⟨_, _, (List.dropLast_concat_getLast (by simp [hcons])).symm⟩
  rw [EndsInPart, hparts, List.getLastD_concat] at h
  cases last with
  | nil => cases h
  | cons c cs => exact ⟨before, c, cs, hparts, h⟩

/-- A name whose last part says something is not made of slashes alone, so nothing that is added
changes where its root ends. -/
theorem EndsInPart.takeWhile_append {name : String} (h : EndsInPart name) (ds : List Char) :
    (name.toList ++ ds).takeWhile (· = '/') = name.toList.takeWhile (· = '/') := by
  obtain ⟨before, c, cs, hparts, -⟩ := h.exists_last
  have hpart : c :: cs ∈ splitSlashes name.toList := by simp [hparts]
  obtain ⟨hc, hmem⟩ := mem_of_mem_splitSlashes hpart c List.mem_cons_self
  rw [List.takeWhile_append, if_neg]
  intro hlength
  have hall := List.takeWhile_eq_self_iff.1
    ((List.takeWhile_prefix _).eq_of_length hlength) c hmem
  exact hc (by simpa using hall)

theorem EndsInPart.exists_parts {name : String} (h : EndsInPart name) :
    ∃ before c cs, ∀ ending : String, '/' ∉ ending.toList →
      (ofText (name ++ ending)).parts = before ++ [c :: (cs ++ ending.toList)] := by
  obtain ⟨before, c, cs, hparts, hlast⟩ := h.exists_last
  refine ⟨before.filter fun part => !isIdle part, c, cs, fun ending hending => ?_⟩
  have hadded : isIdle (c :: (cs ++ ending.toList)) = false := by
    cases hchars : ending.toList with
    | nil => rwa [List.append_nil]
    | cons d ds => simp [isIdle]
  have hsplit := splitSlashes_append hending hparts
  simp [ofText, hsplit, hadded]

/-- **A name with something added** is that with something added to its last part. -/
theorem ofText_append {name ending : String} (h : EndsInPart name) (hending : '/' ∉ ending.toList) :
    ofText (name ++ ending) = (ofText name).append ending := by
  obtain ⟨before, c, cs, hparts⟩ := h.exists_parts
  have hname : (ofText name).parts = before ++ [c :: cs] := by
    simpa using hparts "" (by simp)
  have hroot : (ofText (name ++ ending)).root = (ofText name).root := by
    simp only [ofText, String.toList_append, h.takeWhile_append]
  rw [append, hname, List.reverse_append, List.reverse_singleton, List.singleton_append]
  dsimp only
  rw [← hroot, List.reverse_cons, List.reverse_reverse, List.cons_append, ← hparts ending hending]

end Path

/-! ### Files -/

namespace Files

theorem read?_cons (name contents : String) (files : Files) (path : Path) :
    read? ((name, contents) :: files) path =
      if (Path.ofText name).text = path.text then some contents else read? files path := by
  by_cases h : (Path.ofText name).text = path.text
  · simp [read?, h]
  · simp [read?, h, beq_false_of_ne h]

/-- **What the files hold after one is written**: under its name what is written, under all others
what they held. -/
theorem read?_write (files : Files) {path : Path} (h : (Path.ofText path.text).text = path.text)
    (other : Path) (contents : String) :
    (files.write path contents).read? other =
      if path.text = other.text then some contents else files.read? other := by
  induction files with
  | nil => rw [write, read?_cons, h]
  | cons file files ih =>
      obtain ⟨name, old⟩ := file
      rw [write, read?_cons]
      split
      · next hname =>
        rw [beq_iff_eq] at hname
        rw [read?_cons, hname]
        split <;> rfl
      · next hname =>
        rw [beq_iff_eq] at hname
        rw [read?_cons, ih]
        by_cases hother : (Path.ofText name).text = other.text
        · rw [if_pos hother, if_neg fun heq => hname (hother.trans heq.symm), if_pos hother]
        · rw [if_neg hother, if_neg hother]

end Files

/-! ### Line endings -/

theorem unifyNewlines_of_not_mem {cs : List Char} (h : '\r' ∉ cs) : unifyNewlines cs = cs := by
  induction cs with
  | nil => rfl
  | cons c cs ih =>
      rw [List.mem_cons, not_or] at h
      rw [unifyNewlines, ih h.2]
      · rintro rest rfl
        exact absurd rfl h.1
      · rintro rfl
        exact absurd rfl h.1

end ScriptLang
