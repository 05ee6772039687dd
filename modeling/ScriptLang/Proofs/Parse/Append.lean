import ScriptLang.Proofs.Parse.Complete
import ScriptLang.Proofs.Parse.Progress

/-!
# Programs one after the other

A list of declarations that is followed by further tokens is read first, and what follows is read as
if it stood alone, unless it begins with an `else`, which would belong to what stands in front of it.
Since a parser sees kinds and literals only, what follows may be read before it is moved behind the
list.

## Main Definitions

* `Outcome.prepend`: the outcome with statements in front of those that it builds.

## Main Statements

* `declarations_append`: a list of declarations in front of further tokens.
* `parse_append`: a program in front of another one.
-/

namespace ScriptLang.Parse

/-! ### A list in front of further tokens -/

/-- The outcome with statements in front of those that it builds. -/
def Outcome.prepend (stmts : List Stmt) : Outcome (List Stmt) → Outcome (List Stmt)
  | .done others next noted => .done (stmts ++ others) next noted
  | .failed blame next noted => .failed blame next noted
  | .halted cause next noted => .halted cause next noted

theorem Outcome.prepend_nil (o : Outcome (List Stmt)) : o.prepend [] = o := by
  cases o <;> rfl

theorem Outcome.prepend_cons (stmt : Stmt) (stmts : List Stmt) (o : Outcome (List Stmt)) :
    (o.prepend stmts).prepend [stmt] = o.prepend (stmt :: stmts) := by
  cases o <;> rfl

/-- What a declaration builds stands in front of what the loop builds after it, and so does what it
notes. -/
theorem bind_declarations_of_done {decl : Parser (Option Stmt)} {c next : Cursor}
    {first : Option Stmt} {noted : List Blame} (h : decl c = .done first next noted)
    (others : Parser (List Stmt)) :
    (decl >>= fun first => others >>= fun others => pure (first.toList ++ others)) c =
      ((others next).prepend first.toList).after noted := by
  rw [bind_of_done h]
  cases hothers : others next with
  | done stmts last more =>
      rw [bind_of_done hothers]
      simp [pure, Parser.pure, Outcome.after, Outcome.prepend]
  | failed blame last more => rw [bind_of_failed hothers, Outcome.prepend]
  | halted cause last more => rw [bind_of_halted hothers, Outcome.prepend]

/-- A declaration that is built without an error stands in front of the rest. -/
theorem bind_declarations_of_builds {decl : Parser (Option Stmt)} {c next : Cursor} {stmt : Stmt}
    (h : decl.Builds c (some stmt) next) (others : Parser (List Stmt)) :
    (decl >>= fun first => others >>= fun others => pure (first.toList ++ others)) c =
      (others next).prepend [stmt] :=
  (bind_declarations_of_done h others).trans (Outcome.after_nil _)

/-- What stands behind a list of declarations begins with no `else`, whether the list is empty or
not. -/
theorem head_ne_else_of_derives {stmts : List Stmt} {ts : List Token}
    (h : Derives (.decls stmts) ts) {t : Token} (rest : List Token) (ht : t.kind ≠ .elseWord) :
    ∃ u us, ts ++ t :: rest = u :: us ∧ u.kind ≠ .elseWord := by
  cases h with
  | nil => exact ⟨t, rest, rfl, ht⟩
  | cons hfirst _ =>
      obtain ⟨u, us, rfl, hu⟩ := hfirst.head_decl
      refine ⟨u, _, rfl, ?_⟩
      intro hkind
      simp [hkind, Grammar.beginsStatement, Grammar.beginsOperand] at hu

/-- **A list of declarations is read in front of further tokens**, and they as if alone. -/
theorem declarations_append {limit : Nat} {stmts : List Stmt} {ts : List Token}
    (h : Derives (.decls stmts) ts) (hlevels : levelsOfAll stmts ≤ limit) {t : Token}
    (ht : t.kind ≠ .elseWord) (rest : List Token) (k i : Nat) :
    ∃ j, declarations .endOfInput (declaration (expression limit) (statement limit))
        (stmts.length + k) ⟨i, ts ++ t :: rest⟩ =
      (declarations .endOfInput (declaration (expression limit) (statement limit)) k
        ⟨j, t :: rest⟩).prepend stmts := by
  induction stmts generalizing ts i with
  | nil =>
      cases h
      exact ⟨i, by rw [List.length_nil, Nat.zero_add, List.nil_append, Outcome.prepend_nil]⟩
  | cons stmt stmts ih =>
      simp only [levelsOfAll] at hlevels
      cases h with
      | @cons _ _ first others hfirst hothers =>
          obtain ⟨v, vs, hv, hother⟩ := head_ne_else_of_derives hothers rest ht
          have hreads : Parsed (.decl stmt) first := parsed_of_derives hfirst
          obtain ⟨j, hj⟩ := @hreads limit v vs (by omega) hother i
          obtain ⟨j', hj'⟩ := ih hothers (by omega) j
          refine ⟨j', ?_⟩
          obtain ⟨u, us, rfl, hu⟩ := hfirst.head_decl
          have hopen : ¬ (u.isEnd || u.kind = .endOfInput) = true := by
            cases hkind : u.kind <;>
              simp_all [Token.isEnd, Grammar.beginsStatement, Grammar.beginsOperand]
          rw [← hv, List.cons_append] at hj
          rw [List.length_cons, Nat.add_right_comm, List.append_assoc, List.cons_append,
            declarations_cons, if_neg hopen, bind_declarations_of_builds hj, hj',
            Outcome.prepend_cons]

/-! ### Programs -/

/-- Statements in front of what is built stand in front of the program that comes of it. -/
theorem verdict_prepend (stmts : List Stmt) (o : Outcome (List Stmt)) :
    (o.prepend stmts).verdict =
      match o.verdict with
      | .ok others => .ok (stmts ++ others)
      | .error failure => .error failure := by
  cases o with
  | done others next noted => cases noted <;> rfl
  | failed blame next noted => cases noted <;> rfl
  | halted cause next noted =>
      obtain ⟨index, left⟩ := next
      cases cause with
      | ranOff => rfl
      | tooDeep =>
          cases left with
          | nil => rfl
          | cons t rest => cases noted <;> rfl

/-- **A program in front of another one** is parsed first, and the other one as if it stood alone,
whatever texts, lines and positions it has there. -/
theorem parse_append {limit : Nat} {body tokens : List Token} {first : List Stmt}
    (hfirst : Derives (.decls first) body) (hlevels : levelsOfAll first ≤ limit)
    (hend : ∃ t ∈ tokens, t.isEnd = true)
    (helse : ∀ t, tokens.head? = some t → t.kind ≠ .elseWord) (r : Relabeling) :
    ∃ j, parse limit (body ++ tokens.map r.token) =
      match parse limit tokens with
      | .ok second => .ok (first ++ relabelAll r.token second)
      | .error failure => .error (failure.relabel { r with offset := j }) := by
  have hbegin : Cursor.Within tokens ⟨0, tokens⟩ := ⟨rfl, hend⟩
  obtain ⟨t, rest, rfl⟩ : ∃ t rest, tokens = t :: rest := hbegin.hasEnd.exists_cons
  have hlength := hfirst.length_le
  -- The loop over the whole has at least as many rounds left for the second program as it needs.
  obtain ⟨k, hk⟩ := Nat.exists_eq_add_of_le hlength
  have hother : (r.token t).kind ≠ .elseWord := by simpa using helse t rfl
  obtain ⟨j, hj⟩ := declarations_append hfirst hlevels hother (rest.map r.token)
    (k + (t :: rest).length + 1) 0
  have halike := alike_program (r := { r with offset := j }) .endOfInput limit
    ((t :: rest).length + 1) ⟨0, t :: rest⟩ hbegin
  have hrounds : declarations .endOfInput (declaration (expression limit) (statement limit))
      (k + (t :: rest).length + 1) ⟨j, (t :: rest).map r.token⟩ =
      declarations .endOfInput (declaration (expression limit) (statement limit))
        ((t :: rest).length + 1) ⟨j, (t :: rest).map r.token⟩ :=
    declarations_eq_of_length_lt (proceeds_declaration limit)
      (by simp only [List.length_map]; omega) (by simp)
  have hwhole : declarations .endOfInput (declaration (expression limit) (statement limit))
      ((body ++ (t :: rest).map r.token).length + 1) ⟨0, body ++ (t :: rest).map r.token⟩ =
      ((declarations .endOfInput (declaration (expression limit) (statement limit))
        ((t :: rest).length + 1) ⟨0, t :: rest⟩).relabel { r with offset := j }
          (relabelAll r.token)).prepend first := by
    have hcount : (body ++ (t :: rest).map r.token).length + 1 =
        first.length + (k + (t :: rest).length + 1) := by
      rw [List.length_append, List.length_map, hk]
      omega
    rw [hcount]
    refine hj.trans ?_
    rw [← halike.relabel_eq, Cursor.relabel, Nat.zero_add]
    exact congrArg (Outcome.prepend first) hrounds
  refine ⟨j, ?_⟩
  rw [parse_eq_verdict, parse_eq_verdict, hwhole, verdict_prepend, verdict_relabel]
  cases (declarations .endOfInput (declaration (expression limit) (statement limit))
      ((t :: rest).length + 1) ⟨0, t :: rest⟩).verdict <;> rfl

end ScriptLang.Parse
