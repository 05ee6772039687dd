import ScriptLang.Proofs.Grammar.Sound
import ScriptLang.Proofs.Parse.Viable
import ScriptLang.Proofs.Tree.Context

/-!
# Parentheses in a program

In a program that is parsed every node was built from tokens that stand in a row. Where they stand,
the tokens of any other expression on the same rung of the ladder may stand, and the rest of the
program is built as before. An expression in parentheses stands on every rung. So parentheses may be
put around every node, and the parse gives the program with a group in the place of the node, if it
has the two levels that this may take.

## Main Definitions

* `NodeAt`: in the tokens of a phrase a node is built from those behind the first few.
* `Derives.Parts`: the tokens of an expression and those of its parts.

## Main Statements

* `nodeAt_program`: where the tokens of a node stand, and what else may stand there.
* `rejected_for_levels`: a program that is nested too deeply is rejected for that alone.
* `parse_parenthesized`: the parse of a program with parentheses around a node.
-/

namespace ScriptLang

/-! ### The parts of an expression -/

namespace Rung

theorem index_le (rung : Rung) : rung.index ≤ Rung.primary.index := by
  cases rung <;> decide

theorem index_le_next (rung : Rung) : rung.index ≤ rung.next.index := by
  cases rung <;> decide

end Rung

namespace Derives

/-- An operator and its operands on a rung as tight as `rung`. -/
def Operands (rung : Rung) (node : Expr → Token → Expr → Expr) (left : Expr) (op : Token)
    (right : Expr) (ts : List Token) : Prop :=
  ∃ (own : Rung) (ls rs : List Token), own.node = node ∧ rung.index ≤ own.index ∧
    op.kind ∈ own.operators ∧ ts = ls ++ op :: rs ∧ Derives (.expr own left) ls ∧
    Derives (.expr own.next right) rs

/-- What the tokens of an expression say of those of its parts. -/
def Parts : Phrase → List Token → Prop
  | .expr _ (.group inner), ts => ∃ opening us closing, ts = opening :: us ++ [closing] ∧
      opening.kind = .leftParen ∧ closing.kind = .rightParen ∧ Derives (.expr .assignment inner) us
  | .expr rung (.unary op operand), ts => ∃ us, ts = op :: us ∧ rung.index ≤ Rung.unary.index ∧
      (op.kind = .bang ∨ op.kind = .minus) ∧ Derives (.expr .unary operand) us
  | .expr rung (.binary left op right), ts => Operands rung .binary left op right ts
  | .expr rung (.logical left op right), ts => Operands rung .logical left op right ts
  | .expr rung (.assign name value), ts => ∃ equals us, ts = name :: equals :: us ∧
      rung.index ≤ Rung.assignment.index ∧ name.kind = .identifier ∧ equals.kind = .equal ∧
      Derives (.expr .assignment value) us
  | _, _ => True

theorem Operands.loosen {rung : Rung} {node : Expr → Token → Expr → Expr} {left right : Expr}
    {op : Token} {ts : List Token} (h : Operands rung.next node left op right ts) :
    Operands rung node left op right ts := by
  obtain ⟨own, ls, rs, hnode, hle, hrest⟩ := h
  exact ⟨own, ls, rs, hnode, Nat.le_trans rung.index_le_next hle, hrest⟩

theorem parts {phrase : Phrase} {ts : List Token} (h : Derives phrase ts) : Parts phrase ts := by
  induction h with
  | assign hname hequals hvalue => exact ⟨_, _, rfl, Nat.le_refl _, hname, hequals, hvalue⟩
  | @loosen rung e ts h ih =>
      cases e with
      | group inner => exact ih
      | unary op operand =>
          obtain ⟨us, hts, hle, hrest⟩ := ih
          exact ⟨us, hts, Nat.le_trans rung.index_le_next hle, hrest⟩
      | binary left op right => exact Operands.loosen ih
      | logical left op right => exact Operands.loosen ih
      | assign name value =>
          obtain ⟨equals, us, hts, hle, hrest⟩ := ih
          exact ⟨equals, us, hts, Nat.le_trans rung.index_le_next hle, hrest⟩
      | _ => trivial
  | @operator rung left right op ls rs hleft hop hright =>
      have hoperands : Operands rung rung.node left op right (ls ++ op :: rs) :=
        ⟨rung, ls, rs, rfl, Nat.le_refl _, hop, rfl, hleft, hright⟩
      cases rung <;> exact hoperands
  | unary hop h => exact ⟨_, rfl, Nat.le_refl _, hop, h⟩
  | group hopening h hclosing => exact ⟨_, _, _, rfl, hopening, hclosing, h⟩
  | _ => trivial

end Derives

/-! ### The tokens of a node -/

/-- In the tokens of a phrase with a hole the node `e`, which fills the hole, is built from the
tokens behind the first `n`. In their place the tokens of any expression of the same rung may stand,
and then this fills the hole. -/
def NodeAt (phrase : Expr → Phrase) (e : Expr) (n : Nat) (ts : List Token) : Prop :=
  ∃ rung front us behind, ts = front ++ us ++ behind ∧ front.length = n ∧
    Derives (.expr rung e) us ∧
    ∀ f vs, Derives (.expr rung f) vs → Derives (phrase f) (front ++ vs ++ behind)

section Nodes

variable {phrase outer : Expr → Phrase} {e : Expr} {n m : Nat} {ts us : List Token}

/-- The node of a part is one of the whole, with more tokens around it. -/
theorem NodeAt.inside (h : NodeAt phrase e n us) (front behind : List Token)
    (hts : ts = front ++ us ++ behind) (hm : m = front.length + n)
    (houter : ∀ f vs, Derives (phrase f) vs → Derives (outer f) (front ++ vs ++ behind)) :
    NodeAt outer e m ts := by
  obtain ⟨rung, before, vs, after, rfl, hn, hderives, hfill⟩ := h
  refine ⟨rung, front ++ before, vs, after ++ behind, by simp [hts], ?_, hderives, ?_⟩
  · rw [List.length_append, hn, hm]
  · intro f ws hf
    simpa using houter f _ (hfill f ws hf)

/-- What stands on a rung stands on every looser one. -/
theorem NodeAt.operand (h : NodeAt phrase e n us) (front behind : List Token) {rung own : Rung}
    (hle : rung.index ≤ own.index) {shape : Expr → Expr}
    (hts : ts = front ++ us ++ behind) (hm : m = front.length + n)
    (houter : ∀ f vs, Derives (phrase f) vs →
      Derives (.expr own (shape f)) (front ++ vs ++ behind)) :
    NodeAt (fun f => .expr rung (shape f)) e m ts :=
  h.inside front behind hts hm fun f vs hf => Grammar.derives_of_index_le (houter f vs hf) hle

/-- The nodes of the operands of an operator. -/
theorem nodeAt_left {node : Expr → Token → Expr → Expr} {rung : Rung} {left : Expr → Expr}
    {op : Token} {right : Expr} (h : Derives.Operands rung node (left e) op right ts)
    (hleft : ∀ own ls, Derives (.expr own (left e)) ls →
      NodeAt (fun f => .expr own (left f)) e n ls) :
    NodeAt (fun f => .expr rung (node (left f) op right)) e n ts := by
  obtain ⟨own, ls, rs, rfl, hle, hop, hts, hl, hr⟩ := h
  refine (hleft own ls hl).operand [] (op :: rs) hle (by simp [hts]) (by simp) fun f vs hf => ?_
  simpa using hf.operator hop hr

@[inherit_doc nodeAt_left]
theorem nodeAt_right {node : Expr → Token → Expr → Expr} {rung : Rung} {left : Expr}
    {op : Token} {right : Expr → Expr} (h : Derives.Operands rung node left op (right e) ts)
    (hright : ∀ own rs, Derives (.expr own (right e)) rs →
      NodeAt (fun f => .expr own (right f)) e n rs) :
    NodeAt (fun f => .expr rung (node left op (right f))) e (left.width + 1 + n) ts := by
  obtain ⟨own, ls, rs, rfl, hle, hop, hts, hl, hr⟩ := h
  have hlength : ls.length = left.width := hl.length_eq
  refine (hright own.next rs hr).operand (ls ++ [op]) [] hle (by simp [hts]) (by simp [hlength])
    fun f vs hf => ?_
  simpa using hl.operator hop hf

/-- **The tokens of a node in an expression.** -/
theorem nodeAt_expr (K : ExprContext) {rung : Rung} (h : Derives (.expr rung (K.fill e)) ts) :
    NodeAt (fun f => .expr rung (K.fill f)) e K.before ts := by
  induction K generalizing rung ts with
  | hole => exact ⟨rung, [], ts, [], by simp, rfl, h, fun f vs hf => by simpa [ExprContext.fill]⟩
  | group K ih =>
      obtain ⟨opening, us, closing, hts, hopening, hclosing, hinner⟩ := h.parts
      exact (ih hinner).operand [opening] [closing] rung.index_le hts rfl
        fun f vs hf => .group hopening hf hclosing
  | unary op K ih =>
      obtain ⟨us, hts, hle, hop, hoperand⟩ := h.parts
      refine (ih hoperand).operand [op] [] hle (by simp [hts]) rfl fun f vs hf => ?_
      simpa [ExprContext.fill] using hf.unary hop
  | binaryLeft K op right ih => exact nodeAt_left h.parts fun own ls hl => ih hl
  | binaryRight left op K ih => exact nodeAt_right h.parts fun own rs hr => ih hr
  | logicalLeft K op right ih => exact nodeAt_left h.parts fun own ls hl => ih hl
  | logicalRight left op K ih => exact nodeAt_right h.parts fun own rs hr => ih hr
  | assign name K ih =>
      obtain ⟨equals, us, hts, hle, hname, hequals, hvalue⟩ := h.parts
      refine (ih hvalue).operand [name, equals] [] hle (by simp [hts]) rfl fun f vs hf => ?_
      simpa [ExprContext.fill] using hf.assign hname hequals

/-- A declaration declares a name or is a statement. -/
theorem Derives.of_decl {stmt : Stmt} (h : Derives (.decl stmt) ts) :
    Derives (.stmt stmt) ts ∨ ∃ name initial, stmt = .declare name initial := by
  cases h with
  | declare _ _ _ => exact Or.inr ⟨_, _, rfl⟩
  | declareInit _ _ _ _ _ => exact Or.inr ⟨_, _, rfl⟩
  | stmtDecl h => exact Or.inl h

theorem nodeAt_decl {K : StmtContext}
    (hstmt : ∀ {us}, Derives (.stmt (K.fill e)) us →
      NodeAt (fun f => .stmt (K.fill f)) e K.before us)
    (h : Derives (.decl (K.fill e)) ts) : NodeAt (fun f => .decl (K.fill f)) e K.before ts := by
  rcases h.of_decl with hinner | ⟨name, initial, heq⟩
  · refine (hstmt hinner).inside [] [] (by simp) (by simp) fun f vs hf => ?_
    simpa using hf.stmtDecl
  · cases K with
    | declare name K =>
        cases h with
        | stmtDecl h => cases h
        | @declareInit word _ equals semicolon _ us hword hname hequals hinitial hsemicolon =>
            refine (nodeAt_expr K hinitial).inside [word, name, equals] [semicolon] rfl rfl
              fun f vs hf => ?_
            exact .declareInit hword hname hequals hf hsemicolon
    | _ => cases heq

/-- The node of a statement in a list, behind the tokens of the statements in front of it. -/
theorem nodeAt_decls {K : StmtContext} {front behind : List Stmt}
    (hdecl : ∀ {us}, Derives (.decl (K.fill e)) us →
      NodeAt (fun f => .decl (K.fill f)) e K.before us)
    (h : Derives (.decls (front ++ K.fill e :: behind)) ts) :
    NodeAt (fun f => .decls (front ++ K.fill f :: behind)) e (widthOfAll front + K.before) ts := by
  induction front generalizing ts with
  | nil =>
      cases h with
      | @cons _ _ us rest hfirst hothers =>
          refine (hdecl hfirst).inside [] rest rfl (by simp [widthOfAll]) fun f vs hf => ?_
          exact hf.cons hothers
  | cons stmt front ih =>
      cases h with
      | @cons _ _ us rest hfirst hothers =>
          have hlength : us.length = stmt.width := hfirst.length_eq
          refine (ih hothers).inside us [] (by simp) ?_ fun f vs hf => ?_
          · rw [hlength, widthOfAll, Nat.add_assoc]
          · simpa using hfirst.cons hf

/-- **The tokens of a node in a statement.** -/
theorem nodeAt_stmt (K : StmtContext) (h : Derives (.stmt (K.fill e)) ts) :
    NodeAt (fun f => .stmt (K.fill f)) e K.before ts := by
  induction K generalizing ts with
  | expr K =>
      cases h with
      | @exprStmt _ us semicolon hvalue hsemicolon =>
          refine (nodeAt_expr K hvalue).inside [] [semicolon] rfl (by simp [StmtContext.before])
            fun f vs hf => ?_
          exact hf.exprStmt hsemicolon
  | print K =>
      cases h with
      | @print word semicolon _ us hword hvalue hsemicolon =>
          refine (nodeAt_expr K hvalue).inside [word] [semicolon] rfl rfl fun f vs hf => ?_
          exact .print hword hf hsemicolon
  | declare name K => cases h
  | block front K behind ih =>
      cases h with
      | @block opening closing _ us hopening hbody hclosing =>
          refine (nodeAt_decls (nodeAt_decl ih) hbody).inside [opening] [closing] rfl rfl
            fun f vs hf => ?_
          exact .block hopening hf hclosing
  | branchTest K whenTrue whenFalse =>
      cases h with
      | @branch word opening closing _ _ cs us hword hopening htest hclosing hthen =>
          refine (nodeAt_expr K htest).inside [word, opening] (closing :: us) (by simp) rfl
            fun f vs hf => ?_
          simpa [StmtContext.fill] using Derives.branch hword hopening hf hclosing hthen
      | @branchElse word opening closing other _ _ _ cs us vs hword hopening htest hclosing hthen
          hopen hother hfalse =>
          refine (nodeAt_expr K htest).inside [word, opening] (closing :: us ++ other :: vs)
            (by simp) rfl fun f ws hf => ?_
          simpa [StmtContext.fill] using
            Derives.branchElse hword hopening hf hclosing hthen hopen hother hfalse
  | branchTrue test K whenFalse ih =>
      cases h with
      | @branch word opening closing _ _ cs us hword hopening htest hclosing hthen =>
          have hlength : cs.length = test.width := htest.length_eq
          refine (ih hthen).inside (word :: opening :: cs ++ [closing]) [] (by simp)
            (by simp [StmtContext.before, hlength]; omega) fun f vs hf => ?_
          simpa [StmtContext.fill] using Derives.branch hword hopening htest hclosing hf
      | @branchElse word opening closing other _ _ _ cs us vs hword hopening htest hclosing hthen
          hopen hother hfalse =>
          have hlength : cs.length = test.width := htest.length_eq
          refine (ih hthen).inside (word :: opening :: cs ++ [closing]) (other :: vs) (by simp)
            (by simp [StmtContext.before, hlength]; omega) fun f ws hf => ?_
          -- What fills the hole does not wait for the `else` either.
          have hopen' : (K.fill f).awaitsElse = false := (K.awaitsElse_fill f e).trans hopen
          simpa [StmtContext.fill] using
            Derives.branchElse hword hopening htest hclosing hf hopen' hother hfalse
  | branchFalse test whenTrue K ih =>
      cases h with
      | @branchElse word opening closing other _ _ _ cs us vs hword hopening htest hclosing hthen
          hopen hother hfalse =>
          have hlength : cs.length = test.width := htest.length_eq
          have hlength' : us.length = whenTrue.width := hthen.length_eq
          refine (ih hfalse).inside (word :: opening :: cs ++ closing :: us ++ [other]) [] (by simp)
            (by simp [StmtContext.before, hlength, hlength']; omega) fun f ws hf => ?_
          simpa [StmtContext.fill] using
            Derives.branchElse hword hopening htest hclosing hthen hopen hother hf
  | loopTest K body =>
      cases h with
      | @loop word opening closing _ _ cs us hword hopening htest hclosing hbody =>
          refine (nodeAt_expr K htest).inside [word, opening] (closing :: us) (by simp) rfl
            fun f vs hf => ?_
          simpa [StmtContext.fill] using Derives.loop hword hopening hf hclosing hbody
  | loopBody test K ih =>
      cases h with
      | @loop word opening closing _ _ cs us hword hopening htest hclosing hbody =>
          have hlength : cs.length = test.width := htest.length_eq
          refine (ih hbody).inside (word :: opening :: cs ++ [closing]) [] (by simp)
            (by simp [StmtContext.before, hlength]; omega) fun f vs hf => ?_
          simpa [StmtContext.fill] using Derives.loop hword hopening htest hclosing hf

/-- **The tokens of a node in a program.** -/
theorem nodeAt_program (K : ProgramContext) (h : Derives (.decls (K.fill e)) ts) :
    NodeAt (fun f => .decls (K.fill f)) e K.before ts :=
  nodeAt_decls (nodeAt_decl (nodeAt_stmt K.stmt)) h

end Nodes

/-! ### Parses -/

namespace Parse

variable {limit : Nat} {tokens body : List Token} {last : Token} {stmts : List Stmt} {e : Expr}

/-- A program that is nested too deeply is parsed to nothing. -/
theorem parse_ne_ok (rest : List Token) (h : Derives (.decls stmts) body)
    (hlast : last.isEnd = true) (hlevels : limit < levelsOfAll stmts) (other : List Stmt) :
    parse limit (body ++ last :: rest) ≠ .ok other := by
  intro hok
  obtain ⟨body', last', rest', hsplit, hlast', h', hlevels'⟩ := derives_of_parse hok
  -- With levels for both, the tokens would be parsed to both.
  have hfirst := parse_of_derives rest h hlast (Nat.le_max_right limit _)
  have hsecond := parse_of_derives rest' h' hlast'
    (Nat.le_trans hlevels' (Nat.le_max_left limit (levelsOfAll stmts)))
  rw [hsplit, hsecond] at hfirst
  obtain rfl : other = stmts := Except.ok.inj hfirst
  exact absurd hlevels' (Nat.not_le_of_lt hlevels)

/-- The want of levels is reported alone if it is reported first. -/
theorem eq_nil_of_lessNesting {first : Blame} {more : List Blame}
    (h : parse limit tokens = .error (.rejected first more)) (hfirst : first.fault = .lessNesting) :
    more = [] := by
  have htakes : (program limit (tokens.length + 1) ⟨0, tokens⟩).Takes anyKind 0 limit ⟨0, tokens⟩ :=
    takes_program limit _ _
  rw [parse_eq_program] at h
  rcases blames_of_rejected h with hblames | ⟨next, noted, blame, ho, -, -, hsplit⟩
  · exact absurd hfirst (htakes.faults first (hblames ▸ List.mem_cons_self))
  · rw [ho] at htakes
    cases noted with
    | nil => exact (List.cons.inj hsplit).2
    | cons other noted =>
        obtain rfl : first = other := (List.cons.inj hsplit).1
        exact absurd hfirst (htakes.faults first List.mem_cons_self)

/-- **A program that is nested too deeply is rejected for that alone.** -/
theorem rejected_for_levels (rest : List Token) (h : Derives (.decls stmts) body)
    (hlast : last.isEnd = true) (hlevels : limit < levelsOfAll stmts) :
    ∃ blame, parse limit (body ++ last :: rest) = .error (.rejected blame []) ∧
      blame.fault = .lessNesting := by
  have hend : ∃ t ∈ body ++ [last], t.isEnd = true := ⟨last, by simp, hlast⟩
  rw [parse_append_end limit body rest hlast]
  obtain ⟨first, more, hrejected⟩ := rejected_of_not_ok hend (parse_ne_ok [] h hlast hlevels)
  have hfault : first.fault = .lessNesting := by
    refine Decidable.byContradiction fun hne => ?_
    obtain ⟨k, t, hfirst, -, -⟩ := (errors_begin_where_unviable hend hrejected).2 hne
    refine hfirst.not_viable ?_
    have hviable : Viable ((body ++ [last]).take (k + 1) ++ (body ++ [last]).drop (k + 1)) :=
      ⟨stmts, body, last, [], h, hlast, by simp⟩
    exact hviable.of_append
  obtain rfl := eq_nil_of_lessNesting hrejected hfault
  exact ⟨first, hrejected, hfault⟩

/-- **Parentheses around a node.** If the tokens are parsed to a program with the node `e` in it,
this was built from a row of tokens. With parentheses around them the tokens are parsed to the
program with a group in the place of the node, if the parser may open the levels of that, two more
than before at most. Else they are rejected for the nesting alone. -/
theorem parse_parenthesized {K : ProgramContext} (h : parse limit tokens = .ok (K.fill e)) :
    ∃ front us behind, tokens = front ++ us ++ behind ∧ front.length = K.before ∧
      us.length = e.width ∧ (∃ rung, Derives (.expr rung e) us) ∧
      levelsOfAll (K.fill (.group e)) ≤ limit + 2 ∧
      ∀ opening closing : Token, opening.kind = .leftParen → closing.kind = .rightParen →
        ∀ levels,
          (levelsOfAll (K.fill (.group e)) ≤ levels →
            parse levels (front ++ opening :: us ++ closing :: behind) =
              .ok (K.fill (.group e))) ∧
          (levels < levelsOfAll (K.fill (.group e)) →
            ∃ blame, parse levels (front ++ opening :: us ++ closing :: behind) =
              .error (.rejected blame []) ∧ blame.fault = .lessNesting) := by
  obtain ⟨body, last, rest, rfl, hlast, hderives, hlevels⟩ := derives_of_parse h
  obtain ⟨rung, front, us, behind, rfl, hfront, hnode, hfill⟩ := nodeAt_program K hderives
  refine ⟨front, us, behind ++ last :: rest, by simp, hfront, hnode.length_eq, ⟨rung, hnode⟩,
    Nat.le_trans (K.levels_fill_group e) (Nat.add_le_add_right hlevels 2), ?_⟩
  intro opening closing hopening hclosing levels
  have hassignment : Derives (.expr .assignment e) us :=
    Grammar.derives_of_index_le hnode (Nat.zero_le _)
  have hgroup : Derives (.expr rung (.group e)) (opening :: us ++ [closing]) :=
    Grammar.derives_of_index_le (.group hopening hassignment hclosing) rung.index_le
  have hwhole := hfill _ _ hgroup
  have htokens : front ++ opening :: us ++ closing :: (behind ++ last :: rest) =
      front ++ (opening :: us ++ [closing]) ++ behind ++ last :: rest := by simp
  rw [htokens]
  exact ⟨parse_of_derives rest hwhole hlast, rejected_for_levels rest hwhole hlast⟩

end Parse

end ScriptLang
