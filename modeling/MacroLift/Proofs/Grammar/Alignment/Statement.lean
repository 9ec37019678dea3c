import MacroLift.Proofs.Grammar.Alignment.Expression

namespace MacroLift

open MacroLift.Parser

namespace Alignment

variable {A : Alignment} {nested : Nested} {ts us : List Token}

theorem unplacedStmts_branchOf (s : Stmt) : unplacedStmts (branchOf s) = branchOf s.unplaced := by
  cases s <;> rfl

theorem inStep_block (nests : A.Nests nested) :
    A.InStep (Alike Stmt.unplaced) (block nested) (block nested) := by
  have body : A.InStep (Alike unplacedStmts) (blockBody nested) (blockBody nested) := by
    refine InStep.repeated (fun ss rs same => inStep_peek.bindEq fun next => ?_) rfl
    split
    · exact inStep_pure .none
    · exact inStep_pure .none
    · refine nests.statement.bind fun s r more => inStep_pure (.some ?_)
      have same : unplacedStmts ss = unplacedStmts rs := same
      have more : s.unplaced = r.unplaced := more
      simp only [Alike, unplacedStmts_append, unplacedStmts, same, more]
  exact inStep_place.bind fun _ _ _ => (inStep_expect _ _).bindEq fun _ => body.bind fun _ _ same =>
    (inStep_expect _ _).bindEq fun _ => inStep_pure (congrArg (Stmt.block nowhere) same)

theorem inStep_branch (nests : A.Nests nested) :
    A.InStep (Alike unplacedStmts) (branch nested) (branch nested) := by
  refine nests.statement.bind fun s r same => inStep_pure ?_
  have same : s.unplaced = r.unplaced := same
  simp only [Alike, unplacedStmts_branchOf, same]

theorem inStep_condition (nests : A.Nests nested) :
    A.InStep A.SameExpr (condition nested) (condition nested) :=
  (inStep_expect _ _).bindEq fun _ => nests.expression.bind fun _ _ same => (inStep_expect _ _).bindEq fun _ =>
    inStep_pure same

theorem inStep_choice (nests : A.Nests nested) :
    A.InStep (Alike Stmt.unplaced) (choice nested) (choice nested) := by
  have chosen {p q : Pos} {e f : Expr} {ss ss' rs rs' : List Stmt} (test : A.SameExpr e f)
      (whenTrue : Alike unplacedStmts ss ss') (whenFalse : Alike unplacedStmts rs rs') :
      Alike Stmt.unplaced (.choice p e ss rs) (.choice q f ss' rs') := by
    have whenTrue : unplacedStmts ss = unplacedStmts ss' := whenTrue
    have whenFalse : unplacedStmts rs = unplacedStmts rs' := whenFalse
    simp only [Alike, Stmt.unplaced, test.tree, whenTrue, whenFalse]
  refine inStep_place.bind fun _ _ _ => inStep_skip.bindEq fun _ => (inStep_condition nests).bind fun _ _ test =>
    (inStep_branch nests).bind fun _ _ whenTrue => (inStep_accept _).bindEq fun _ => .ite _ ?_ ?_
  · exact (inStep_branch nests).bind fun _ _ whenFalse => inStep_pure (chosen test whenTrue whenFalse)
  · exact inStep_pure (chosen test whenTrue rfl)

theorem inStep_loop (nests : A.Nests nested) : A.InStep (Alike Stmt.unplaced) (loop nested) (loop nested) := by
  refine inStep_place.bind fun _ _ _ => inStep_skip.bindEq fun _ => (inStep_branch nests).bind fun ss rs body =>
    (inStep_expect _ _).bindEq fun _ => (inStep_condition nests).bind fun _ _ test =>
    (inStep_accept _).bindEq fun _ => inStep_pure ?_
  have body : unplacedStmts ss = unplacedStmts rs := body
  simp only [Alike, Stmt.unplaced, body, test.tree]

theorem inStep_declaration (nests : A.Nests nested) :
    A.InStep (Alike Stmt.unplaced) (declaration nested) (declaration nested) := by
  refine inStep_place.bind fun p q _ => (inStep_accept _).bindEq fun isStaticBefore =>
    inStep_ctype.bind fun type type' typed => ?_
  have declared (isStatic : Bool) : A.InStep (Alike Stmt.unplaced)
      (do
        let name ← ident
        expect (.punct .assign) "'=' in declaration"
        let value ← nested.expression
        expect (.punct .semicolon) "';'"
        pure (.declare p type name value isStatic))
      (do
        let name ← ident
        expect (.punct .assign) "'=' in declaration"
        let value ← nested.expression
        expect (.punct .semicolon) "';'"
        pure (.declare q type' name value isStatic)) := by
    refine inStep_ident.bind fun name name' named => (inStep_expect _ _).bindEq fun _ =>
      nests.expression.bind fun _ _ same => (inStep_expect _ _).bindEq fun _ => inStep_pure ?_
    have typed : type.unplaced = type'.unplaced := typed
    have named : name.unplaced = name'.unplaced := named
    simp only [Alike, Stmt.unplaced, typed, named, same.tree]
  exact .ite _ ((inStep_pure rfl).bindEq declared) ((inStep_accept _).bindEq declared)

theorem inStep_evaluation (nests : A.Nests nested) :
    A.InStep (Alike Stmt.unplaced) (evaluation nested) (evaluation nested) :=
  (inStep_expression nests).bind fun _ _ same => (inStep_expect _ _).bindEq fun _ =>
    inStep_pure (congrArg (Stmt.eval nowhere) same.tree)

theorem inStep_statement (nests : A.Nests nested) :
    A.InStep (Alike Stmt.unplaced) (statement nested) (statement nested) := by
  refine inStep_peek.bindEq fun next => ?_
  split
  · exact inStep_block nests
  · exact inStep_choice nests
  · exact inStep_loop nests
  · refine (inStep_declaration nests).attempt.bind fun _ _ result => ?_
    cases result with
    | some same => exact inStep_pure same
    | none => exact inStep_evaluation nests

theorem nests_forTokens (A : Alignment) (n : Nat) : A.Nests (.forTokens n) := by
  induction n with
  | zero => exact ⟨inStep_mismatch _, inStep_mismatch _, inStep_mismatch _, inStep_mismatch _⟩
  | succ n ih => exact ⟨inStep_statement ih, inStep_expression ih, inStep_conditional ih, inStep_prefixed ih⟩

theorem InStep.whole {α : Type} {values : α → α → Prop} {p q : Parser α} (inStep : A.InStep values p q) :
    A.InStep values (whole p) (whole q) :=
  inStep.bind fun _ _ same => inStep_expectEnd.bindEq fun _ => inStep_pure same

theorem Failures.bodyFailure {first first' second second' : Failure} {met met' : Option Failure}
    (asStatement : A.Failures first first') (asExpression : A.Failures second second')
    (constructs : Option.Rel A.Failures met met') :
    A.Failures (bodyFailure first second met) (bodyFailure first' second' met') := by
  have furthest := asStatement.further asExpression
  unfold Parser.bodyFailure
  cases constructs with
  | none => exact furthest
  | some same =>
    simp only [A.ordered same.2 furthest.2]
    split
    · exact furthest
    · exact same

inductive SameResult (A : Alignment) : Except Failure Body → Except Failure Body → Prop where
  | ok {b b' : Body} (same : b.unplaced = b'.unplaced) : SameResult A (.ok b) (.ok b')
  | error {failure other : Failure} (same : A.Failures failure other) : SameResult A (.error failure) (.error other)

theorem Tokens.body (h : A.Tokens ts us) : A.SameResult (body A.first ts) (body A.second us) := by
  have nests := nests_forTokens A us.length
  have asStatement : A.Replies _ _ _ := nests.statement.whole h
  have asExpression : A.Replies _ _ _ := nests.expression.whole h
  have empty : ts.isEmpty = us.isEmpty := by cases h <;> rfl
  unfold Parser.body
  rw [h.length_eq, empty]
  dsimp only
  generalize Parser.whole (Nested.forTokens us.length).statement A.first ts = reply at *
  generalize Parser.whole (Nested.forTokens us.length).statement A.second us = reply' at *
  generalize Parser.whole (Nested.forTokens us.length).expression A.first ts = other at *
  generalize Parser.whole (Nested.forTokens us.length).expression A.second us = other' at *
  obtain ⟨outcome, met⟩ := reply
  obtain ⟨outcome', met'⟩ := reply'
  obtain ⟨result, more⟩ := other
  obtain ⟨result', more'⟩ := other'
  obtain ⟨first, met⟩ := asStatement
  obtain ⟨second, more⟩ := asExpression
  dsimp only at first met second more ⊢
  split
  · exact .ok rfl
  · cases first with
    | ok same => exact .ok (congrArg (Body.statement nowhere) same)
    | error first =>
      dsimp only
      rw [first.isUnsupported]
      split
      · exact .error first
      · cases second with
        | ok same => exact .ok (congrArg (Body.expression nowhere) same.tree)
        | error second =>
          dsimp only
          rw [second.isUnsupported]
          split
          · exact .error second
          · exact .error (first.bodyFailure second (furthestMet met more))

end Alignment

end MacroLift
