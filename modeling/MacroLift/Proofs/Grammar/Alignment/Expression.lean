import MacroLift.Proofs.Grammar.Alignment.Leaf

namespace MacroLift

open MacroLift.Parser

namespace Alignment

variable {A : Alignment} {nested : Nested} {ts us : List Token} {e f : Expr} {p q : Pos}

structure Nests (A : Alignment) (nested : Nested) : Prop where
  statement : A.InStep (Alike Stmt.unplaced) nested.statement nested.statement
  expression : A.InStep A.SameExpr nested.expression nested.expression
  conditional : A.InStep A.SameExpr nested.conditional nested.conditional
  operand : A.InStep A.SameExpr nested.operand nested.operand

theorem stringPieces_string {setting : Setting} (text : String) (rest : List Token) :
    stringPieces setting (⟨.string text, p⟩ :: ts) ≠ .ok ([], rest) := by
  rw [stringPieces]
  cases stringPieces setting ts <;> simp [Except.map]

theorem stringPieces_hash {setting : Setting} (rest : List Token) :
    stringPieces setting (⟨.punct .hash, p⟩ :: ts) ≠ .ok ([], rest) := by
  rw [stringPieces.eq_def]
  split
  case h_1 same => cases same
  case h_2 _ _ _ _ rest' same => cases stringPieces setting rest' <;> simp [Except.map]
  case h_3 => simp
  case h_4 _ noMark => exact absurd rfl (noMark _ _)

theorem inStep_primary (nests : A.Nests nested) : A.InStep A.SameExpr (primary nested) (primary nested) := by
  unfold primary
  refine inStep_behindPeek fun next ts us tokens opened => ?_
  have spelled : ∀ {l}, ts.head?.map Token.lexeme = some l → ∃ pos rest, ts = ⟨l, pos⟩ :: rest := by
    intro l opened
    cases ts with
    | nil => cases opened
    | cons t rest => cases opened; exact ⟨t.pos, rest, rfl⟩
  split
  · obtain ⟨pos, rest, rfl⟩ := spelled opened
    exact tokens.strings (stringPieces_string _)
  · obtain ⟨pos, rest, rfl⟩ := spelled opened
    exact tokens.strings stringPieces_hash
  · exact inStep_number _ tokens
  · exact (inStep_place.bind fun p q place => inStep_skip.bindEq fun _ => inStep_pure ⟨place, rfl⟩) tokens
  · exact (inStep_place.bind fun p q place => inStep_ident.bind fun _ _ same =>
      inStep_pure ⟨place, congrArg (Expr.name nowhere) same⟩) tokens
  · exact (inStep_skip.bindEq fun _ => nests.expression.bind fun _ _ same => (inStep_expect _ _).bindEq fun _ =>
      inStep_pure same) tokens
  · exact inStep_mismatch _ tokens

theorem InStep.behindCommas {α : Type} {values : α → α → Prop} {lists : List α → List α → Prop}
    {item item' : Parser α} (inStep : A.InStep values item item')
    (snoc : ∀ ⦃as bs a b⦄, lists as bs → values a b → lists (as ++ [a]) (bs ++ [b])) {as bs : List α}
    (same : lists as bs) :
    A.InStep lists
      (Parser.repeated (fun read => do
        if ← accept (.punct .comma) then
          let a ← item
          pure (some (read ++ [a]))
        else pure none) as)
      (Parser.repeated (fun read => do
        if ← accept (.punct .comma) then
          let a ← item'
          pure (some (read ++ [a]))
        else pure none) bs) := by
  refine InStep.repeated (fun as bs same => (inStep_accept _).bindEq fun comma => ?_) same
  exact .ite _ (inStep.bind fun _ _ more => inStep_pure (.some (snoc same more))) (inStep_pure .none)

theorem alike_snocExpr {es fs : List Expr} (same : Alike unplacedExprs es fs) (more : A.SameExpr e f) :
    Alike unplacedExprs (es ++ [e]) (fs ++ [f]) := by
  have same : unplacedExprs es = unplacedExprs fs := same
  simp only [Alike, unplacedExprs_append, unplacedExprs, same, more.tree]

theorem alike_snocOperand {os ps : List AsmOperand} {o o' : AsmOperand} (same : Alike unplacedOperands os ps)
    (more : Alike AsmOperand.unplaced o o') : Alike unplacedOperands (os ++ [o]) (ps ++ [o']) := by
  have same : unplacedOperands os = unplacedOperands ps := same
  have more : o.unplaced = o'.unplaced := more
  simp only [Alike, unplacedOperands_append, unplacedOperands, same, more]

theorem inStep_call (nests : A.Nests nested) (same : A.SameExpr e f) :
    A.InStep A.SameExpr (call nested e) (call nested f) := by
  obtain ⟨place, tree⟩ := same
  cases e with
  | name pos ident =>
    obtain ⟨pos', ident', rfl, named⟩ := Expr.eq_name_of_unplaced tree.symm
    have called {es fs : List Expr} (arguments : unplacedExprs es = unplacedExprs fs) :
        A.SameExpr (.call pos ident es) (.call pos' ident' fs) :=
      ⟨place, by simp only [Expr.unplaced, named, arguments]⟩
    refine (inStep_accept _).bindEq fun closed => .ite _ (inStep_pure (called rfl)) ?_
    refine nests.expression.bind fun e f first => ?_
    have single : Alike unplacedExprs ([] ++ [e]) ([] ++ [f]) := alike_snocExpr rfl first
    have arguments : A.InStep (Alike unplacedExprs) (moreArguments nested [e]) (moreArguments nested [f]) :=
      nests.expression.behindCommas (fun _ _ _ _ => alike_snocExpr) single
    exact arguments.bind fun _ _ same => (inStep_expect _ _).bindEq fun _ => inStep_pure (called same)
  | _ =>
    cases f with
    | name => cases tree
    | _ => exact inStep_failAt _ place

theorem SameExpr.field (same : A.SameExpr e f) {name name' : Ident} (named : Alike Ident.unplaced name name')
    (isArrow : Bool) : A.SameExpr (.field e.pos e name isArrow) (.field f.pos f name' isArrow) := by
  have named : name.unplaced = name'.unplaced := named
  exact ⟨same.place, by simp only [Expr.unplaced, same.tree, named]⟩

theorem inStep_chainLink (nests : A.Nests nested) (same : A.SameExpr e f) :
    A.InStep (Option.Rel A.SameExpr) (chainLink nested e) (chainLink nested f) := by
  refine inStep_peek.bindEq fun next => ?_
  split
  · exact inStep_skip.bindEq fun _ => (inStep_call nests same).bind fun _ _ result => inStep_pure (.some result)
  · exact inStep_skip.bindEq fun _ => inStep_ident.bind fun _ _ name => inStep_pure (.some (same.field name _))
  · exact inStep_skip.bindEq fun _ => inStep_ident.bind fun _ _ name => inStep_pure (.some (same.field name _))
  · exact inStep_pure .none

theorem inStep_chain (nests : A.Nests nested) (same : A.SameExpr e f) :
    A.InStep A.SameExpr (chain nested e) (chain nested f) := by
  refine (InStep.repeated (fun _ _ => inStep_chainLink nests) same).bind fun e f linked => ?_
  refine (inStep_acceptAs _).bindEq fun op => ?_
  cases op with
  | some op => exact inStep_pure ⟨linked.place, congrArg (Expr.unary nowhere op .after) linked.tree⟩
  | none => exact inStep_pure linked

theorem inStep_asmName : A.InStep Eq asmName asmName := by
  refine (inStep_accept _).bindEq fun opened => .ite _ ?_ (inStep_pure rfl)
  exact (inStep_expectAs _ _).bindEq fun name => (inStep_expect _ _).bindEq fun _ => inStep_pure rfl

theorem inStep_asmOperand (nests : A.Nests nested) :
    A.InStep (Alike AsmOperand.unplaced) (asmOperand nested) (asmOperand nested) :=
  inStep_place.bind fun _ _ _ => inStep_asmName.bindEq fun name => (inStep_expectAs _ _).bindEq fun constraint =>
    (inStep_expect _ _).bindEq fun _ => nests.expression.bind fun _ _ value => (inStep_expect _ _).bindEq fun _ =>
      inStep_pure (congrArg (AsmOperand.mk nowhere name constraint) value.tree)

theorem inStep_asmOperands (nests : A.Nests nested) :
    A.InStep (Alike unplacedOperands) (asmOperands nested) (asmOperands nested) := by
  have operand : A.InStep (Alike AsmOperand.unplaced) (asmOperand nested) (asmOperand nested) :=
    inStep_asmOperand nests
  have more {o p : AsmOperand} (first : Alike AsmOperand.unplaced o p) :=
    operand.behindCommas (fun _ _ _ _ => alike_snocOperand)
      (alike_snocOperand rfl first : Alike unplacedOperands ([] ++ [o]) ([] ++ [p]))
  refine inStep_peek.bindEq fun next => ?_
  split
  · exact operand.bind fun _ _ => more
  · exact operand.bind fun _ _ => more
  · exact inStep_pure rfl

def SameSections (sections other : List AsmOperand × List AsmOperand × List String) : Prop :=
  unplacedOperands sections.1 = unplacedOperands other.1 ∧
    unplacedOperands sections.2.1 = unplacedOperands other.2.1 ∧ sections.2.2 = other.2.2

theorem inStep_asmSections (nests : A.Nests nested) :
    A.InStep SameSections (asmSections nested) (asmSections nested) := by
  refine (inStep_accept _).bindEq fun _ => .ite _ ?_ (inStep_pure ⟨rfl, rfl, rfl⟩)
  refine (inStep_asmOperands nests).bind fun _ _ outputs => ?_
  refine (inStep_accept _).bindEq fun _ => .ite _ ?_ (inStep_pure ⟨outputs, rfl, rfl⟩)
  refine (inStep_asmOperands nests).bind fun _ _ inputs => ?_
  refine (inStep_accept _).bindEq fun _ => .ite _ ?_ (inStep_pure ⟨outputs, inputs, rfl⟩)
  exact inStep_clobbers.bindEq fun _ => inStep_pure ⟨outputs, inputs, rfl⟩

theorem inStep_assembly (nests : A.Nests nested) (place : A.places p q) :
    A.InStep A.SameExpr (assembly nested p) (assembly nested q) := by
  have template : A.InStep Eq (ofTokens templateLines) (ofTokens templateLines) :=
    inStep_ofTokens fun _ _ tokens => tokens.templateLines
  refine (inStep_accept _).bindEq fun isVolatile => (inStep_expect _ _).bindEq fun _ =>
    (inStep_expectAs _ _).bindEq fun first => template.bindEq fun more =>
    (inStep_asmSections nests).bind fun sections sections' same => (inStep_expect _ _).bindEq fun _ =>
    inStep_pure ⟨place, ?_⟩
  obtain ⟨outputs, inputs, clobbers⟩ := same
  simp only [Expr.unplaced, outputs, inputs, clobbers]

theorem inStep_cast (nests : A.Nests nested) : A.InStep A.SameExpr (cast nested) (cast nested) := by
  unfold Parser.cast
  refine inStep_place.bind fun p q place => (inStep_expect _ _).bindEq fun _ =>
    inStep_ctype.bind fun target target' type => (inStep_expect _ _).bindEq fun _ => inStep_peek.bindEq fun next => ?_
  have type : target.unplaced = target'.unplaced := type
  have isParameter : A.InStep Eq
      (fun setting ts => ⟨.ok ((bareName? target).any setting.parameters.contains, ts), none⟩)
      (fun setting ts => ⟨.ok ((bareName? target').any setting.parameters.contains, ts), none⟩) := by
    refine fun ts us tokens => ⟨.ok ?_ tokens, .none⟩
    rw [← bareName?_unplaced target, type, bareName?_unplaced, A.parameters]
  have operand : A.InStep A.SameExpr
      (do let operand ← nested.operand; pure (.cast p target operand))
      (do let operand ← nested.operand; pure (.cast q target' operand)) :=
    nests.operand.bind fun _ _ same => inStep_pure ⟨place, by simp only [Expr.unplaced, type, same.tree]⟩
  exact isParameter.bindEq fun _ => .ite _ ((inStep_failAt _ place).bindEq fun _ => operand) operand

theorem inStep_postfixed (nests : A.Nests nested) :
    A.InStep A.SameExpr (postfixed nested) (postfixed nested) := by
  refine (inStep_primary nests).bind fun e f same => ?_
  have chained := inStep_chain nests same
  rw [← isClosed_unplaced e, same.tree, isClosed_unplaced, ← opensAssembly_unplaced e, same.tree,
    opensAssembly_unplaced]
  refine .ite _ (inStep_pure same) (.ite _ ?_ chained)
  refine (inStep_assembly nests same.place).attempt.bind fun _ _ result => ?_
  cases result with
  | some same => exact inStep_pure same
  | none => exact chained

theorem inStep_prefixed (nests : A.Nests nested) : A.InStep A.SameExpr (prefixed nested) (prefixed nested) := by
  refine inStep_peek.bindEq fun next => ?_
  split
  · refine (inStep_cast nests).attempt.bind fun _ _ result => ?_
    cases result with
    | some same => exact inStep_pure same
    | none => exact inStep_postfixed nests
  · exact inStep_place.bind fun _ _ place => inStep_skip.bindEq fun _ => nests.operand.bind fun _ _ same =>
      inStep_pure ⟨place, congrArg (Expr.addressOf nowhere) same.tree⟩
  · split
    · exact inStep_place.bind fun _ _ place => inStep_skip.bindEq fun _ => nests.operand.bind fun _ _ same =>
        inStep_pure ⟨place, congrArg (Expr.unary nowhere _ .before) same.tree⟩
    · exact inStep_postfixed nests

theorem InStep.leftChain {op? : Lexeme → Option BinaryOp} {operand operand' : Parser Expr}
    (inStep : A.InStep A.SameExpr operand operand') :
    A.InStep A.SameExpr (leftChain op? operand) (leftChain op? operand') := by
  refine inStep.bind fun _ _ first => InStep.repeated (fun left left' same => ?_) first
  refine (inStep_acceptAs _).bindEq fun op => ?_
  cases op with
  | none => exact inStep_pure .none
  | some op =>
    exact inStep.bind fun _ _ right =>
      inStep_pure (.some ⟨same.place, by simp only [Expr.unplaced, same.tree, right.tree]⟩)

theorem inStep_equality (nests : A.Nests nested) : A.InStep A.SameExpr (equality nested) (equality nested) :=
  (inStep_prefixed nests).leftChain.leftChain.leftChain.leftChain.leftChain

theorem inStep_conditional (nests : A.Nests nested) :
    A.InStep A.SameExpr (conditional nested) (conditional nested) := by
  refine (inStep_equality nests).bind fun condition condition' test => ?_
  refine (inStep_accept _).bindEq fun _ => .ite _ ?_ (inStep_pure test)
  exact nests.conditional.bind fun _ _ whenTrue => (inStep_expect _ _).bindEq fun _ =>
    nests.conditional.bind fun _ _ whenFalse =>
      inStep_pure ⟨test.place, by simp only [Expr.unplaced, test.tree, whenTrue.tree, whenFalse.tree]⟩

theorem inStep_expression (nests : A.Nests nested) :
    A.InStep A.SameExpr (expression nested) (expression nested) := by
  refine (inStep_conditional nests).bind fun _ _ first => InStep.repeated (fun target target' same => ?_) first
  refine (inStep_acceptAs _).bindEq fun op => ?_
  cases op with
  | none => exact inStep_pure .none
  | some op =>
    exact nests.conditional.bind fun _ _ value =>
      inStep_pure (.some ⟨same.place, by simp only [Expr.unplaced, same.tree, value.tree]⟩)

end Alignment

end MacroLift
