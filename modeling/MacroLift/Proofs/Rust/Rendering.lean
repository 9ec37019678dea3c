import MacroLift.Proofs.Grammar.Body
import MacroLift.Proofs.Tree.Unplaced
import MacroLift.Rust.Item

namespace MacroLift

variable {naming : Naming}

@[simp] theorem Naming.ident_unplaced (ident : Ident) : naming.ident ident.unplaced = naming.ident ident := by
  cases ident <;> rfl

@[simp] theorem Naming.value_unplaced (ident : Ident) : naming.value ident.unplaced = naming.value ident := by
  cases ident <;> rfl

@[simp] theorem Naming.type_unplaced (type : CType) : naming.type type.unplaced = naming.type type := by
  induction type with
  | named _ name => cases name <;> rfl
  | pointer _ pointee isMutable ih => simp only [CType.unplaced, Naming.type, ih]

@[simp] theorem CType.isVoid_unplaced (type : CType) : type.unplaced.isVoid = type.isVoid := by
  cases type with
  | named _ name => cases name <;> rfl
  | pointer => rfl

@[simp] theorem CType.baseName_unplaced (type : CType) : type.unplaced.baseName = type.baseName.unplaced := by
  induction type with
  | named => rfl
  | pointer _ _ _ ih => exact ih

@[simp] theorem Ident.pastedUses_unplaced (ident : Ident) : ident.unplaced.pastedUses = ident.pastedUses := by
  cases ident <;> rfl

@[simp] theorem Ident.nameUses_unplaced (ident : Ident) : ident.unplaced.nameUses = ident.nameUses := by
  cases ident <;> rfl

@[simp] theorem Ident.valueUses_unplaced (ident : Ident) : ident.unplaced.valueUses = ident.valueUses := by
  cases ident <;> rfl

@[simp] theorem Ident.calleeUses_unplaced (ident : Ident) : ident.unplaced.calleeUses = ident.calleeUses := by
  cases ident <;> rfl

@[simp] theorem Expr.isConvertible_unplaced (e : Expr) : e.unplaced.isConvertible = e.isConvertible := by
  cases e with
  | name _ ident => cases ident <;> rfl
  | _ => rfl

mutual

@[simp] theorem Expr.render_unplaced : (e : Expr) → e.unplaced.render naming = e.render naming
  | .name _ _ | .number _ _ | .string _ _ | .character _ _ | .placeholder _ _ | .stringify _ _
  | .assembly _ _ _ _ _ _ => by
    unfold Expr.unplaced Expr.render
    simp
  | .call _ _ arguments => by
    unfold Expr.unplaced Expr.render
    simp [renderArguments_unplaced arguments]
  | .concat _ parts => by
    unfold Expr.unplaced Expr.render
    simp [renderExprs_unplaced parts]
  | .cast _ _ operand | .field _ operand _ _ | .unary _ _ _ operand | .addressOf _ operand => by
    unfold Expr.unplaced Expr.render
    simp [operand.render_unplaced]
  | .binary _ _ left right | .assign _ _ left right => by
    unfold Expr.unplaced Expr.render
    simp [left.render_unplaced, right.render_unplaced]
  | .ternary _ condition whenTrue whenFalse => by
    unfold Expr.unplaced Expr.render
    simp [condition.render_unplaced, whenTrue.render_unplaced, whenFalse.render_unplaced]

theorem renderExprs_unplaced : (es : List Expr) → renderExprs naming (unplacedExprs es) = renderExprs naming es
  | [] => rfl
  | e :: es => by simp only [unplacedExprs, renderExprs, e.render_unplaced, renderExprs_unplaced es]

theorem renderArguments_unplaced :
    (es : List Expr) → renderArguments naming (unplacedExprs es) = renderArguments naming es
  | [] => rfl
  | e :: es => by
    simp only [unplacedExprs, renderArguments, Expr.isConvertible_unplaced, e.render_unplaced,
      renderArguments_unplaced es]

end

mutual

@[simp] theorem Expr.uses_unplaced (role : Role) : (e : Expr) → e.unplaced.uses role = e.uses role
  | .name _ _ => by cases role <;> simp [Expr.unplaced, Expr.uses]
  | .number _ _ | .string _ _ | .character _ _ | .stringify _ _ | .placeholder _ _ => by
    simp [Expr.unplaced, Expr.uses]
  | .call _ _ arguments => by simp [Expr.unplaced, Expr.uses, usesOfExprs_unplaced .argument arguments]
  | .concat _ parts => by simp [Expr.unplaced, Expr.uses, usesOfExprs_unplaced .value parts]
  | .cast _ _ operand => by simp [Expr.unplaced, Expr.uses, operand.uses_unplaced role]
  | .field _ operand _ _ | .unary _ _ _ operand | .addressOf _ operand => by
    simp [Expr.unplaced, Expr.uses, operand.uses_unplaced .value]
  | .binary _ _ left right | .assign _ _ left right => by
    simp [Expr.unplaced, Expr.uses, left.uses_unplaced .value, right.uses_unplaced .value]
  | .ternary _ condition whenTrue whenFalse => by
    simp [Expr.unplaced, Expr.uses, condition.uses_unplaced .value, whenTrue.uses_unplaced .value,
      whenFalse.uses_unplaced .value]
  | .assembly _ _ outputs inputs _ _ => by
    simp [Expr.unplaced, Expr.uses, usesOfOperands_unplaced outputs, usesOfOperands_unplaced inputs]

theorem usesOfExprs_unplaced (role : Role) :
    (es : List Expr) → usesOfExprs role (unplacedExprs es) = usesOfExprs role es
  | [] => rfl
  | e :: es => by simp [unplacedExprs, usesOfExprs, e.uses_unplaced role, usesOfExprs_unplaced role es]

theorem usesOfOperands_unplaced :
    (os : List AsmOperand) → usesOfOperands (unplacedOperands os) = usesOfOperands os
  | [] => rfl
  | .mk _ _ _ value :: os => by
    simp [unplacedOperands, AsmOperand.unplaced, usesOfOperands, AsmOperand.uses, value.uses_unplaced .value,
      usesOfOperands_unplaced os]

end

mutual

@[simp] theorem Stmt.render_unplaced : (s : Stmt) → s.unplaced.render naming = s.render naming
  | .eval _ _ | .declare _ _ _ _ _ | .placeholder _ _ => by simp [Stmt.unplaced, Stmt.render]
  | .block _ body | .loop _ body _ => by simp [Stmt.unplaced, Stmt.render, renderStmts_unplaced body]
  | .choice _ _ whenTrue whenFalse => by
    cases whenFalse with
    | nil => simp [Stmt.unplaced, unplacedStmts, Stmt.render, renderStmts_unplaced whenTrue]
    | cons s ss =>
      have whenFalse : renderStmts naming (s.unplaced :: unplacedStmts ss) = _ := renderStmts_unplaced (s :: ss)
      simp [Stmt.unplaced, unplacedStmts, Stmt.render, renderStmts_unplaced whenTrue, whenFalse]

theorem renderStmts_unplaced : (ss : List Stmt) → renderStmts naming (unplacedStmts ss) = renderStmts naming ss
  | [] => rfl
  | s :: ss => by simp [unplacedStmts, renderStmts, s.render_unplaced, renderStmts_unplaced ss]

end

mutual

@[simp] theorem Stmt.uses_unplaced : (s : Stmt) → s.unplaced.uses = s.uses
  | .eval _ _ | .declare _ _ _ _ _ | .placeholder _ _ => by simp [Stmt.unplaced, Stmt.uses]
  | .block _ body | .loop _ body _ => by simp [Stmt.unplaced, Stmt.uses, usesOfStmts_unplaced body]
  | .choice _ _ whenTrue whenFalse => by
    simp [Stmt.unplaced, Stmt.uses, usesOfStmts_unplaced whenTrue, usesOfStmts_unplaced whenFalse]

theorem usesOfStmts_unplaced : (ss : List Stmt) → usesOfStmts (unplacedStmts ss) = usesOfStmts ss
  | [] => rfl
  | s :: ss => by simp [unplacedStmts, usesOfStmts, s.uses_unplaced, usesOfStmts_unplaced ss]

end

@[simp] theorem Body.render_unplaced (b : Body) : b.unplaced.render naming = b.render naming := by
  cases b with
  | statement _ s =>
    cases s with
    | block _ body => exact renderStmts_unplaced body
    | _ => exact Stmt.render_unplaced _
  | expression _ e | both _ _ e => simp [Body.unplaced, Body.render]

@[simp] theorem Body.uses_unplaced (b : Body) : b.unplaced.uses = b.uses := by
  cases b <;> simp [Body.unplaced, Body.uses]

variable {b b' : Body}

theorem Body.render_of_unplaced (same : b.unplaced = b'.unplaced) : b.render naming = b'.render naming := by
  rw [← b.render_unplaced, same, b'.render_unplaced]

theorem Body.uses_of_unplaced (same : b.unplaced = b'.unplaced) : b.uses = b'.uses := by
  rw [← b.uses_unplaced, same, b'.uses_unplaced]

theorem item_of_unplaced (tables : Rust.Tables) (name : String) (parameters : List String)
    (same : b.unplaced = b'.unplaced) :
    Rust.item tables (.of name parameters b) = Rust.item tables (.of name parameters b') := by
  have table : Analysis.table parameters b = Analysis.table parameters b' := by
    rw [Analysis.table, Body.uses_of_unplaced same, ← Analysis.table]
  have lines (naming : Naming) : b.render naming = b'.render naming := Body.render_of_unplaced same
  unfold Analysis.of
  rw [table]
  unfold Rust.item Rust.patternLines Rust.functionLines
  dsimp only
  rw [lines, lines]
  rfl

theorem placeholderOfExprs?_append (es fs : List Expr) :
    placeholderOfExprs? (es ++ fs) = (placeholderOfExprs? es).or (placeholderOfExprs? fs) := by
  induction es with
  | nil => rfl
  | cons e es ih => simp only [List.cons_append, placeholderOfExprs?, ih, Option.or_assoc]

theorem openOfStmts?_append (ss rs : List Stmt) :
    openOfStmts? (ss ++ rs) = (openOfStmts? ss).or (openOfStmts? rs) := by
  induction ss with
  | nil => rfl
  | cons s ss ih => simp only [List.cons_append, openOfStmts?, ih, Option.or_assoc]

theorem Pieces.placeholder? {ts : List Token} {pieces : List Expr} (h : Pieces ts pieces) :
    placeholderOfExprs? pieces = none := by
  induction h with
  | nil => rfl
  | text _ _ _ ih | mark _ _ _ _ ih => simpa [placeholderOfExprs?, Expr.placeholder?] using ih

/-- A tree in which nothing is left open. Operands of assembly are not rendered. -/
def Phrase.IsComplete : (phrase : Phrase) → phrase.Tree → Prop
  | .expr _, e | .chain, e => e.placeholder? = none
  | .arguments, es => placeholderOfExprs? es = none
  | .operand, _ | .operands, _ | .sections, _ => True
  | .statement, s => s.open? = none
  | .branch, ss | .statements, ss => openOfStmts? ss = none

theorem Derives.isComplete {phrase : Phrase} {ts : List Token} {tree : phrase.Tree} (h : Derives phrase ts tree) :
    phrase.IsComplete tree := by
  induction h with
  | piece pieces | pieces pieces =>
    have whole := pieces.placeholder?
    simp_all [Phrase.IsComplete, Expr.placeholder?, placeholderOfExprs?]
  | _ =>
    simp_all [Phrase.IsComplete, Expr.placeholder?, placeholderOfExprs?, placeholderOfExprs?_append,
      Stmt.open?, openOfStmts?, openOfStmts?_append, Expr.open?]

theorem DerivesBody.open? {setting : Setting} {ts : List Token} (h : DerivesBody setting ts b) : b.open? = none := by
  cases h with
  | empty => rfl
  | statement _ inner => exact inner.isComplete
  | expression _ inner =>
    have complete : Expr.placeholder? _ = none := inner.isComplete
    rw [Body.open?, Expr.open?, complete]
    rfl

end MacroLift
