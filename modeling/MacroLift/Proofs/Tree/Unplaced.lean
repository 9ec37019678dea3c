import MacroLift.Tree.Basic

namespace MacroLift

def nowhere : Pos := ⟨0, 0⟩

def Ident.unplaced : Ident → Ident
  | .simple _ name => .simple nowhere name
  | .pasted _ fragments => .pasted nowhere fragments

def CType.unplaced : CType → CType
  | .named _ name isStruct => .named nowhere name.unplaced isStruct
  | .pointer _ pointee isMutable => .pointer nowhere pointee.unplaced isMutable

mutual

def Expr.unplaced : Expr → Expr
  | .name _ ident => .name nowhere ident.unplaced
  | .call _ callee arguments => .call nowhere callee.unplaced (unplacedExprs arguments)
  | .cast _ target operand => .cast nowhere target.unplaced operand.unplaced
  | .number _ value => .number nowhere value
  | .string _ text => .string nowhere text
  | .character _ text => .character nowhere text
  | .field _ operand name isArrow => .field nowhere operand.unplaced name.unplaced isArrow
  | .stringify _ name => .stringify nowhere name.unplaced
  | .concat _ parts => .concat nowhere (unplacedExprs parts)
  | .unary _ op side operand => .unary nowhere op side operand.unplaced
  | .binary _ op left right => .binary nowhere op left.unplaced right.unplaced
  | .assign _ op target value => .assign nowhere op target.unplaced value.unplaced
  | .ternary _ condition whenTrue whenFalse =>
    .ternary nowhere condition.unplaced whenTrue.unplaced whenFalse.unplaced
  | .addressOf _ operand => .addressOf nowhere operand.unplaced
  | .assembly _ template outputs inputs clobbers isVolatile =>
    .assembly nowhere template (unplacedOperands outputs) (unplacedOperands inputs) clobbers isVolatile
  | .placeholder _ kind => .placeholder nowhere kind

def unplacedExprs : List Expr → List Expr
  | [] => []
  | e :: es => e.unplaced :: unplacedExprs es

def AsmOperand.unplaced : AsmOperand → AsmOperand
  | .mk _ name constraint value => .mk nowhere name constraint value.unplaced

def unplacedOperands : List AsmOperand → List AsmOperand
  | [] => []
  | o :: os => o.unplaced :: unplacedOperands os

end

mutual

def Stmt.unplaced : Stmt → Stmt
  | .eval _ value => .eval nowhere value.unplaced
  | .declare _ type name value isStatic => .declare nowhere type.unplaced name.unplaced value.unplaced isStatic
  | .block _ body => .block nowhere (unplacedStmts body)
  | .choice _ condition whenTrue whenFalse =>
    .choice nowhere condition.unplaced (unplacedStmts whenTrue) (unplacedStmts whenFalse)
  | .loop _ body condition => .loop nowhere (unplacedStmts body) condition.unplaced
  | .placeholder _ kind => .placeholder nowhere kind

def unplacedStmts : List Stmt → List Stmt
  | [] => []
  | s :: ss => s.unplaced :: unplacedStmts ss

end

def Body.unplaced : Body → Body
  | .statement _ value => .statement nowhere value.unplaced
  | .expression _ value => .expression nowhere value.unplaced
  | .both _ asStatement asExpression => .both nowhere asStatement.unplaced asExpression.unplaced

@[simp] theorem unplacedExprs_append (es fs : List Expr) :
    unplacedExprs (es ++ fs) = unplacedExprs es ++ unplacedExprs fs := by
  induction es with
  | nil => rfl
  | cons e es ih => simp [unplacedExprs, ih]

@[simp] theorem unplacedOperands_append (os ps : List AsmOperand) :
    unplacedOperands (os ++ ps) = unplacedOperands os ++ unplacedOperands ps := by
  induction os with
  | nil => rfl
  | cons o os ih => simp [unplacedOperands, ih]

@[simp] theorem unplacedStmts_append (ss rs : List Stmt) :
    unplacedStmts (ss ++ rs) = unplacedStmts ss ++ unplacedStmts rs := by
  induction ss with
  | nil => rfl
  | cons s ss ih => simp [unplacedStmts, ih]

@[simp] theorem length_unplacedExprs (es : List Expr) : (unplacedExprs es).length = es.length := by
  induction es with
  | nil => rfl
  | cons e es ih => simp [unplacedExprs, ih]

@[simp] theorem Ident.unplaced_unplaced (ident : Ident) : ident.unplaced.unplaced = ident.unplaced := by
  cases ident <;> rfl

@[simp] theorem CType.unplaced_unplaced (type : CType) : type.unplaced.unplaced = type.unplaced := by
  induction type with
  | named _ name _ => simp [CType.unplaced]
  | pointer _ _ _ ih => simp [CType.unplaced, ih]

mutual

@[simp] theorem Expr.unplaced_unplaced : (e : Expr) → e.unplaced.unplaced = e.unplaced
  | .name _ _ | .number _ _ | .string _ _ | .character _ _ | .stringify _ _ | .placeholder _ _ => by
    simp [Expr.unplaced]
  | .call _ _ arguments | .concat _ arguments => by simp [Expr.unplaced, unplacedExprs_unplacedExprs arguments]
  | .cast _ _ operand | .field _ operand _ _ | .unary _ _ _ operand | .addressOf _ operand => by
    simp [Expr.unplaced, operand.unplaced_unplaced]
  | .binary _ _ left right | .assign _ _ left right => by
    simp [Expr.unplaced, left.unplaced_unplaced, right.unplaced_unplaced]
  | .ternary _ condition whenTrue whenFalse => by
    simp [Expr.unplaced, condition.unplaced_unplaced, whenTrue.unplaced_unplaced, whenFalse.unplaced_unplaced]
  | .assembly _ _ outputs inputs _ _ => by
    simp [Expr.unplaced, unplacedOperands_unplacedOperands outputs, unplacedOperands_unplacedOperands inputs]

theorem unplacedExprs_unplacedExprs : (es : List Expr) → unplacedExprs (unplacedExprs es) = unplacedExprs es
  | [] => rfl
  | e :: es => by simp [unplacedExprs, e.unplaced_unplaced, unplacedExprs_unplacedExprs es]

theorem unplacedOperands_unplacedOperands :
    (os : List AsmOperand) → unplacedOperands (unplacedOperands os) = unplacedOperands os
  | [] => rfl
  | .mk _ _ _ value :: os => by
    simp [unplacedOperands, AsmOperand.unplaced, value.unplaced_unplaced, unplacedOperands_unplacedOperands os]

end

mutual

@[simp] theorem Stmt.unplaced_unplaced : (s : Stmt) → s.unplaced.unplaced = s.unplaced
  | .eval _ _ | .declare _ _ _ _ _ | .placeholder _ _ => by simp [Stmt.unplaced]
  | .block _ body => by simp [Stmt.unplaced, unplacedStmts_unplacedStmts body]
  | .choice _ _ whenTrue whenFalse => by
    simp [Stmt.unplaced, unplacedStmts_unplacedStmts whenTrue, unplacedStmts_unplacedStmts whenFalse]
  | .loop _ body _ => by simp [Stmt.unplaced, unplacedStmts_unplacedStmts body]

theorem unplacedStmts_unplacedStmts : (ss : List Stmt) → unplacedStmts (unplacedStmts ss) = unplacedStmts ss
  | [] => rfl
  | s :: ss => by simp [unplacedStmts, s.unplaced_unplaced, unplacedStmts_unplacedStmts ss]

end

end MacroLift
