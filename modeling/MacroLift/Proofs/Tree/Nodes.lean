import MacroLift.Tree.Basic

namespace MacroLift

mutual

@[simp] def Expr.nodes : Expr → List Node
  | .name pos ident => [.expr (.name pos ident)]
  | .call pos callee arguments => .expr (.call pos callee arguments) :: nodesOfExprs arguments
  | .cast pos target operand => .expr (.cast pos target operand) :: operand.nodes
  | .number pos value => [.expr (.number pos value)]
  | .string pos text => [.expr (.string pos text)]
  | .character pos text => [.expr (.character pos text)]
  | .field pos operand name isArrow => .expr (.field pos operand name isArrow) :: operand.nodes
  | .stringify pos name => [.expr (.stringify pos name)]
  | .concat pos parts => .expr (.concat pos parts) :: nodesOfExprs parts
  | .unary pos op side operand => .expr (.unary pos op side operand) :: operand.nodes
  | .binary pos op left right => .expr (.binary pos op left right) :: (left.nodes ++ right.nodes)
  | .assign pos op target value => .expr (.assign pos op target value) :: (target.nodes ++ value.nodes)
  | .ternary pos condition whenTrue whenFalse =>
    .expr (.ternary pos condition whenTrue whenFalse) ::
      (condition.nodes ++ whenTrue.nodes ++ whenFalse.nodes)
  | .addressOf pos operand => .expr (.addressOf pos operand) :: operand.nodes
  | .assembly pos template outputs inputs clobbers isVolatile =>
    .expr (.assembly pos template outputs inputs clobbers isVolatile) ::
      (nodesOfOperands outputs ++ nodesOfOperands inputs)
  | .placeholder pos kind => [.expr (.placeholder pos kind)]

@[simp] def nodesOfExprs : List Expr → List Node
  | [] => []
  | e :: es => e.nodes ++ nodesOfExprs es

@[simp] def AsmOperand.nodes : AsmOperand → List Node
  | .mk pos name constraint value => .operand (.mk pos name constraint value) :: value.nodes

@[simp] def nodesOfOperands : List AsmOperand → List Node
  | [] => []
  | operand :: operands => operand.nodes ++ nodesOfOperands operands

end

mutual

@[simp] def Stmt.nodes : Stmt → List Node
  | .eval pos value => .stmt (.eval pos value) :: value.nodes
  | .declare pos type name value isStatic => .stmt (.declare pos type name value isStatic) :: value.nodes
  | .block pos body => .stmt (.block pos body) :: nodesOfStmts body
  | .choice pos condition whenTrue whenFalse =>
    .stmt (.choice pos condition whenTrue whenFalse) ::
      (condition.nodes ++ nodesOfStmts whenTrue ++ nodesOfStmts whenFalse)
  | .loop pos body condition => .stmt (.loop pos body condition) :: (nodesOfStmts body ++ condition.nodes)
  | .placeholder pos kind => [.stmt (.placeholder pos kind)]

@[simp] def nodesOfStmts : List Stmt → List Node
  | [] => []
  | s :: ss => s.nodes ++ nodesOfStmts ss

end

@[simp] def Body.nodes : Body → List Node
  | .statement _ value => value.nodes
  | .expression _ value => value.nodes
  | .both _ asStatement asExpression => asStatement.nodes ++ asExpression.nodes

@[simp] theorem nodesOfExprs_append (es fs : List Expr) :
    nodesOfExprs (es ++ fs) = nodesOfExprs es ++ nodesOfExprs fs := by
  induction es with
  | nil => rfl
  | cons e es ih => simp [nodesOfExprs, ih]

@[simp] theorem nodesOfOperands_append (os ps : List AsmOperand) :
    nodesOfOperands (os ++ ps) = nodesOfOperands os ++ nodesOfOperands ps := by
  induction os with
  | nil => rfl
  | cons o os ih => simp [nodesOfOperands, ih]

@[simp] theorem nodesOfStmts_append (ss rs : List Stmt) :
    nodesOfStmts (ss ++ rs) = nodesOfStmts ss ++ nodesOfStmts rs := by
  induction ss with
  | nil => rfl
  | cons s ss ih => simp [nodesOfStmts, ih]

end MacroLift
