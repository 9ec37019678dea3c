import MacroLift.Usage.Table

namespace MacroLift

/-- Whether an expression is an argument of a call, possibly under casts, or a value of another kind. -/
inductive Role where
  | value
  | argument
  deriving Repr, DecidableEq

def Ident.pastedUses : Ident → List Use
  | .simple _ _ => []
  | .pasted _ fragments => fragments.map .asName

def Ident.nameUses : Ident → List Use
  | .simple _ name => [.asName name]
  | .pasted _ fragments => fragments.map .asName

def Ident.valueUses : Ident → List Use
  | .simple _ name => [.asValue name]
  | .pasted _ fragments => fragments.map .asName

def Ident.calleeUses : Ident → List Use
  | .simple _ name => [.asCallee name]
  | .pasted _ fragments => fragments.map .asName

def CType.baseName : CType → Ident
  | .named _ name _ => name
  | .pointer _ pointee _ => pointee.baseName

mutual

def Expr.uses (role : Role) : Expr → List Use
  | .name _ ident =>
    match role with
    | .value => ident.valueUses
    | .argument => ident.pastedUses
  | .call _ callee arguments => callee.calleeUses ++ usesOfExprs .argument arguments
  | .cast _ target operand => target.baseName.nameUses ++ operand.uses role
  | .number _ _ | .string _ _ | .character _ _ | .placeholder _ _ => []
  | .field _ operand name _ => operand.uses .value ++ name.pastedUses
  | .stringify _ name => name.nameUses
  | .concat _ parts => usesOfExprs .value parts
  | .unary _ _ _ operand | .addressOf _ operand => operand.uses .value
  | .binary _ _ left right => left.uses .value ++ right.uses .value
  | .assign _ _ target value => target.uses .value ++ value.uses .value
  | .ternary _ condition whenTrue whenFalse =>
    condition.uses .value ++ whenTrue.uses .value ++ whenFalse.uses .value
  | .assembly _ _ outputs inputs _ _ => usesOfOperands outputs ++ usesOfOperands inputs

def usesOfExprs (role : Role) : List Expr → List Use
  | [] => []
  | e :: es => e.uses role ++ usesOfExprs role es

def AsmOperand.uses : AsmOperand → List Use
  | .mk _ _ _ value => value.uses .value

def usesOfOperands : List AsmOperand → List Use
  | [] => []
  | operand :: operands => operand.uses ++ usesOfOperands operands

end

mutual

def Stmt.uses : Stmt → List Use
  | .eval _ value => value.uses .value
  | .declare _ type name value _ => type.baseName.pastedUses ++ name.pastedUses ++ value.uses .value
  | .block _ body => usesOfStmts body
  | .choice _ condition whenTrue whenFalse =>
    condition.uses .value ++ usesOfStmts whenTrue ++ usesOfStmts whenFalse
  | .loop _ body condition => usesOfStmts body ++ condition.uses .value
  | .placeholder _ _ => []

def usesOfStmts : List Stmt → List Use
  | [] => []
  | s :: ss => s.uses ++ usesOfStmts ss

end

def Body.uses : Body → List Use
  | .statement _ value => value.uses
  | .expression _ value => value.uses .value
  | .both _ asStatement asExpression => asStatement.uses ++ asExpression.uses .value

end MacroLift
