import MacroLift.Literal.Number
import MacroLift.Location

namespace MacroLift

def variadicMark : String := "..."

def variadicName : String := "__VA_ARGS__"

def bindingName (parameter : String) : String :=
  if parameter = variadicMark then variadicName else parameter

inductive Ident where
  | simple (pos : Pos) (name : String)
  | pasted (pos : Pos) (fragments : List String)
  deriving Repr, DecidableEq, Inhabited

inductive CType where
  | named (pos : Pos) (name : Ident) (isStruct : Bool)
  | pointer (pos : Pos) (pointee : CType) (isMutable : Bool)
  deriving Repr, DecidableEq, Inhabited

inductive Placeholder where
  | node
  | expression
  | statement
  deriving Repr, DecidableEq, Inhabited

inductive UnaryOp where
  | plus
  | negate
  | logicalNot
  | bitwiseNot
  | increment
  | decrement
  deriving Repr, DecidableEq, Inhabited

def UnaryOp.spelling : UnaryOp → String
  | .plus => "+"
  | .negate => "-"
  | .logicalNot => "!"
  | .bitwiseNot => "~"
  | .increment => "++"
  | .decrement => "--"

inductive Side where
  | before
  | after
  deriving Repr, DecidableEq, Inhabited

inductive BinaryOp where
  | multiply
  | divide
  | add
  | subtract
  | shiftLeft
  | shiftRight
  | less
  | lessEq
  | greater
  | greaterEq
  | equal
  | notEqual
  deriving Repr, DecidableEq, Inhabited

def BinaryOp.spelling : BinaryOp → String
  | .multiply => "*"
  | .divide => "/"
  | .add => "+"
  | .subtract => "-"
  | .shiftLeft => "<<"
  | .shiftRight => ">>"
  | .less => "<"
  | .lessEq => "<="
  | .greater => ">"
  | .greaterEq => ">="
  | .equal => "=="
  | .notEqual => "!="

inductive AssignOp where
  | plain
  | add
  | subtract
  | multiply
  | divide
  | remainder
  | shiftLeft
  | shiftRight
  | bitAnd
  | bitXor
  | bitOr
  deriving Repr, DecidableEq, Inhabited

def AssignOp.spelling : AssignOp → String
  | .plain => "="
  | .add => "+="
  | .subtract => "-="
  | .multiply => "*="
  | .divide => "/="
  | .remainder => "%="
  | .shiftLeft => "<<="
  | .shiftRight => ">>="
  | .bitAnd => "&="
  | .bitXor => "^="
  | .bitOr => "|="

mutual

inductive Expr where
  | name (pos : Pos) (ident : Ident)
  | call (pos : Pos) (callee : Ident) (arguments : List Expr)
  | cast (pos : Pos) (target : CType) (operand : Expr)
  | number (pos : Pos) (value : Number)
  | string (pos : Pos) (text : String)
  | character (pos : Pos) (text : String)
  | field (pos : Pos) (operand : Expr) (name : Ident) (isArrow : Bool)
  | stringify (pos : Pos) (name : Ident)
  | concat (pos : Pos) (parts : List Expr)
  | unary (pos : Pos) (op : UnaryOp) (side : Side) (operand : Expr)
  | binary (pos : Pos) (op : BinaryOp) (left right : Expr)
  | assign (pos : Pos) (op : AssignOp) (target value : Expr)
  | ternary (pos : Pos) (condition whenTrue whenFalse : Expr)
  | addressOf (pos : Pos) (operand : Expr)
  | assembly (pos : Pos) (template : List String) (outputs inputs : List AsmOperand)
      (clobbers : List String) (isVolatile : Bool)
  | placeholder (pos : Pos) (kind : Placeholder)
  deriving Repr

inductive AsmOperand where
  | mk (pos : Pos) (name : Option String) (constraint : String) (value : Expr)
  deriving Repr

end

instance : Inhabited Expr := ⟨.placeholder default .expression⟩

/-- A statement. The branches of `choice` and the body of `loop` are the statements inside their braces. -/
inductive Stmt where
  | eval (pos : Pos) (value : Expr)
  | declare (pos : Pos) (type : CType) (name : Ident) (value : Expr) (isStatic : Bool)
  | block (pos : Pos) (body : List Stmt)
  | choice (pos : Pos) (condition : Expr) (whenTrue whenFalse : List Stmt)
  | loop (pos : Pos) (body : List Stmt) (condition : Expr)
  | placeholder (pos : Pos) (kind : Placeholder)
  deriving Repr, Inhabited

/-- The place of an expression's first token. An expression in parentheses starts inside them. -/
def Expr.pos : Expr → Pos
  | .name pos _ | .call pos _ _ | .cast pos _ _ | .number pos _ | .string pos _ | .character pos _
  | .field pos _ _ _ | .stringify pos _ | .concat pos _ | .unary pos _ _ _ | .binary pos _ _ _
  | .assign pos _ _ _ | .ternary pos _ _ _ | .addressOf pos _ | .assembly pos _ _ _ _ _
  | .placeholder pos _ => pos

structure Signature where
  pos : Pos
  name : String
  parameters : List String
  deriving Repr, DecidableEq, Inhabited

def Signature.isVariadic (signature : Signature) : Bool :=
  signature.parameters.contains variadicMark

/-- A macro's body: a statement or an expression. A body that holds both counts as the expression, but its
    statement is still a use of the parameters. -/
inductive Body where
  | statement (pos : Pos) (value : Stmt)
  | expression (pos : Pos) (value : Expr)
  | both (pos : Pos) (asStatement : Stmt) (asExpression : Expr)
  deriving Repr, Inhabited

inductive Node where
  | ident (value : Ident)
  | type (value : CType)
  | expr (value : Expr)
  | stmt (value : Stmt)
  | operand (value : AsmOperand)
  | signature (value : Signature)
  | body (value : Body)
  deriving Repr

end MacroLift
