import MacroLift.Proofs.Literal.Written
import MacroLift.Proofs.Tree.Unplaced
import MacroLift.Rust.Expr

namespace MacroLift

open Lexeme (isNameStart isNameChar isNumberChar isSign)

def CType.untagged : CType → CType
  | .named pos name _ => .named pos name false
  | .pointer pos pointee isMutable => .pointer pos pointee.untagged isMutable

mutual

/-- A tree without the word `struct` in its types and the suffixes of its literals. -/
def Expr.unmarked : Expr → Expr
  | .name pos ident => .name pos ident
  | .call pos callee arguments => .call pos callee (unmarkedExprs arguments)
  | .cast pos target operand => .cast pos target.untagged operand.unmarked
  | .number pos value => .number pos { value with marks := .plain }
  | .string pos text => .string pos text
  | .character pos text => .character pos text
  | .field pos operand name isArrow => .field pos operand.unmarked name isArrow
  | .stringify pos name => .stringify pos name
  | .concat pos parts => .concat pos (unmarkedExprs parts)
  | .unary pos op side operand => .unary pos op side operand.unmarked
  | .binary pos op left right => .binary pos op left.unmarked right.unmarked
  | .assign pos op target value => .assign pos op target.unmarked value.unmarked
  | .ternary pos condition whenTrue whenFalse =>
    .ternary pos condition.unmarked whenTrue.unmarked whenFalse.unmarked
  | .addressOf pos operand => .addressOf pos operand.unmarked
  | .assembly pos template outputs inputs clobbers isVolatile =>
    .assembly pos template (unmarkedOperands outputs) (unmarkedOperands inputs) clobbers isVolatile
  | .placeholder pos kind => .placeholder pos kind

def unmarkedExprs : List Expr → List Expr
  | [] => []
  | e :: es => e.unmarked :: unmarkedExprs es

def AsmOperand.unmarked : AsmOperand → AsmOperand
  | .mk pos name constraint value => .mk pos name constraint value.unmarked

def unmarkedOperands : List AsmOperand → List AsmOperand
  | [] => []
  | o :: os => o.unmarked :: unmarkedOperands os

end

def Expr.SameTree (first second : Expr) : Prop :=
  first.unmarked.unplaced = second.unmarked.unplaced

structure IsPlainName (name : String) : Prop where
  start : ∃ c rest, name.toList = c :: rest ∧ isNameStart c = true
  word : ∀ c ∈ name.toList, isNameChar c = true
  notKeyword : Keyword.ofSpelling? name = none

/-- A type with a plain name that Rust has no other name for, under any pointer levels. -/
inductive IsPlainType : CType → Prop where
  | named {pos place : Pos} {name : String} {isStruct : Bool} (isName : IsPlainName name)
      (unlisted : Rust.typeNames.lookup name = none) : IsPlainType (.named pos (.simple place name) isStruct)
  | pointer {pos : Pos} {pointee : CType} {isMutable : Bool} (inner : IsPlainType pointee) :
      IsPlainType (.pointer pos pointee isMutable)

/-- An expression of names that are spelled as they are, numbers, calls, casts, and operators without counting. -/
inductive IsFormula (naming : Naming) : Expr → Prop where
  | name {pos place : Pos} {name : String} (isName : IsPlainName name) (notNull : name ≠ "NULL")
      (unlisted : naming.valueNames.lookup name = none) : IsFormula naming (.name pos (.simple place name))
  | number {pos : Pos} {value : Number} (isLiteral : ∃ text marks, Number.ofText? text = some { value with marks }) :
      IsFormula naming (.number pos value)
  | call {pos place : Pos} {callee : String} {arguments : List Expr} (isName : IsPlainName callee)
      (each : ∀ e ∈ arguments, IsFormula naming e) : IsFormula naming (.call pos (.simple place callee) arguments)
  | cast {pos : Pos} {target : CType} {operand : Expr} (isType : IsPlainType target)
      (inner : IsFormula naming operand) : IsFormula naming (.cast pos target operand)
  | negation {pos : Pos} {operand : Expr} (inner : IsFormula naming operand) :
      IsFormula naming (.unary pos .negate .before operand)
  | addressOf {pos : Pos} {operand : Expr} (inner : IsFormula naming operand) :
      IsFormula naming (.addressOf pos operand)
  | binary {pos : Pos} {op : BinaryOp} {left right : Expr} (first : IsFormula naming left)
      (second : IsFormula naming right) : IsFormula naming (.binary pos op left right)
  | ternary {pos : Pos} {condition whenTrue whenFalse : Expr} (test : IsFormula naming condition)
      (first : IsFormula naming whenTrue) (second : IsFormula naming whenFalse) :
      IsFormula naming (.ternary pos condition whenTrue whenFalse)
  | assign {pos : Pos} {op : AssignOp} {target value : Expr} (first : IsFormula naming target)
      (second : IsFormula naming value) : IsFormula naming (.assign pos op target value)

end MacroLift
