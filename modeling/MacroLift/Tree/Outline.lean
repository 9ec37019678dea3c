import MacroLift.Tree.Basic

namespace MacroLift

def outlineEntry (depth : Nat) (text : String) : String :=
  String.ofList (List.replicate (2 * depth) ' ') ++ text

def Ident.outlineText : Ident → String
  | .simple _ name => name
  | .pasted _ fragments => " ## ".intercalate fragments

def CType.outlineText : CType → String
  | .named _ name isStruct => (if isStruct then "struct " else "") ++ name.outlineText
  | .pointer _ pointee isMutable => pointee.outlineText ++ "*" ++ if isMutable then "" else " const"

def Side.outlineText : Side → String
  | .before => "prefix"
  | .after => "postfix"

structure Outline where
  entries : List String
  level : Nat
  deriving Repr, DecidableEq

namespace Outline

def empty : Outline := ⟨[], 0⟩

def entry (text : String) : StateM Outline Unit :=
  modify fun outline => { outline with entries := outline.entries ++ [outlineEntry outline.level text] }

def indent : StateM Outline Unit :=
  modify fun outline => { outline with level := outline.level + 1 }

def dedent : StateM Outline Unit :=
  modify fun outline => { outline with level := outline.level - 1 }

def heading (text : String) (inner : StateM Outline Unit) : StateM Outline Unit := do
  entry text
  indent
  inner
  dedent

end Outline

open Outline (entry indent dedent heading)

def Ident.visit : Ident → StateM Outline Unit
  | .simple _ _ | .pasted _ _ => pure ()

def CType.visit : CType → StateM Outline Unit
  | .named _ name _ => name.visit
  | .pointer _ pointee _ => pointee.visit

mutual

def Expr.visit : Expr → StateM Outline Unit
  | .name _ ident => entry ("Variable " ++ ident.outlineText)
  | .call _ callee arguments => heading ("Call " ++ callee.outlineText) (visitExprs arguments)
  | .cast _ target operand => heading ("Cast " ++ target.outlineText) operand.visit
  | .number _ value => entry ("Number " ++ value.text)
  | .string _ text => entry ("String " ++ text)
  | .character _ text => entry ("Char " ++ text)
  | .field _ operand name isArrow =>
    heading ("Field " ++ (if isArrow then "->" else ".") ++ name.outlineText) operand.visit
  | .stringify _ name => entry ("Stringify " ++ name.outlineText)
  | .concat _ parts => heading "Concat" (visitExprs parts)
  | .unary _ op side operand =>
    heading ("Unary " ++ op.spelling ++ " (" ++ side.outlineText ++ ")") operand.visit
  | .binary _ op left right =>
    heading ("Binary " ++ op.spelling) do
      left.visit
      right.visit
  | .assign _ op target value =>
    heading ("Assign " ++ op.spelling) do
      target.visit
      value.visit
  | .ternary _ condition whenTrue whenFalse =>
    heading "Ternary" do
      condition.visit
      whenTrue.visit
      whenFalse.visit
  | .addressOf _ operand => heading "AddressOf" operand.visit
  | .assembly _ template _ _ _ _ => entry ("Asm " ++ " ".intercalate template)
  | .placeholder _ _ => pure ()

def visitExprs : List Expr → StateM Outline Unit
  | [] => pure ()
  | e :: es => do
    e.visit
    visitExprs es

end

mutual

/-- Writes the outline of a statement. Conditions and branches have headings, at the level of what stands under the
    statement. -/
def Stmt.visit : Stmt → StateM Outline Unit
  | .eval _ value => heading "ExprStmt" value.visit
  | .declare _ type name value isStatic =>
    heading
      ("Declare " ++ (if isStatic then "static " else "") ++ type.outlineText ++ " " ++ name.outlineText)
      value.visit
  | .block _ body => heading "Block" (visitStmts body)
  | .choice _ condition whenTrue whenFalse => do
    heading "If" condition.visit
    indent
    heading "Then:" (visitStmts whenTrue)
    unless whenFalse.isEmpty do heading "Else:" (visitStmts whenFalse)
    dedent
  | .loop _ body condition => do
    heading "DoWhile" (visitStmts body)
    indent
    heading "While:" condition.visit
    dedent
  | .placeholder _ _ => pure ()

def visitStmts : List Stmt → StateM Outline Unit
  | [] => pure ()
  | s :: ss => do
    s.visit
    visitStmts ss

end

def Body.visit : Body → StateM Outline Unit
  | .statement _ value => heading "Body (statement)" value.visit
  | .expression _ value | .both _ _ value => heading "Body (expression)" value.visit

def Node.visit : Node → StateM Outline Unit
  | .ident value => value.visit
  | .type value => value.visit
  | .expr value => value.visit
  | .stmt value => value.visit
  | .operand (.mk _ _ _ value) => value.visit
  | .signature _ => pure ()
  | .body value => value.visit

def Outline.print (node : Node) : StateM Outline String := do
  set Outline.empty
  node.visit
  return "\n".intercalate (← get).entries

def Node.outlineText (node : Node) : String :=
  ((Outline.print node).run .empty).1

end MacroLift
