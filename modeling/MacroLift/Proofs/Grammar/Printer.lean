import MacroLift.Grammar.Expression
import MacroLift.Proofs.Grammar.Phrase
import MacroLift.Proofs.Tree.Unplaced

namespace MacroLift

open MacroLift.Parser (bareName? isClosed opensAssembly)

def enclosedIf (needed : Bool) (text : List Lexeme) : List Lexeme :=
  if needed then .punct .leftParen :: text ++ [.punct .rightParen] else text

def Expr.rank : Expr → Nat
  | .assign _ _ _ _ => 1
  | .ternary _ _ _ _ => 2
  | .binary _ op _ _ => op.rank
  | .cast _ _ _ | .addressOf _ _ | .unary _ _ .before _ => 8
  | .unary _ _ .after _ | .assembly _ _ _ _ _ _ => 9
  | _ => 10

def Expr.isBinary : Expr → Bool
  | .binary _ _ _ _ => true
  | _ => false

def Expr.isPrefixed : Expr → Bool
  | .addressOf _ _ | .unary _ _ .before _ => true
  | _ => false

def Ident.print : Ident → List Lexeme
  | .simple _ name => [.name name]
  | .pasted _ [] => []
  | .pasted _ (first :: more) => .name first :: more.flatMap fun fragment => [.punct .paste, .name fragment]

def CType.print : CType → List Lexeme
  | .named _ name isStruct => (if isStruct then [.keyword .structKw] else []) ++ name.print
  | .pointer _ pointee isMutable =>
    pointee.print ++ .punct .star :: if isMutable then [] else [.keyword .constKw]

def printMoreTexts (texts : List String) : List Lexeme :=
  texts.flatMap fun text => [.punct .comma, .string text]

def printTexts : List String → List Lexeme
  | [] => []
  | text :: texts => .string text :: printMoreTexts texts

def printLabel : Option String → List Lexeme
  | none => []
  | some name => [.punct .leftBracket, .name name, .punct .rightBracket]

mutual

def Expr.print (spelling : Number → String) : Expr → List Lexeme
  | .name _ ident => ident.print
  | .call _ callee arguments =>
    callee.print ++ .punct .leftParen :: printExprs spelling arguments ++ [.punct .rightParen]
  | .cast _ target operand =>
    .punct .leftParen :: target.print ++ .punct .rightParen ::
      enclosedIf (decide (operand.rank < 8) || ((bareName? target).isSome && operand.isPrefixed))
        (operand.print spelling)
  | .number _ value => [.number (spelling value)]
  | .string _ text => [.string text]
  | .character _ text => [.character text]
  | .field _ operand name isArrow =>
    enclosedIf (operand.rank < 10) (operand.print spelling) ++
      .punct (if isArrow then .arrow else .dot) :: name.print
  | .stringify _ name => .punct .hash :: name.print
  | .concat _ parts => printPieces spelling parts
  | .unary _ op .before operand => .punct op.punct :: enclosedIf (operand.rank < 8) (operand.print spelling)
  | .unary _ op .after operand => enclosedIf (operand.rank < 10) (operand.print spelling) ++ [.punct op.punct]
  | .binary _ op left right =>
    enclosedIf (left.rank < op.rank) (left.print spelling) ++
      .punct op.punct :: enclosedIf (right.rank < op.rank + 1) (right.print spelling)
  | .assign _ op target value =>
    enclosedIf target.isBinary (target.print spelling) ++
      .punct op.punct :: enclosedIf (value.rank < 2) (value.print spelling)
  | .ternary _ condition whenTrue whenFalse =>
    enclosedIf (condition.rank < 3) (condition.print spelling) ++
      .punct .question :: enclosedIf (whenTrue.rank < 2) (whenTrue.print spelling) ++
      .punct .colon :: enclosedIf (whenFalse.rank < 2) (whenFalse.print spelling)
  | .addressOf _ operand => .punct .ampersand :: enclosedIf (operand.rank < 8) (operand.print spelling)
  | .assembly _ template outputs inputs clobbers isVolatile =>
    .name "__asm" :: (if isVolatile then [.keyword .volatileKw] else []) ++
      .punct .leftParen :: template.map .string ++
      (.punct .colon :: printOperands spelling outputs ++ .punct .colon :: printOperands spelling inputs ++
        .punct .colon :: printTexts clobbers) ++ [.punct .rightParen]
  | .placeholder _ _ => []

def printPieces (spelling : Number → String) : List Expr → List Lexeme
  | [] => []
  | e :: es => e.print spelling ++ printPieces spelling es

def printExprs (spelling : Number → String) : List Expr → List Lexeme
  | [] => []
  | e :: es => e.print spelling ++ printMoreExprs spelling es

def printMoreExprs (spelling : Number → String) : List Expr → List Lexeme
  | [] => []
  | e :: es => .punct .comma :: e.print spelling ++ printMoreExprs spelling es

def AsmOperand.print (spelling : Number → String) : AsmOperand → List Lexeme
  | .mk _ name constraint value =>
    printLabel name ++ .string constraint :: .punct .leftParen :: value.print spelling ++ [.punct .rightParen]

def printOperands (spelling : Number → String) : List AsmOperand → List Lexeme
  | [] => []
  | o :: os => o.print spelling ++ printMoreOperands spelling os

def printMoreOperands (spelling : Number → String) : List AsmOperand → List Lexeme
  | [] => []
  | o :: os => .punct .comma :: o.print spelling ++ printMoreOperands spelling os

end

mutual

def Stmt.print (spelling : Number → String) : Stmt → List Lexeme
  | .eval _ value => value.print spelling ++ [.punct .semicolon]
  | .declare _ type name value isStatic =>
    (if isStatic then [.keyword .staticKw] else []) ++ type.print ++ name.print ++
      .punct .assign :: value.print spelling ++ [.punct .semicolon]
  | .block _ body => .punct .leftBrace :: printStmts spelling body ++ [.punct .rightBrace]
  | .choice _ condition whenTrue whenFalse =>
    .keyword .ifKw :: .punct .leftParen :: condition.print spelling ++ .punct .rightParen ::
      .punct .leftBrace :: printStmts spelling whenTrue ++ .punct .rightBrace ::
      if whenFalse.isEmpty then []
      else .keyword .elseKw :: .punct .leftBrace :: printStmts spelling whenFalse ++ [.punct .rightBrace]
  | .loop _ body condition =>
    .keyword .doKw :: .punct .leftBrace :: printStmts spelling body ++ .punct .rightBrace ::
      .keyword .whileKw :: .punct .leftParen :: condition.print spelling ++
      [.punct .rightParen, .punct .semicolon]
  | .placeholder _ _ => []

def printStmts (spelling : Number → String) : List Stmt → List Lexeme
  | [] => []
  | s :: ss => s.print spelling ++ printStmts spelling ss

end

def Body.print (spelling : Number → String) : Body → List Lexeme
  | .statement _ value => value.print spelling
  | .expression _ value => value.print spelling
  | .both _ _ _ => []

def Ident.IsPrintable : Ident → Prop
  | .simple _ _ => True
  | .pasted _ fragments => 2 ≤ fragments.length

def CType.IsPrintable : CType → Prop
  | .named _ name _ => name.IsPrintable
  | .pointer _ pointee _ => pointee.IsPrintable

def Expr.isPiece : Expr → Bool
  | .string _ _ | .stringify _ (.simple _ _) => true
  | _ => false

mutual

/-- No node is missing or could not be read where it stands, and every number is the one that it is spelled as. -/
def Expr.IsPrintable (spelling : Number → String) : Expr → Prop
  | .name _ ident => ident.IsPrintable
  | .call pos callee arguments =>
    callee.IsPrintable ∧ opensAssembly (.name pos callee) = false ∧ ArePrintable spelling arguments
  | .cast _ target operand => target.IsPrintable ∧ operand.IsPrintable spelling
  | .number _ value => Number.ofText? (spelling value) = some value
  | .string _ _ | .character _ _ => True
  | .field _ operand name _ => operand.IsPrintable spelling ∧ isClosed operand = false ∧ name.IsPrintable
  | .stringify pos name => (Expr.stringify pos name).isPiece = true
  | .concat _ parts => 2 ≤ parts.length ∧ ∀ part ∈ parts, part.isPiece = true
  | .unary _ _ .before operand => operand.IsPrintable spelling
  | .unary _ op .after operand => operand.IsPrintable spelling ∧ op.isStep = true ∧ isClosed operand = false
  | .binary _ _ left right => left.IsPrintable spelling ∧ right.IsPrintable spelling
  | .assign _ _ target value => target.IsPrintable spelling ∧ value.IsPrintable spelling
  | .ternary _ condition whenTrue whenFalse =>
    condition.IsPrintable spelling ∧ whenTrue.IsPrintable spelling ∧ whenFalse.IsPrintable spelling
  | .addressOf _ operand => operand.IsPrintable spelling
  | .assembly _ template outputs inputs _ _ =>
    template ≠ [] ∧ OperandsPrintable spelling outputs ∧ OperandsPrintable spelling inputs
  | .placeholder _ _ => False

def ArePrintable (spelling : Number → String) : List Expr → Prop
  | [] => True
  | e :: es => e.IsPrintable spelling ∧ ArePrintable spelling es

def AsmOperand.IsPrintable (spelling : Number → String) : AsmOperand → Prop
  | .mk _ _ _ value => value.IsPrintable spelling

def OperandsPrintable (spelling : Number → String) : List AsmOperand → Prop
  | [] => True
  | o :: os => o.IsPrintable spelling ∧ OperandsPrintable spelling os

end

mutual

def Stmt.IsPrintable (spelling : Number → String) : Stmt → Prop
  | .eval _ value => value.IsPrintable spelling
  | .declare _ type name value _ => type.IsPrintable ∧ name.IsPrintable ∧ value.IsPrintable spelling
  | .block _ body => StmtsPrintable spelling body
  | .choice _ condition whenTrue whenFalse =>
    condition.IsPrintable spelling ∧ StmtsPrintable spelling whenTrue ∧ StmtsPrintable spelling whenFalse
  | .loop _ body condition => StmtsPrintable spelling body ∧ condition.IsPrintable spelling
  | .placeholder _ _ => False

def StmtsPrintable (spelling : Number → String) : List Stmt → Prop
  | [] => True
  | s :: ss => s.IsPrintable spelling ∧ StmtsPrintable spelling ss

end

def Body.IsPrintable (spelling : Number → String) : Body → Prop
  | .statement _ value => value.IsPrintable spelling
  | .expression _ value => value.IsPrintable spelling
  | .both _ _ _ => False

end MacroLift
