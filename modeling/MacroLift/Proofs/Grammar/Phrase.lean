import MacroLift.Grammar.Expression
import MacroLift.Usage.Uses

namespace MacroLift

def AssignOp.punct : AssignOp → Punct
  | .plain => .assign
  | .add => .plusAssign
  | .subtract => .minusAssign
  | .multiply => .starAssign
  | .divide => .slashAssign
  | .remainder => .percentAssign
  | .shiftLeft => .shiftLeftAssign
  | .shiftRight => .shiftRightAssign
  | .bitAnd => .andAssign
  | .bitXor => .xorAssign
  | .bitOr => .orAssign

def BinaryOp.punct : BinaryOp → Punct
  | .multiply => .star
  | .divide => .slash
  | .add => .plus
  | .subtract => .minus
  | .shiftLeft => .shiftLeft
  | .shiftRight => .shiftRight
  | .less => .less
  | .lessEq => .lessEq
  | .greater => .greater
  | .greaterEq => .greaterEq
  | .equal => .equal
  | .notEqual => .notEqual

/-- The rank of a binary operation: assignments have rank 1, conditionals 2, prefixes 8, postfixes 9, and what
    stands for itself 10. -/
def BinaryOp.rank : BinaryOp → Nat
  | .equal | .notEqual => 3
  | .less | .lessEq | .greater | .greaterEq => 4
  | .shiftLeft | .shiftRight => 5
  | .add | .subtract => 6
  | .multiply | .divide => 7

def UnaryOp.punct : UnaryOp → Punct
  | .plus => .plus
  | .negate => .minus
  | .logicalNot => .bang
  | .bitwiseNot => .tilde
  | .increment => .increment
  | .decrement => .decrement

def UnaryOp.isStep : UnaryOp → Bool
  | .increment | .decrement => true
  | _ => false

def Ident.pos : Ident → Pos
  | .simple pos _ | .pasted pos _ => pos

def StartsAt (ts : List Token) (pos : Pos) : Prop :=
  ts.head?.map Token.pos = some pos

inductive Optional (lexeme : Lexeme) : List Token → Bool → Prop where
  | absent : Optional lexeme [] false
  | present (pos : Pos) : Optional lexeme [⟨lexeme, pos⟩] true

inductive PastedNames : List Token → List String → Prop where
  | nil : PastedNames [] []
  | cons {ts : List Token} {fragments : List String} (pastePos namePos : Pos) (text : String)
      (more : PastedNames ts fragments) :
      PastedNames (⟨.punct .paste, pastePos⟩ :: ⟨.name text, namePos⟩ :: ts) (text :: fragments)

inductive Names : List Token → Ident → Prop where
  | simple (pos : Pos) (text : String) : Names [⟨.name text, pos⟩] (.simple pos text)
  | pasted {ts : List Token} {fragments : List String} (pos : Pos) (text : String)
      (more : PastedNames ts fragments) (many : fragments ≠ []) :
      Names (⟨.name text, pos⟩ :: ts) (.pasted pos (text :: fragments))

def AllConst (ts : List Token) : Prop :=
  ∀ t ∈ ts, t.lexeme = .keyword .constKw

/-- `('*' 'const'*)*`, each star a pointer to the type in front of it. -/
inductive Levels : CType → List Token → CType → Prop where
  | none (type : CType) : Levels type [] type
  | star {type result : CType} {consts ts : List Token} (pos : Pos) (const : AllConst consts)
      (more : Levels (.pointer pos type consts.isEmpty) ts result) :
      Levels type (⟨.punct .star, pos⟩ :: consts ++ ts) result

theorem Levels.baseName {type result : CType} {ts : List Token} (h : Levels type ts result) :
    result.baseName = type.baseName := by
  induction h with
  | none => rfl
  | star _ _ _ ih => exact ih

/-- `'const'* 'struct'? identifier 'const'* ('*' 'const'*)*` -/
inductive TypeName : List Token → CType → Prop where
  | intro {before word name behind levels : List Token} {isStruct : Bool} {ident : Ident} {type : CType}
      {pos : Pos} (start : StartsAt (before ++ word ++ name) pos) (constBefore : AllConst before)
      (struct : Optional (.keyword .structKw) word isStruct) (names : Names name ident)
      (constBehind : AllConst behind) (pointers : Levels (.named pos ident isStruct) levels type) :
      TypeName (before ++ word ++ name ++ behind ++ levels) type

/-- Suffixes pasted to an integer, each adding marks that are not there yet. -/
inductive Suffixes : Marks → List Token → Marks → Prop where
  | none (marks : Marks) : Suffixes marks [] marks
  | paste {marks merged all : Marks} {ts : List Token} (pastePos namePos : Pos) (text : String)
      (new : marks.merge? text = some merged) (more : Suffixes merged ts all) :
      Suffixes marks (⟨.punct .paste, pastePos⟩ :: ⟨.name text, namePos⟩ :: ts) all

/-- `(STRING | '#' NAME)*` -/
inductive Pieces : List Token → List Expr → Prop where
  | nil : Pieces [] []
  | text {ts : List Token} {pieces : List Expr} (pos : Pos) (text : String) (more : Pieces ts pieces) :
      Pieces (⟨.string text, pos⟩ :: ts) (.string pos text :: pieces)
  | mark {ts : List Token} {pieces : List Expr} (pos namePos : Pos) (text : String) (more : Pieces ts pieces) :
      Pieces (⟨.punct .hash, pos⟩ :: ⟨.name text, namePos⟩ :: ts)
        (.stringify pos (.simple namePos text) :: pieces)

/-- `(','? STRING)*` -/
inductive Template : List Token → List String → Prop where
  | nil : Template [] []
  | adjacent {ts : List Token} {lines : List String} (pos : Pos) (text : String) (more : Template ts lines) :
      Template (⟨.string text, pos⟩ :: ts) (text :: lines)
  | comma {ts : List Token} {lines : List String} (commaPos pos : Pos) (text : String)
      (more : Template ts lines) :
      Template (⟨.punct .comma, commaPos⟩ :: ⟨.string text, pos⟩ :: ts) (text :: lines)

inductive MoreClobbers : List Token → List String → Prop where
  | nil : MoreClobbers [] []
  | cons {ts : List Token} {texts : List String} (commaPos pos : Pos) (text : String)
      (more : MoreClobbers ts texts) :
      MoreClobbers (⟨.punct .comma, commaPos⟩ :: ⟨.string text, pos⟩ :: ts) (text :: texts)

/-- `(STRING (',' STRING)*)?` -/
inductive Clobbers : List Token → List String → Prop where
  | none : Clobbers [] []
  | some {ts : List Token} {texts : List String} (pos : Pos) (text : String) (more : MoreClobbers ts texts) :
      Clobbers (⟨.string text, pos⟩ :: ts) (text :: texts)

/-- `('[' NAME ']')?` -/
inductive OperandName : List Token → Option String → Prop where
  | none : OperandName [] none
  | bracketed (openPos pos closePos : Pos) (text : String) :
      OperandName [⟨.punct .leftBracket, openPos⟩, ⟨.name text, pos⟩, ⟨.punct .rightBracket, closePos⟩]
        (some text)

/-- The kinds of phrases that nest. An expression has the rank of the loosest operator in it. -/
inductive Phrase where
  | expr (rank : Nat)
  | chain
  | arguments
  | operand
  | operands
  | sections
  | statement
  | branch
  | statements
  deriving DecidableEq

@[reducible] def Phrase.Tree : Phrase → Type
  | .expr _ | .chain => Expr
  | .arguments => List Expr
  | .operand => AsmOperand
  | .operands => List AsmOperand
  | .sections => List AsmOperand × List AsmOperand × List String
  | .statement => Stmt
  | .branch | .statements => List Stmt

end MacroLift
