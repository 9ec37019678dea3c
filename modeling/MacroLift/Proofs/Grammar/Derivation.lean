import MacroLift.Grammar.Statement
import MacroLift.Proofs.Grammar.Phrase

namespace MacroLift

open MacroLift.Parser (isClosed isAssemblyWord)

/-- The tokens derive the tree as a phrase of a kind. -/
inductive Derives : (phrase : Phrase) → List Token → phrase.Tree → Prop where
  -- rank 10: what stands for itself
  | name {ts : List Token} {ident : Ident} (names : Names ts ident) :
      Derives (.expr 10) ts (.name ident.pos ident)
  | number {suffixes : List Token} {value : Number} {marks : Marks} (pos : Pos) (text : String)
      (found : Number.ofText? text = some value) (pasted : Suffixes value.marks suffixes marks)
      (unpasted : value.isFloat = true → suffixes = []) :
      Derives (.expr 10) (⟨.number text, pos⟩ :: suffixes) (.number pos { value with marks })
  | character (pos : Pos) (text : String) : Derives (.expr 10) [⟨.character text, pos⟩] (.character pos text)
  | piece {ts : List Token} {e : Expr} (pieces : Pieces ts [e]) : Derives (.expr 10) ts e
  | pieces {ts : List Token} {first second : Expr} {more : List Expr}
      (pieces : Pieces ts (first :: second :: more)) :
      Derives (.expr 10) ts (.concat first.pos (first :: second :: more))
  | parens {ts : List Token} {e : Expr} (openPos closePos : Pos) (inner : Derives (.expr 1) ts e) :
      Derives (.expr 10) (⟨.punct .leftParen, openPos⟩ :: ts ++ [⟨.punct .rightParen, closePos⟩]) e
  -- rank 9: calls of names, fields, inline assembly, and one step operator at the end
  | base {ts : List Token} {e : Expr} (inner : Derives (.expr 10) ts e) (more : isClosed e = false) :
      Derives .chain ts e
  | call {ts us : List Token} {pos : Pos} {ident : Ident} {arguments : List Expr} (openPos closePos : Pos)
      (callee : Derives .chain ts (.name pos ident)) (inner : Derives .arguments us arguments) :
      Derives .chain (ts ++ ⟨.punct .leftParen, openPos⟩ :: us ++ [⟨.punct .rightParen, closePos⟩])
        (.call pos ident arguments)
  | field {ts us : List Token} {e : Expr} {name : Ident} (isArrow : Bool) (pos : Pos)
      (owner : Derives .chain ts e) (names : Names us name) :
      Derives .chain (ts ++ ⟨.punct (if isArrow then .arrow else .dot), pos⟩ :: us)
        (.field e.pos e name isArrow)
  | closed {ts : List Token} {e : Expr} (inner : Derives (.expr 10) ts e) (whole : isClosed e = true) :
      Derives (.expr 9) ts e
  | chained {ts : List Token} {e : Expr} (inner : Derives .chain ts e) : Derives (.expr 9) ts e
  | step {ts : List Token} {e : Expr} {op : UnaryOp} (pos : Pos) (isStep : op.isStep = true)
      (inner : Derives .chain ts e) :
      Derives (.expr 9) (ts ++ [⟨.punct op.punct, pos⟩]) (.unary e.pos op .after e)
  | assembly {head volatile template sections : List Token} {pos namePos : Pos} {word : String}
      {isVolatile : Bool} {lines : List String} {parts : List AsmOperand × List AsmOperand × List String}
      (openPos firstPos closePos : Pos) (first : String)
      (opener : Derives (.expr 10) head (.name pos (.simple namePos word))) (isWord : isAssemblyWord word = true)
      (marked : Optional (.keyword .volatileKw) volatile isVolatile) (more : Template template lines)
      (behind : Derives .sections sections parts) :
      Derives (.expr 9)
        (head ++ volatile ++ ⟨.punct .leftParen, openPos⟩ :: ⟨.string first, firstPos⟩ :: template ++ sections ++
          [⟨.punct .rightParen, closePos⟩])
        (.assembly pos (first :: lines) parts.1 parts.2.1 parts.2.2 isVolatile)
  -- rank 8: casts, addresses and operators in front
  | cast {ts us : List Token} {target : CType} {e : Expr} (openPos closePos : Pos) (type : TypeName ts target)
      (operand : Derives (.expr 8) us e) :
      Derives (.expr 8) (⟨.punct .leftParen, openPos⟩ :: ts ++ ⟨.punct .rightParen, closePos⟩ :: us)
        (.cast openPos target e)
  | addressOf {ts : List Token} {e : Expr} (pos : Pos) (operand : Derives (.expr 8) ts e) :
      Derives (.expr 8) (⟨.punct .ampersand, pos⟩ :: ts) (.addressOf pos e)
  | before {ts : List Token} {e : Expr} (op : UnaryOp) (pos : Pos) (operand : Derives (.expr 8) ts e) :
      Derives (.expr 8) (⟨.punct op.punct, pos⟩ :: ts) (.unary pos op .before e)
  -- ranks 7 to 3: binary operations, to the left
  | binary {ts us : List Token} {left right : Expr} (op : BinaryOp) (pos : Pos)
      (first : Derives (.expr op.rank) ts left) (second : Derives (.expr (op.rank + 1)) us right) :
      Derives (.expr op.rank) (ts ++ ⟨.punct op.punct, pos⟩ :: us) (.binary left.pos op left right)
  -- rank 2: conditionals, to the right
  | ternary {ts us vs : List Token} {condition whenTrue whenFalse : Expr} (questionPos colonPos : Pos)
      (test : Derives (.expr 3) ts condition) (first : Derives (.expr 2) us whenTrue)
      (second : Derives (.expr 2) vs whenFalse) :
      Derives (.expr 2) (ts ++ ⟨.punct .question, questionPos⟩ :: us ++ ⟨.punct .colon, colonPos⟩ :: vs)
        (.ternary condition.pos condition whenTrue whenFalse)
  -- rank 1: assignments, to the left
  | assign {ts us : List Token} {target value : Expr} (op : AssignOp) (pos : Pos)
      (first : Derives (.expr 1) ts target) (second : Derives (.expr 2) us value) :
      Derives (.expr 1) (ts ++ ⟨.punct op.punct, pos⟩ :: us) (.assign target.pos op target value)
  -- an expression without an operator of its rank
  | tighter {ts : List Token} {e : Expr} {rank : Nat} (low : 0 < rank) (high : rank < 9)
      (inner : Derives (.expr (rank + 1)) ts e) : Derives (.expr rank) ts e
  | noArguments : Derives .arguments [] []
  | argument {ts : List Token} {e : Expr} (inner : Derives (.expr 1) ts e) : Derives .arguments ts [e]
  | moreArguments {ts us : List Token} {arguments : List Expr} {e : Expr} (commaPos : Pos)
      (first : Derives .arguments ts arguments) (more : arguments ≠ []) (last : Derives (.expr 1) us e) :
      Derives .arguments (ts ++ ⟨.punct .comma, commaPos⟩ :: us) (arguments ++ [e])
  -- inline assembly behind its template
  | operand {name ts : List Token} {pos : Pos} {label : Option String} {e : Expr}
      (constraintPos openPos closePos : Pos) (constraint : String)
      (start : StartsAt (name ++ [⟨.string constraint, constraintPos⟩]) pos) (named : OperandName name label)
      (inner : Derives (.expr 1) ts e) :
      Derives .operand
        (name ++ ⟨.string constraint, constraintPos⟩ :: ⟨.punct .leftParen, openPos⟩ :: ts ++
          [⟨.punct .rightParen, closePos⟩])
        (.mk pos label constraint e)
  | noOperands : Derives .operands [] []
  | oneOperand {ts : List Token} {o : AsmOperand} (inner : Derives .operand ts o) : Derives .operands ts [o]
  | moreOperands {ts us : List Token} {os : List AsmOperand} {o : AsmOperand} (commaPos : Pos)
      (first : Derives .operands ts os) (more : os ≠ []) (last : Derives .operand us o) :
      Derives .operands (ts ++ ⟨.punct .comma, commaPos⟩ :: us) (os ++ [o])
  | noSections : Derives .sections [] ([], [], [])
  | outputs {ts : List Token} {outs : List AsmOperand} (pos : Pos) (written : Derives .operands ts outs) :
      Derives .sections (⟨.punct .colon, pos⟩ :: ts) (outs, [], [])
  | inputs {ts us : List Token} {outs ins : List AsmOperand} (pos nextPos : Pos)
      (written : Derives .operands ts outs) (read : Derives .operands us ins) :
      Derives .sections (⟨.punct .colon, pos⟩ :: ts ++ ⟨.punct .colon, nextPos⟩ :: us) (outs, ins, [])
  | clobbers {ts us vs : List Token} {outs ins : List AsmOperand} {texts : List String}
      (pos nextPos lastPos : Pos) (written : Derives .operands ts outs) (read : Derives .operands us ins)
      (clobbered : Clobbers vs texts) :
      Derives .sections
        (⟨.punct .colon, pos⟩ :: ts ++ ⟨.punct .colon, nextPos⟩ :: us ++ ⟨.punct .colon, lastPos⟩ :: vs)
        (outs, ins, texts)
  -- statements
  | block {ts : List Token} {body : List Stmt} (pos closePos : Pos) (inner : Derives .statements ts body) :
      Derives .statement (⟨.punct .leftBrace, pos⟩ :: ts ++ [⟨.punct .rightBrace, closePos⟩]) (.block pos body)
  | choice {ts us : List Token} {test : Expr} {body : List Stmt} (pos openPos closePos : Pos)
      (condition : Derives (.expr 1) ts test) (whenTrue : Derives .branch us body) :
      Derives .statement
        (⟨.keyword .ifKw, pos⟩ :: ⟨.punct .leftParen, openPos⟩ :: ts ++ ⟨.punct .rightParen, closePos⟩ :: us)
        (.choice pos test body [])
  | choiceElse {ts us vs : List Token} {test : Expr} {body other : List Stmt} (pos openPos closePos elsePos : Pos)
      (condition : Derives (.expr 1) ts test) (whenTrue : Derives .branch us body)
      (whenFalse : Derives .branch vs other) :
      Derives .statement
        (⟨.keyword .ifKw, pos⟩ :: ⟨.punct .leftParen, openPos⟩ :: ts ++ ⟨.punct .rightParen, closePos⟩ :: us ++
          ⟨.keyword .elseKw, elsePos⟩ :: vs)
        (.choice pos test body other)
  | loop {ts us semicolon : List Token} {test : Expr} {body : List Stmt} {hasSemicolon : Bool}
      (pos whilePos openPos closePos : Pos) (inner : Derives .branch ts body)
      (condition : Derives (.expr 1) us test) (stop : Optional (.punct .semicolon) semicolon hasSemicolon) :
      Derives .statement
        (⟨.keyword .doKw, pos⟩ :: ts ++ ⟨.keyword .whileKw, whilePos⟩ :: ⟨.punct .leftParen, openPos⟩ :: us ++
          ⟨.punct .rightParen, closePos⟩ :: semicolon)
        (.loop pos body test)
  | declare {before ts behind us vs : List Token} {pos : Pos} {type : CType} {name : Ident} {value : Expr}
      {isStaticBefore isStaticBehind : Bool} (assignPos stopPos : Pos) (start : StartsAt (before ++ ts) pos)
      (static : Optional (.keyword .staticKw) before isStaticBefore) (typed : TypeName ts type)
      (late : Optional (.keyword .staticKw) behind isStaticBehind) (once : isStaticBefore = true → behind = [])
      (names : Names us name) (initial : Derives (.expr 1) vs value) :
      Derives .statement
        (before ++ ts ++ behind ++ us ++ ⟨.punct .assign, assignPos⟩ :: vs ++ [⟨.punct .semicolon, stopPos⟩])
        (.declare pos type name value (isStaticBefore || isStaticBehind))
  | eval {ts : List Token} {e : Expr} (pos : Pos) (inner : Derives (.expr 1) ts e) :
      Derives .statement (ts ++ [⟨.punct .semicolon, pos⟩]) (.eval e.pos e)
  | splicedBranch {ts : List Token} {pos : Pos} {body : List Stmt} (inner : Derives .statement ts (.block pos body)) :
      Derives .branch ts body
  | bareBranch {ts : List Token} {s : Stmt} (inner : Derives .statement ts s)
      (bare : ∀ pos body, s ≠ .block pos body) : Derives .branch ts [s]
  | noStatements : Derives .statements [] []
  | moreStatements {ts us : List Token} {body : List Stmt} {s : Stmt} (first : Derives .statements ts body)
      (last : Derives .statement us s) : Derives .statements (ts ++ us) (body ++ [s])

end MacroLift
