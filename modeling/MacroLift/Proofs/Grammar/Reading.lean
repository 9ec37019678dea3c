import MacroLift.Proofs.Grammar.Derivation

namespace MacroLift

open MacroLift.Parser (isClosed isAssemblyWord opensAssembly bareName? continuesOperand)

def ahead (ts : List Token) (next : Option Lexeme) : Option Lexeme :=
  match ts with
  | [] => next
  | t :: _ => some t.lexeme

@[simp] theorem ahead_nil (next : Option Lexeme) : ahead [] next = next := rfl

@[simp] theorem ahead_cons (t : Token) (ts : List Token) (next : Option Lexeme) :
    ahead (t :: ts) next = some t.lexeme := rfl

@[simp] theorem ahead_append (ts us : List Token) (next : Option Lexeme) :
    ahead (ts ++ us) next = ahead ts (ahead us next) := by
  cases ts <;> rfl

def startsOperand : Lexeme → Bool
  | .name _ | .number _ | .string _ | .character _ => true
  | .punct p =>
    [.hash, .leftParen, .ampersand, .increment, .decrement, .plus, .minus, .bang, .tilde].contains p
  | .keyword _ => false

/-- Whether a lexeme can stand behind a complete operand. What could begin an operand too is an operator then. -/
def followsOperand : Option Lexeme → Bool
  | none => true
  | some (.name _) | some (.number _) | some (.string _) | some (.character _) => false
  | some (.keyword k) => k != .volatileKw
  | some (.punct p) =>
    !([.leftParen, .dot, .arrow, .increment, .decrement, .paste, .hash, .bang, .tilde].contains p)

def Ident.isOneOf (names : List String) : Ident → Bool
  | .simple _ name => names.contains name
  | .pasted _ _ => false

def InParens (ts : List Token) (ident : Ident) : Prop :=
  ∃ openPos name closePos,
    ts = ⟨.punct .leftParen, openPos⟩ :: name ++ [⟨.punct .rightParen, closePos⟩] ∧ Names name ident

/-- The tokens are a name in parentheses, and what is behind them can be the operand of a cast to that name. A
    parameter is no type in front of what could also continue its value. -/
def MayCast (parameters : List String) (ts : List Token) (next : Option Lexeme) : Prop :=
  ∃ ident, InParens ts ident ∧ next.any startsOperand = true ∧
    ¬ (ident.isOneOf parameters = true ∧ next.any continuesOperand = true)

/-- The tokens begin with a product of two names and an assignment, which reads as a declaration of a pointer. -/
def OpensDeclaration (ts : List Token) : Prop :=
  ∃ type starPos name assignPos rest typeName declared,
    ts = type ++ ⟨.punct .star, starPos⟩ :: name ++ ⟨.punct .assign, assignPos⟩ :: rest ∧
      Names type typeName ∧ Names name declared

def IsTemplate (ts : List Token) : Prop :=
  ∃ pos first rest lines, ts = ⟨.string first, pos⟩ :: rest ∧ Template rest lines

/-- The tokens read as the tree, as a phrase of a kind with a lexeme behind it. -/
inductive Reads (parameters : List String) :
    (phrase : Phrase) → List Token → phrase.Tree → Option Lexeme → Prop where
  | name {ts : List Token} {ident : Ident} {next : Option Lexeme} (names : Names ts ident) :
      Reads parameters (.expr 10) ts (.name ident.pos ident) next
  | number {suffixes : List Token} {value : Number} {marks : Marks} {next : Option Lexeme} (pos : Pos)
      (text : String) (found : Number.ofText? text = some value) (pasted : Suffixes value.marks suffixes marks)
      (unpasted : value.isFloat = true → suffixes = []) :
      Reads parameters (.expr 10) (⟨.number text, pos⟩ :: suffixes) (.number pos { value with marks }) next
  | character {next : Option Lexeme} (pos : Pos) (text : String) :
      Reads parameters (.expr 10) [⟨.character text, pos⟩] (.character pos text) next
  | piece {ts : List Token} {e : Expr} {next : Option Lexeme} (pieces : Pieces ts [e]) :
      Reads parameters (.expr 10) ts e next
  | pieces {ts : List Token} {first second : Expr} {more : List Expr} {next : Option Lexeme}
      (pieces : Pieces ts (first :: second :: more)) :
      Reads parameters (.expr 10) ts (.concat first.pos (first :: second :: more)) next
  | parens {ts : List Token} {e : Expr} {next : Option Lexeme} (openPos closePos : Pos)
      (inner : Reads parameters (.expr 1) ts e (some (.punct .rightParen))) :
      Reads parameters (.expr 10) (⟨.punct .leftParen, openPos⟩ :: ts ++ [⟨.punct .rightParen, closePos⟩]) e next
  | base {ts : List Token} {e : Expr} {next : Option Lexeme} (inner : Reads parameters (.expr 10) ts e next)
      (more : isClosed e = false) : Reads parameters .chain ts e next
  -- a name in parentheses with one argument behind it is a cast, and an assembly word with a template a template's
  | call {ts us : List Token} {pos : Pos} {ident : Ident} {arguments : List Expr} {next : Option Lexeme}
      (openPos closePos : Pos) (callee : Reads parameters .chain ts (.name pos ident) (some (.punct .leftParen)))
      (inner : Reads parameters .arguments us arguments (some (.punct .rightParen)))
      (noCast : MayCast parameters ts (some (.punct .leftParen)) → arguments.length ≠ 1)
      (noAssembly : opensAssembly (.name pos ident) = true → ¬ IsTemplate us) :
      Reads parameters .chain (ts ++ ⟨.punct .leftParen, openPos⟩ :: us ++ [⟨.punct .rightParen, closePos⟩])
        (.call pos ident arguments) next
  | field {ts us : List Token} {e : Expr} {name : Ident} {next : Option Lexeme} (isArrow : Bool) (pos : Pos)
      (owner : Reads parameters .chain ts e (some (.punct (if isArrow then .arrow else .dot))))
      (names : Names us name) :
      Reads parameters .chain (ts ++ ⟨.punct (if isArrow then .arrow else .dot), pos⟩ :: us)
        (.field e.pos e name isArrow) next
  | closed {ts : List Token} {e : Expr} {next : Option Lexeme} (inner : Reads parameters (.expr 10) ts e next)
      (whole : isClosed e = true) (follow : followsOperand next = true) : Reads parameters (.expr 9) ts e next
  | chained {ts : List Token} {e : Expr} {next : Option Lexeme} (inner : Reads parameters .chain ts e next)
      (follow : followsOperand next = true) (noCast : ¬ MayCast parameters ts next) :
      Reads parameters (.expr 9) ts e next
  | step {ts : List Token} {e : Expr} {op : UnaryOp} {next : Option Lexeme} (pos : Pos) (isStep : op.isStep = true)
      (inner : Reads parameters .chain ts e (some (.punct op.punct))) (follow : followsOperand next = true)
      (noCast : MayCast parameters ts (some (.punct op.punct)) → next.any startsOperand = false) :
      Reads parameters (.expr 9) (ts ++ [⟨.punct op.punct, pos⟩]) (.unary e.pos op .after e) next
  | assembly {head volatile template sections : List Token} {pos namePos : Pos} {word : String}
      {isVolatile : Bool} {lines : List String} {parts : List AsmOperand × List AsmOperand × List String}
      {next : Option Lexeme} (openPos firstPos closePos : Pos) (first : String)
      (opener : Reads parameters (.expr 10) head (.name pos (.simple namePos word))
        (ahead volatile (some (.punct .leftParen)))) (isWord : isAssemblyWord word = true)
      (marked : Optional (.keyword .volatileKw) volatile isVolatile) (more : Template template lines)
      (behind : Reads parameters .sections sections parts (some (.punct .rightParen)))
      (follow : followsOperand next = true)
      (noCast : MayCast parameters head (some (.punct .leftParen)) → volatile = [] → sections = [] →
        ∃ t ∈ template, t.lexeme = .punct .comma) :
      Reads parameters (.expr 9)
        (head ++ volatile ++ ⟨.punct .leftParen, openPos⟩ :: ⟨.string first, firstPos⟩ :: template ++ sections ++
          [⟨.punct .rightParen, closePos⟩])
        (.assembly pos (first :: lines) parts.1 parts.2.1 parts.2.2 isVolatile) next
  | cast {ts us : List Token} {target : CType} {e : Expr} {next : Option Lexeme} (openPos closePos : Pos)
      (type : TypeName ts target) (operand : Reads parameters (.expr 8) us e next)
      (noParameter : ¬ ((bareName? target).any parameters.contains = true ∧
        (ahead us next).any continuesOperand = true)) :
      Reads parameters (.expr 8) (⟨.punct .leftParen, openPos⟩ :: ts ++ ⟨.punct .rightParen, closePos⟩ :: us)
        (.cast openPos target e) next
  | addressOf {ts : List Token} {e : Expr} {next : Option Lexeme} (pos : Pos)
      (operand : Reads parameters (.expr 8) ts e next) :
      Reads parameters (.expr 8) (⟨.punct .ampersand, pos⟩ :: ts) (.addressOf pos e) next
  | before {ts : List Token} {e : Expr} {next : Option Lexeme} (op : UnaryOp) (pos : Pos)
      (operand : Reads parameters (.expr 8) ts e next) :
      Reads parameters (.expr 8) (⟨.punct op.punct, pos⟩ :: ts) (.unary pos op .before e) next
  | binary {ts us : List Token} {left right : Expr} {next : Option Lexeme} (op : BinaryOp) (pos : Pos)
      (first : Reads parameters (.expr op.rank) ts left (some (.punct op.punct)))
      (second : Reads parameters (.expr (op.rank + 1)) us right next) :
      Reads parameters (.expr op.rank) (ts ++ ⟨.punct op.punct, pos⟩ :: us) (.binary left.pos op left right) next
  | ternary {ts us vs : List Token} {condition whenTrue whenFalse : Expr} {next : Option Lexeme}
      (questionPos colonPos : Pos) (test : Reads parameters (.expr 3) ts condition (some (.punct .question)))
      (first : Reads parameters (.expr 2) us whenTrue (some (.punct .colon)))
      (second : Reads parameters (.expr 2) vs whenFalse next) :
      Reads parameters (.expr 2)
        (ts ++ ⟨.punct .question, questionPos⟩ :: us ++ ⟨.punct .colon, colonPos⟩ :: vs)
        (.ternary condition.pos condition whenTrue whenFalse) next
  | assign {ts us : List Token} {target value : Expr} {next : Option Lexeme} (op : AssignOp) (pos : Pos)
      (first : Reads parameters (.expr 1) ts target (some (.punct op.punct)))
      (second : Reads parameters (.expr 2) us value next) :
      Reads parameters (.expr 1) (ts ++ ⟨.punct op.punct, pos⟩ :: us) (.assign target.pos op target value) next
  | tighter {ts : List Token} {e : Expr} {rank : Nat} {next : Option Lexeme} (low : 0 < rank) (high : rank < 9)
      (inner : Reads parameters (.expr (rank + 1)) ts e next) : Reads parameters (.expr rank) ts e next
  | noArguments {next : Option Lexeme} : Reads parameters .arguments [] [] next
  | argument {ts : List Token} {e : Expr} {next : Option Lexeme} (inner : Reads parameters (.expr 1) ts e next) :
      Reads parameters .arguments ts [e] next
  | moreArguments {ts us : List Token} {arguments : List Expr} {e : Expr} {next : Option Lexeme} (commaPos : Pos)
      (first : Reads parameters .arguments ts arguments (some (.punct .comma))) (more : arguments ≠ [])
      (last : Reads parameters (.expr 1) us e next) :
      Reads parameters .arguments (ts ++ ⟨.punct .comma, commaPos⟩ :: us) (arguments ++ [e]) next
  | operand {name ts : List Token} {pos : Pos} {label : Option String} {e : Expr} {next : Option Lexeme}
      (constraintPos openPos closePos : Pos) (constraint : String)
      (start : StartsAt (name ++ [⟨.string constraint, constraintPos⟩]) pos) (named : OperandName name label)
      (inner : Reads parameters (.expr 1) ts e (some (.punct .rightParen))) :
      Reads parameters .operand
        (name ++ ⟨.string constraint, constraintPos⟩ :: ⟨.punct .leftParen, openPos⟩ :: ts ++
          [⟨.punct .rightParen, closePos⟩])
        (.mk pos label constraint e) next
  | noOperands {next : Option Lexeme} : Reads parameters .operands [] [] next
  | oneOperand {ts : List Token} {o : AsmOperand} {next : Option Lexeme}
      (inner : Reads parameters .operand ts o next) : Reads parameters .operands ts [o] next
  | moreOperands {ts us : List Token} {os : List AsmOperand} {o : AsmOperand} {next : Option Lexeme}
      (commaPos : Pos) (first : Reads parameters .operands ts os (some (.punct .comma))) (more : os ≠ [])
      (last : Reads parameters .operand us o next) :
      Reads parameters .operands (ts ++ ⟨.punct .comma, commaPos⟩ :: us) (os ++ [o]) next
  | noSections {next : Option Lexeme} : Reads parameters .sections [] ([], [], []) next
  | outputs {ts : List Token} {outs : List AsmOperand} {next : Option Lexeme} (pos : Pos)
      (written : Reads parameters .operands ts outs next) :
      Reads parameters .sections (⟨.punct .colon, pos⟩ :: ts) (outs, [], []) next
  | inputs {ts us : List Token} {outs ins : List AsmOperand} {next : Option Lexeme} (pos nextPos : Pos)
      (written : Reads parameters .operands ts outs (some (.punct .colon)))
      (read : Reads parameters .operands us ins next) :
      Reads parameters .sections (⟨.punct .colon, pos⟩ :: ts ++ ⟨.punct .colon, nextPos⟩ :: us)
        (outs, ins, []) next
  | clobbers {ts us vs : List Token} {outs ins : List AsmOperand} {texts : List String} {next : Option Lexeme}
      (pos nextPos lastPos : Pos) (written : Reads parameters .operands ts outs (some (.punct .colon)))
      (read : Reads parameters .operands us ins (some (.punct .colon))) (clobbered : Clobbers vs texts) :
      Reads parameters .sections
        (⟨.punct .colon, pos⟩ :: ts ++ ⟨.punct .colon, nextPos⟩ :: us ++ ⟨.punct .colon, lastPos⟩ :: vs)
        (outs, ins, texts) next
  | block {ts : List Token} {body : List Stmt} {next : Option Lexeme} (pos closePos : Pos)
      (inner : Reads parameters .statements ts body (some (.punct .rightBrace))) :
      Reads parameters .statement (⟨.punct .leftBrace, pos⟩ :: ts ++ [⟨.punct .rightBrace, closePos⟩])
        (.block pos body) next
  -- an `else` belongs to the nearest choice
  | choice {ts us : List Token} {test : Expr} {body : List Stmt} {next : Option Lexeme}
      (pos openPos closePos : Pos) (condition : Reads parameters (.expr 1) ts test (some (.punct .rightParen)))
      (whenTrue : Reads parameters .branch us body next) (noElse : next ≠ some (.keyword .elseKw)) :
      Reads parameters .statement
        (⟨.keyword .ifKw, pos⟩ :: ⟨.punct .leftParen, openPos⟩ :: ts ++ ⟨.punct .rightParen, closePos⟩ :: us)
        (.choice pos test body []) next
  | choiceElse {ts us vs : List Token} {test : Expr} {body other : List Stmt} {next : Option Lexeme}
      (pos openPos closePos elsePos : Pos)
      (condition : Reads parameters (.expr 1) ts test (some (.punct .rightParen)))
      (whenTrue : Reads parameters .branch us body (some (.keyword .elseKw)))
      (whenFalse : Reads parameters .branch vs other next) :
      Reads parameters .statement
        (⟨.keyword .ifKw, pos⟩ :: ⟨.punct .leftParen, openPos⟩ :: ts ++ ⟨.punct .rightParen, closePos⟩ :: us ++
          ⟨.keyword .elseKw, elsePos⟩ :: vs)
        (.choice pos test body other) next
  | loop {ts us semicolon : List Token} {test : Expr} {body : List Stmt} {hasSemicolon : Bool}
      {next : Option Lexeme} (pos whilePos openPos closePos : Pos)
      (inner : Reads parameters .branch ts body (some (.keyword .whileKw)))
      (condition : Reads parameters (.expr 1) us test (some (.punct .rightParen)))
      (stop : Optional (.punct .semicolon) semicolon hasSemicolon)
      (noStop : hasSemicolon = false → next ≠ some (.punct .semicolon)) :
      Reads parameters .statement
        (⟨.keyword .doKw, pos⟩ :: ts ++ ⟨.keyword .whileKw, whilePos⟩ :: ⟨.punct .leftParen, openPos⟩ :: us ++
          ⟨.punct .rightParen, closePos⟩ :: semicolon)
        (.loop pos body test) next
  | declare {before ts behind us vs : List Token} {pos : Pos} {type : CType} {name : Ident} {value : Expr}
      {isStaticBefore isStaticBehind : Bool} {next : Option Lexeme} (assignPos stopPos : Pos)
      (start : StartsAt (before ++ ts) pos) (static : Optional (.keyword .staticKw) before isStaticBefore)
      (typed : TypeName ts type) (late : Optional (.keyword .staticKw) behind isStaticBehind)
      (once : isStaticBefore = true → behind = []) (names : Names us name)
      (initial : Reads parameters (.expr 1) vs value (some (.punct .semicolon))) :
      Reads parameters .statement
        (before ++ ts ++ behind ++ us ++ ⟨.punct .assign, assignPos⟩ :: vs ++ [⟨.punct .semicolon, stopPos⟩])
        (.declare pos type name value (isStaticBefore || isStaticBehind)) next
  -- what can be a declaration is one
  | eval {ts : List Token} {e : Expr} {next : Option Lexeme} (pos : Pos)
      (inner : Reads parameters (.expr 1) ts e (some (.punct .semicolon)))
      (noDeclaration : ¬ OpensDeclaration ts) :
      Reads parameters .statement (ts ++ [⟨.punct .semicolon, pos⟩]) (.eval e.pos e) next
  | splicedBranch {ts : List Token} {pos : Pos} {body : List Stmt} {next : Option Lexeme}
      (inner : Reads parameters .statement ts (.block pos body) next) : Reads parameters .branch ts body next
  | bareBranch {ts : List Token} {s : Stmt} {next : Option Lexeme} (inner : Reads parameters .statement ts s next)
      (bare : ∀ pos body, s ≠ .block pos body) : Reads parameters .branch ts [s] next
  | noStatements {next : Option Lexeme} : Reads parameters .statements [] [] next
  | moreStatements {ts us : List Token} {body : List Stmt} {s : Stmt} {next : Option Lexeme}
      (first : Reads parameters .statements ts body (ahead us next))
      (last : Reads parameters .statement us s next) : Reads parameters .statements (ts ++ us) (body ++ [s]) next

theorem Reads.derives {parameters : List String} {phrase : Phrase} {ts : List Token} {tree : phrase.Tree}
    {next : Option Lexeme} (h : Reads parameters phrase ts tree next) : Derives phrase ts tree := by
  induction h with
  | name names => exact .name names
  | number pos text found pasted unpasted => exact .number pos text found pasted unpasted
  | character pos text => exact .character pos text
  | piece pieces => exact .piece pieces
  | pieces pieces => exact .pieces pieces
  | parens openPos closePos _ ih => exact .parens openPos closePos ih
  | base _ more ih => exact .base ih more
  | call openPos closePos _ _ _ _ callee inner => exact .call openPos closePos callee inner
  | field isArrow pos _ names ih => exact .field isArrow pos ih names
  | closed _ whole _ ih => exact .closed ih whole
  | chained _ _ _ ih => exact .chained ih
  | step pos isStep _ _ _ ih => exact .step pos isStep ih
  | assembly openPos firstPos closePos first _ isWord marked more _ _ _ opener behind =>
    exact .assembly openPos firstPos closePos first opener isWord marked more behind
  | cast openPos closePos type _ _ ih => exact .cast openPos closePos type ih
  | addressOf pos _ ih => exact .addressOf pos ih
  | before op pos _ ih => exact .before op pos ih
  | binary op pos _ _ first second => exact .binary op pos first second
  | ternary questionPos colonPos _ _ _ test first second => exact .ternary questionPos colonPos test first second
  | assign op pos _ _ first second => exact .assign op pos first second
  | tighter low high _ ih => exact .tighter low high ih
  | noArguments => exact .noArguments
  | argument _ ih => exact .argument ih
  | moreArguments commaPos _ more _ first last => exact .moreArguments commaPos first more last
  | operand constraintPos openPos closePos constraint start named _ ih =>
    exact .operand constraintPos openPos closePos constraint start named ih
  | noOperands => exact .noOperands
  | oneOperand _ ih => exact .oneOperand ih
  | moreOperands commaPos _ more _ first last => exact .moreOperands commaPos first more last
  | noSections => exact .noSections
  | outputs pos _ ih => exact .outputs pos ih
  | inputs pos nextPos _ _ written read => exact .inputs pos nextPos written read
  | clobbers pos nextPos lastPos _ _ clobbered written read =>
    exact .clobbers pos nextPos lastPos written read clobbered
  | block pos closePos _ ih => exact .block pos closePos ih
  | choice pos openPos closePos _ _ _ condition whenTrue => exact .choice pos openPos closePos condition whenTrue
  | choiceElse pos openPos closePos elsePos _ _ _ condition whenTrue whenFalse =>
    exact .choiceElse pos openPos closePos elsePos condition whenTrue whenFalse
  | loop pos whilePos openPos closePos _ _ stop _ inner condition =>
    exact .loop pos whilePos openPos closePos inner condition stop
  | declare assignPos stopPos start static typed late once names _ ih =>
    exact .declare assignPos stopPos start static typed late once names ih
  | eval pos _ _ ih => exact .eval pos ih
  | splicedBranch _ ih => exact .splicedBranch ih
  | bareBranch _ bare ih => exact .bareBranch ih bare
  | noStatements => exact .noStatements
  | moreStatements _ _ first last => exact .moreStatements first last

end MacroLift
