import MacroLift.Grammar.Leaf

namespace MacroLift

/-- The parsers for what stands inside other constructs, behind at least one token of them. -/
structure Nested where
  statement : Parser Stmt
  expression : Parser Expr
  conditional : Parser Expr
  operand : Parser Expr

namespace Parser

def assignOp? : Lexeme → Option AssignOp
  | .punct .assign => some .plain
  | .punct .plusAssign => some .add
  | .punct .minusAssign => some .subtract
  | .punct .starAssign => some .multiply
  | .punct .slashAssign => some .divide
  | .punct .percentAssign => some .remainder
  | .punct .shiftLeftAssign => some .shiftLeft
  | .punct .shiftRightAssign => some .shiftRight
  | .punct .andAssign => some .bitAnd
  | .punct .xorAssign => some .bitXor
  | .punct .orAssign => some .bitOr
  | _ => none

def equalityOp? : Lexeme → Option BinaryOp
  | .punct .equal => some .equal
  | .punct .notEqual => some .notEqual
  | _ => none

def relationalOp? : Lexeme → Option BinaryOp
  | .punct .less => some .less
  | .punct .lessEq => some .lessEq
  | .punct .greater => some .greater
  | .punct .greaterEq => some .greaterEq
  | _ => none

def shiftOp? : Lexeme → Option BinaryOp
  | .punct .shiftLeft => some .shiftLeft
  | .punct .shiftRight => some .shiftRight
  | _ => none

def additiveOp? : Lexeme → Option BinaryOp
  | .punct .plus => some .add
  | .punct .minus => some .subtract
  | _ => none

def multiplicativeOp? : Lexeme → Option BinaryOp
  | .punct .star => some .multiply
  | .punct .slash => some .divide
  | _ => none

def prefixOp? : Lexeme → Option UnaryOp
  | .punct .increment => some .increment
  | .punct .decrement => some .decrement
  | .punct .plus => some .plus
  | .punct .minus => some .negate
  | .punct .bang => some .logicalNot
  | .punct .tilde => some .bitwiseNot
  | _ => none

def postfixOp? : Lexeme → Option UnaryOp
  | .punct .increment => some .increment
  | .punct .decrement => some .decrement
  | _ => none

/-- The lexemes that begin an operand and also continue one: behind a parameter in parentheses they mean an
    operation on it, not a cast to it. -/
def continuesOperand (lexeme : Lexeme) : Bool :=
  [.punct .plus, .punct .minus, .punct .star, .punct .ampersand, .punct .increment,
    .punct .decrement].contains lexeme

def isAssemblyWord (name : String) : Bool :=
  name == "__asm" || name == "__asm__"

def bareName? : CType → Option String
  | .named _ (.simple _ name) _ => some name
  | _ => none

/-- A cast. A macro parameter in parentheses is the type of one only if what follows could not continue the
    parameter's value. -/
def cast (nested : Nested) : Parser Expr := do
  let pos ← place
  expect (.punct .leftParen) "'('"
  let target ← ctype
  expect (.punct .rightParen) "')'"
  let next ← peek
  let isParameter : Parser Bool := fun setting ts =>
    ⟨.ok ((bareName? target).any setting.parameters.contains, ts), none⟩
  if (← isParameter) && next.any continuesOperand then
    failAt (.stated .syntactic "macro parameter is not a type" none) pos
  let operand ← nested.operand
  pure (.cast pos target operand)

def moreArguments (nested : Nested) (arguments : List Expr) : Parser (List Expr) :=
  repeated
    (fun read => do
      if ← accept (.punct .comma) then
        let argument ← nested.expression
        pure (some (read ++ [argument]))
      else pure none)
    arguments

def call (nested : Nested) (callee : Expr) : Parser Expr := do
  match callee with
  | .name pos name => do
    if ← accept (.punct .rightParen) then pure (.call pos name [])
    else do
      let first ← nested.expression
      let arguments ← moreArguments nested [first]
      expect (.punct .rightParen) "')'"
      pure (.call pos name arguments)
  | _ => failAt (.unsupported "call through a non-identifier expression") callee.pos

def chainLink (nested : Nested) (e : Expr) : Parser (Option Expr) := do
  match ← peek with
  | some (.punct .leftParen) => do
    skip
    let result ← call nested e
    pure (some result)
  | some (.punct .dot) => do
    skip
    let name ← ident
    pure (some (.field e.pos e name false))
  | some (.punct .arrow) => do
    skip
    let name ← ident
    pure (some (.field e.pos e name true))
  | _ => pure none

def chain (nested : Nested) (e : Expr) : Parser Expr := do
  let linked ← repeated (chainLink nested) e
  match ← acceptAs postfixOp? with
  | some op => pure (.unary linked.pos op .after linked)
  | none => pure linked

def asmName : Parser (Option String) := do
  if ← accept (.punct .leftBracket) then
    let name ← expectAs nameText? "operand name"
    expect (.punct .rightBracket) "']'"
    pure (some name)
  else pure none

def asmOperand (nested : Nested) : Parser AsmOperand := do
  let pos ← place
  let name ← asmName
  let constraint ← expectAs stringText? "operand constraint"
  expect (.punct .leftParen) "'('"
  let value ← nested.expression
  expect (.punct .rightParen) "')'"
  pure (.mk pos name constraint value)

def asmOperands (nested : Nested) : Parser (List AsmOperand) := do
  match ← peek with
  | some (.string _) | some (.punct .leftBracket) => do
    let first ← asmOperand nested
    repeated
      (fun read => do
        if ← accept (.punct .comma) then
          let operand ← asmOperand nested
          pure (some (read ++ [operand]))
        else pure none)
      [first]
  | _ => pure []

/-- What follows the template of inline assembly: operands written, operands read, and clobbers. -/
def asmSections (nested : Nested) : Parser (List AsmOperand × List AsmOperand × List String) := do
  if ← accept (.punct .colon) then
    let outputs ← asmOperands nested
    if ← accept (.punct .colon) then
      let inputs ← asmOperands nested
      if ← accept (.punct .colon) then
        let clobbered ← clobbers
        pure (outputs, inputs, clobbered)
      else pure (outputs, inputs, [])
    else pure (outputs, [], [])
  else pure ([], [], [])

def assembly (nested : Nested) (pos : Pos) : Parser Expr := do
  let isVolatile ← accept (.keyword .volatileKw)
  expect (.punct .leftParen) "'(' after __asm"
  let first ← expectAs stringText? "assembler template"
  let more ← ofTokens templateLines
  let (outputs, inputs, clobbered) ← asmSections nested
  expect (.punct .rightParen) "')'"
  pure (.assembly pos (first :: more) outputs inputs clobbered isVolatile)

def primary (nested : Nested) : Parser Expr := do
  match ← peek with
  | some (.string _) | some (.punct .hash) => strings
  | some (.number text) => number text
  | some (.character text) => do
    let pos ← place
    skip
    pure (.character pos text)
  | some (.name _) => do
    let pos ← place
    let name ← ident
    pure (.name pos name)
  | some (.punct .leftParen) => do
    skip
    let e ← nested.expression
    expect (.punct .rightParen) "')'"
    pure e
  | next => mismatch (.unexpectedToken ((next.map Lexeme.text).getD (foundText [])) "expression")

def isClosed : Expr → Bool
  | .number _ _ | .string _ _ | .character _ _ | .stringify _ _ | .concat _ _ => true
  | _ => false

def opensAssembly : Expr → Bool
  | .name _ (.simple _ name) => isAssemblyWord name
  | _ => false

def postfixed (nested : Nested) : Parser Expr := do
  let e ← primary nested
  if isClosed e then pure e
  else if opensAssembly e then do
    match ← attempt (assembly nested e.pos) with
    | some result => pure result
    | none => chain nested e
  else chain nested e

/-- Casts, addresses and operators in front of their operand. A parenthesis is tried as a cast first. -/
def prefixed (nested : Nested) : Parser Expr := do
  match ← peek with
  | some (.punct .leftParen) => do
    match ← attempt (cast nested) with
    | some e => pure e
    | none => postfixed nested
  | some (.punct .ampersand) => do
    let pos ← place
    skip
    let operand ← nested.operand
    pure (.addressOf pos operand)
  | next =>
    match next.bind prefixOp? with
    | some op => do
      let pos ← place
      skip
      let operand ← nested.operand
      pure (.unary pos op .before operand)
    | none => postfixed nested

def leftChain (op? : Lexeme → Option BinaryOp) (operand : Parser Expr) : Parser Expr := do
  let first ← operand
  repeated
    (fun left => do
      match ← acceptAs op? with
      | some op => do
        let right ← operand
        pure (some (.binary left.pos op left right))
      | none => pure none)
    first

def multiplicative (nested : Nested) : Parser Expr :=
  leftChain multiplicativeOp? (prefixed nested)

def additive (nested : Nested) : Parser Expr :=
  leftChain additiveOp? (multiplicative nested)

def shift (nested : Nested) : Parser Expr :=
  leftChain shiftOp? (additive nested)

def relational (nested : Nested) : Parser Expr :=
  leftChain relationalOp? (shift nested)

def equality (nested : Nested) : Parser Expr :=
  leftChain equalityOp? (relational nested)

def conditional (nested : Nested) : Parser Expr := do
  let condition ← equality nested
  if ← accept (.punct .question) then
    let whenTrue ← nested.conditional
    expect (.punct .colon) "':'"
    let whenFalse ← nested.conditional
    pure (.ternary condition.pos condition whenTrue whenFalse)
  else pure condition

/-- An expression. Assignments in a row belong together to the left. -/
def expression (nested : Nested) : Parser Expr := do
  let first ← conditional nested
  repeated
    (fun target => do
      match ← acceptAs assignOp? with
      | some op => do
        let value ← nested.conditional
        pure (some (.assign target.pos op target value))
      | none => pure none)
    first

end Parser

end MacroLift
