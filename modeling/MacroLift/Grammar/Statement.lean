import MacroLift.Grammar.Expression

namespace MacroLift

namespace Parser

def blockBody (nested : Nested) : Parser (List Stmt) :=
  repeated
    (fun read => do
      match ← peek with
      | none | some (.punct .rightBrace) => pure none
      | _ => do
        let statement ← nested.statement
        pure (some (read ++ [statement])))
    []

def block (nested : Nested) : Parser Stmt := do
  let pos ← place
  expect (.punct .leftBrace) "'\x7b'"
  let body ← blockBody nested
  expect (.punct .rightBrace) "'\x7d'"
  pure (.block pos body)

def branchOf : Stmt → List Stmt
  | .block _ body => body
  | statement => [statement]

def branch (nested : Nested) : Parser (List Stmt) := do
  let statement ← nested.statement
  pure (branchOf statement)

def condition (nested : Nested) : Parser Expr := do
  expect (.punct .leftParen) "'('"
  let e ← nested.expression
  expect (.punct .rightParen) "')'"
  pure e

def choice (nested : Nested) : Parser Stmt := do
  let pos ← place
  skip
  let test ← condition nested
  let whenTrue ← branch nested
  if ← accept (.keyword .elseKw) then
    let whenFalse ← branch nested
    pure (.choice pos test whenTrue whenFalse)
  else pure (.choice pos test whenTrue [])

/-- A loop that runs before it tests. The semicolon behind it is left out where a macro's caller writes it. -/
def loop (nested : Nested) : Parser Stmt := do
  let pos ← place
  skip
  let body ← branch nested
  expect (.keyword .whileKw) "'while'"
  let test ← condition nested
  let _ ← accept (.punct .semicolon)
  pure (.loop pos body test)

def declaration (nested : Nested) : Parser Stmt := do
  let pos ← place
  let isStaticBefore ← accept (.keyword .staticKw)
  let type ← ctype
  let isStatic ← if isStaticBefore then pure true else accept (.keyword .staticKw)
  let name ← ident
  expect (.punct .assign) "'=' in declaration"
  let value ← nested.expression
  expect (.punct .semicolon) "';'"
  pure (.declare pos type name value isStatic)

def evaluation (nested : Nested) : Parser Stmt := do
  let e ← expression nested
  expect (.punct .semicolon) "';'"
  pure (.eval e.pos e)

/-- A statement. What opens with no keyword and no brace is tried as a declaration first. -/
def statement (nested : Nested) : Parser Stmt := do
  match ← peek with
  | some (.punct .leftBrace) => block nested
  | some (.keyword .ifKw) => choice nested
  | some (.keyword .doKw) => loop nested
  | _ => do
    match ← attempt (declaration nested) with
    | some result => pure result
    | none => evaluation nested

end Parser

namespace Nested

def nothing : Nested where
  statement := Parser.mismatch (.unexpectedToken (Parser.foundText []) "expression")
  expression := Parser.mismatch (.unexpectedToken (Parser.foundText []) "expression")
  conditional := Parser.mismatch (.unexpectedToken (Parser.foundText []) "expression")
  operand := Parser.mismatch (.unexpectedToken (Parser.foundText []) "expression")

def level (inner : Nested) : Nested where
  statement := Parser.statement inner
  expression := Parser.expression inner
  conditional := Parser.conditional inner
  operand := Parser.prefixed inner

/-- The grammar for texts of at most so many tokens: what is nested has at least one token less. -/
def forTokens : Nat → Nested
  | 0 => nothing
  | n + 1 => level (forTokens n)

end Nested

end MacroLift
