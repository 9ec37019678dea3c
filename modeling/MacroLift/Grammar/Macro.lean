import MacroLift.Grammar.Statement
import MacroLift.Text.Lines

namespace MacroLift

namespace Parser

/-- Parameter names with commas between them; the variadic mark can only come last. -/
def parameterNames (setting : Setting) : List Token → Except Failure (List String × List Token)
  | ⟨.punct .ellipsis, _⟩ :: rest => .ok ([variadicMark], rest)
  | ⟨.name text, _⟩ :: ⟨.punct .comma, _⟩ :: rest =>
    (parameterNames setting rest).map fun (more, after) => (text :: more, after)
  | ⟨.name text, _⟩ :: rest => .ok ([text], rest)
  | ts => .error (mismatchAt setting ts (.missingToken "parameter name"))

def signature : Parser Signature := do
  let pos ← place
  let name ← expectAs nameText? "macro name"
  expect (.punct .leftParen) "'(' after macro name"
  let parameters ←
    if (← peek) = some (.punct .rightParen) then pure [] else ofTokens parameterNames
  expect (.punct .rightParen) "')'"
  expectEnd
  pure ⟨pos, name, parameters⟩

def whole {α : Type} (p : Parser α) : Parser α := do
  let a ← p
  expectEnd
  pure a

/-- The failure to tell when both readings of a body have failed: the one that got further, unless an
    unsupported construct was met there or behind it. -/
def bodyFailure (first second : Failure) (met : Option Failure) : Failure :=
  let furthest := first.further second
  match met with
  | some construct => if construct.pos < furthest.pos then furthest else construct
  | none => furthest

/-- A macro body: empty, a statement, or an expression, tried in this order. C outside the grammar ends the
    search at once. -/
def body (setting : Setting) (ts : List Token) : Except Failure Body :=
  let grammar := Nested.forTokens ts.length
  let pos := placeOf setting ts
  if ts.isEmpty then .ok (.statement pos (.block pos []))
  else
    let asStatement := whole grammar.statement setting ts
    match asStatement.outcome with
    | .ok (value, _) => .ok (.statement pos value)
    | .error first =>
      if first.isUnsupported then .error first
      else
        let asExpression := whole grammar.expression setting ts
        match asExpression.outcome with
        | .ok (value, _) => .ok (.expression pos value)
        | .error second =>
          if second.isUnsupported then .error second
          else .error (bodyFailure first second (furthestMet asStatement.met asExpression.met))

end Parser

def lineAt? (lines : List String) (line : Int) : Option String :=
  if 0 < line then lines[(line - 1).toNat]? else none

def Failure.diagnostic (failure : Failure) (file : String) (lines : List String) : Diagnostic :=
  ⟨failure.cause, some ⟨file, failure.pos⟩, lineAt? lines failure.pos.line⟩

/-- A lexical fault with its place in a file and the line it stands on. Here only newlines end a line. -/
def LexicalFault.diagnostic (fault : LexicalFault) (pos : Pos) (file text : String) (firstLine : Int) :
    Diagnostic :=
  let lines := (Text.pieces text.toList).map String.ofList
  ⟨fault.cause, some ⟨file, pos⟩, lineAt? lines (pos.line - firstLine + 1)⟩

def tokenize (text file : String) (firstLine : Int) : Attempt Diagnostic Token.Stream :=
  match Token.Stream.ofText text firstLine with
  | .ok stream => .ok stream
  | .error (fault, pos) => .error (fault.diagnostic pos file text firstLine)
  | .endless => .endless

def Signature.ofText (text file : String) : Attempt Diagnostic Signature := do
  let stream ← tokenize text file 1
  match (Parser.signature ⟨stream.stop, []⟩ stream.tokens).outcome with
  | .ok (signature, _) => .ok signature
  | .error failure => .error (failure.diagnostic file (Text.stringLines text))

/-- Reads a body whose signature has these parameters. Faults of the grammar are shown on `lines`. -/
def Body.ofText (text file : String) (lines parameters : List String) : Attempt Diagnostic Body := do
  let stream ← tokenize text file 1
  match Parser.body ⟨stream.stop, parameters.map bindingName⟩ stream.tokens with
  | .ok body => .ok body
  | .error failure => .error (failure.diagnostic file lines)

def macroFile (name : String) : String :=
  "<macro " ++ name ++ ">"

end MacroLift
