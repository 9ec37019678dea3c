import MacroLift.Diagnostic.Basic

namespace MacroLift

structure Failure where
  cause : Cause
  pos : Pos
  deriving Repr, DecidableEq

def Failure.isUnsupported (failure : Failure) : Bool :=
  match failure.cause with
  | .unsupported _ => true
  | _ => false

structure Setting where
  stop : Pos
  parameters : List String
  deriving Repr

/-- What a parser answers: a value and the tokens left, or a failure, together with the furthest unsupported
    construct among the alternatives given up on the way. -/
structure Reply (α : Type) where
  outcome : Except Failure (α × List Token)
  met : Option Failure

def Failure.further (first second : Failure) : Failure :=
  if first.pos < second.pos then second else first

def furthestMet (first second : Option Failure) : Option Failure :=
  match first, second with
  | some first, some second => some (first.further second)
  | first, none => first
  | none, second => second

def Parser (α : Type) : Type :=
  Setting → List Token → Reply α

namespace Parser

variable {α β : Type}

protected def pure (a : α) : Parser α :=
  fun _ ts => ⟨.ok (a, ts), none⟩

protected def bind (p : Parser α) (f : α → Parser β) : Parser β :=
  fun setting ts =>
    match p setting ts with
    | ⟨.ok (a, rest), met⟩ =>
      let reply := f a setting rest
      ⟨reply.outcome, furthestMet met reply.met⟩
    | ⟨.error failure, met⟩ => ⟨.error failure, met⟩

instance : Monad Parser where
  pure := Parser.pure
  bind := Parser.bind

def placeOf (setting : Setting) : List Token → Pos
  | [] => setting.stop
  | t :: _ => t.pos

/-- The construct that a lexeme belongs to wherever it cannot be read otherwise, if the grammar has none. -/
def unsupported? : Lexeme → Option String
  | .punct .ampersand => some "bitwise operator '&'"
  | .punct .pipe => some "bitwise operator '|'"
  | .punct .caret => some "bitwise operator '^'"
  | .punct .logicalAnd => some "logical operator '&&'"
  | .punct .logicalOr => some "logical operator '||'"
  | .punct .percent => some "remainder operator '%'"
  | .punct .leftBracket | .punct .rightBracket => some "array subscript"
  | .keyword .unionKw => some "union type"
  | _ => none

def foundText : List Token → String
  | [] => "end of macro"
  | t :: _ => t.lexeme.text

def failureAt (setting : Setting) (ts : List Token) (cause : Cause) : Failure :=
  ⟨cause, placeOf setting ts⟩

/-- The failure at the front of a list of tokens, unless the token there is unsupported: then that is
    what fails. -/
def mismatchAt (setting : Setting) (ts : List Token) (cause : Cause) : Failure :=
  match ts.head?.bind fun t => unsupported? t.lexeme with
  | some construct => failureAt setting ts (.unsupported construct)
  | none => failureAt setting ts cause

def failAt (cause : Cause) (pos : Pos) : Parser α :=
  fun _ _ => ⟨.error ⟨cause, pos⟩, none⟩

def mismatch (cause : Cause) : Parser α :=
  fun setting ts => ⟨.error (mismatchAt setting ts cause), none⟩

def ofTokens (read : Setting → List Token → Except Failure (α × List Token)) : Parser α :=
  fun setting ts => ⟨read setting ts, none⟩

def peek : Parser (Option Lexeme) :=
  fun _ ts => ⟨.ok (ts.head?.map Token.lexeme, ts), none⟩

def place : Parser Pos :=
  fun setting ts => ⟨.ok (placeOf setting ts, ts), none⟩

def skip : Parser Unit :=
  fun _ ts => ⟨.ok ((), ts.tail), none⟩

def accept (lexeme : Lexeme) : Parser Bool :=
  fun _ ts =>
    match ts with
    | t :: rest => if t.lexeme = lexeme then ⟨.ok (true, rest), none⟩ else ⟨.ok (false, t :: rest), none⟩
    | [] => ⟨.ok (false, []), none⟩

def acceptAs (meaning? : Lexeme → Option α) : Parser (Option α) :=
  fun _ ts =>
    match ts with
    | t :: rest =>
      match meaning? t.lexeme with
      | some a => ⟨.ok (some a, rest), none⟩
      | none => ⟨.ok (none, t :: rest), none⟩
    | [] => ⟨.ok (none, []), none⟩

def expect (lexeme : Lexeme) (description : String) : Parser Unit := do
  unless ← accept lexeme do mismatch (.missingToken description)

def nameText? : Lexeme → Option String
  | .name text => some text
  | _ => none

def stringText? : Lexeme → Option String
  | .string text => some text
  | _ => none

def expectAs (meaning? : Lexeme → Option α) (description : String) : Parser α := do
  match ← acceptAs meaning? with
  | some a => pure a
  | none => mismatch (.missingToken description)

def expectEnd : Parser Unit :=
  fun setting ts =>
    match ts with
    | [] => ⟨.ok ((), []), none⟩
    | _ => ⟨.error (mismatchAt setting ts (.unexpectedToken (foundText ts) "end of macro")), none⟩

def attempt (p : Parser α) : Parser (Option α) :=
  fun setting ts =>
    match p setting ts with
    | ⟨.ok (a, rest), met⟩ => ⟨.ok (some a, rest), met⟩
    | ⟨.error failure, met⟩ =>
      ⟨.ok (none, ts), furthestMet met (if failure.isUnsupported then some failure else none)⟩

def repeatAtMost (step : α → Parser (Option α)) : Nat → α → Parser α
  | 0, a => pure a
  | n + 1, a => do
    match ← step a with
    | some b => repeatAtMost step n b
    | none => pure a

/-- Repeats a step until it declines. A step takes a token or declines, so there are no more of them than
    tokens. -/
def repeated (step : α → Parser (Option α)) (a : α) : Parser α :=
  fun setting ts => repeatAtMost step ts.length a setting ts

end Parser

end MacroLift
