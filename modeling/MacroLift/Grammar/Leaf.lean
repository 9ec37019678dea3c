import MacroLift.Grammar.Parser

namespace MacroLift.Parser

def pastedNames : List Token → List String × List Token
  | ⟨.punct .paste, _⟩ :: ⟨.name text, _⟩ :: rest =>
    let (more, after) := pastedNames rest
    (text :: more, after)
  | ts => ([], ts)

def ident : Parser Ident :=
  ofTokens fun setting ts =>
    match ts with
    | ⟨.name text, pos⟩ :: rest =>
      match pastedNames rest with
      | ([], _) => .ok (.simple pos text, rest)
      | (more, after) => .ok (.pasted pos (text :: more), after)
    | _ => .error (failureAt setting ts (.unexpectedToken (foundText ts) "identifier"))

def dropConst : List Token → List Token
  | ⟨.keyword .constKw, _⟩ :: rest => dropConst rest
  | ts => ts

/-- The pointer levels behind a type. A `const` belongs to the level it follows; behind the name it says
    nothing. -/
def pointerLevels : CType → List Token → CType × List Token
  | type, ⟨.punct .star, pos⟩ :: rest => pointerLevels (.pointer pos type true) rest
  | .pointer pos pointee _, ⟨.keyword .constKw, _⟩ :: rest => pointerLevels (.pointer pos pointee false) rest
  | .named pos name isStruct, ⟨.keyword .constKw, _⟩ :: rest => pointerLevels (.named pos name isStruct) rest
  | type, ts => (type, ts)

def ctype : Parser CType := do
  let pos ← place
  ofTokens fun _ ts => .ok ((), dropConst ts)
  if (← peek) = some (.keyword .unionKw) then mismatch (.missingToken "type")
  let isStruct ← accept (.keyword .structKw)
  let name ← ident
  ofTokens fun _ ts => .ok (pointerLevels (.named pos name isStruct) ts)

def stringPieces (setting : Setting) : List Token → Except Failure (List Expr × List Token)
  | ⟨.string text, pos⟩ :: rest =>
    (stringPieces setting rest).map fun (pieces, after) => (.string pos text :: pieces, after)
  | ⟨.punct .hash, pos⟩ :: ⟨.name text, namePos⟩ :: rest =>
    (stringPieces setting rest).map fun (pieces, after) =>
      (.stringify pos (.simple namePos text) :: pieces, after)
  | ⟨.punct .hash, _⟩ :: rest => .error (mismatchAt setting rest (.missingToken "parameter name after '#'"))
  | ts => .ok ([], ts)

def strings : Parser Expr := do
  match ← ofTokens stringPieces with
  | [piece] => pure piece
  | pieces => do
    let pos := (pieces.head?.map Expr.pos).getD ⟨0, 0⟩
    pure (.concat pos pieces)

def pastedSuffixes : Marks → List Token → Marks × List Token
  | marks, ⟨.punct .paste, pastePos⟩ :: ⟨.name text, namePos⟩ :: rest =>
    match marks.merge? text with
    | some merged => pastedSuffixes merged rest
    | none => (marks, ⟨.punct .paste, pastePos⟩ :: ⟨.name text, namePos⟩ :: rest)
  | marks, ts => (marks, ts)

def number (text : String) : Parser Expr := do
  let pos ← place
  skip
  match Number.ofText? text with
  | none => failAt (.invalidNumber text) pos
  | some value =>
    if value.isFloat then pure (.number pos value)
    else do
      let marks ← ofTokens fun _ ts => .ok (pastedSuffixes value.marks ts)
      pure (.number pos { value with marks })

def templateLines (setting : Setting) : List Token → Except Failure (List String × List Token)
  | ⟨.string text, _⟩ :: rest =>
    (templateLines setting rest).map fun (more, after) => (text :: more, after)
  | ⟨.punct .comma, _⟩ :: ⟨.string text, _⟩ :: rest =>
    (templateLines setting rest).map fun (more, after) => (text :: more, after)
  | ⟨.punct .comma, _⟩ :: rest => .error (mismatchAt setting rest (.missingToken "assembler template"))
  | ts => .ok ([], ts)

def moreClobbers (setting : Setting) : List Token → Except Failure (List String × List Token)
  | ⟨.punct .comma, _⟩ :: ⟨.string text, _⟩ :: rest =>
    (moreClobbers setting rest).map fun (more, after) => (text :: more, after)
  | ⟨.punct .comma, _⟩ :: rest => .error (mismatchAt setting rest (.missingToken "clobber"))
  | ts => .ok ([], ts)

def clobbers : Parser (List String) := do
  match ← acceptAs stringText? with
  | none => pure []
  | some first => do
    let more ← ofTokens moreClobbers
    pure (first :: more)

end MacroLift.Parser
