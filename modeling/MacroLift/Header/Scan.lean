import MacroLift.Header.Definition
import MacroLift.Header.Lines
import MacroLift.Text.Affix
import MacroLift.Text.WordChar
import MacroLift.Token.Gap

namespace MacroLift.Header

def isNameStart (c : Char) : Bool :=
  c.isAlpha || c == '_'

def dropStart? (start text : List Char) : Option (List Char) :=
  if start.isPrefixOf text then some (text.drop start.length) else none

def dropBlanks? (text : List Char) : Option (List Char) :=
  if text.head?.any Text.isBlank then some (text.dropWhile Text.isBlank) else none

def splitName? (text : List Char) : Option (List Char × List Char) :=
  if text.head?.any isNameStart then some (text.takeWhile Text.isWordChar, text.dropWhile Text.isWordChar)
  else none

def splitParameters? (text : List Char) : Option (List Char × List Char) :=
  match text.dropWhile (· != ')') with
  | [] => none
  | _ :: rest => some (text.takeWhile (· != ')'), rest)

/-- The name, the parameters and the first line of the body, if a line defines a function-like macro: the
    parenthesis has to follow the name at once. -/
def directive? (line : List Char) : Option (List Char × List Char × List Char) := do
  let afterHash ← dropStart? ['#'] (line.dropWhile Text.isBlank)
  let afterWord ← dropStart? ['d', 'e', 'f', 'i', 'n', 'e'] (afterHash.dropWhile Text.isBlank)
  let atName ← dropBlanks? afterWord
  let (name, afterName) ← splitName? atName
  let atParameters ← dropStart? ['('] afterName
  let (parameters, body) ← splitParameters? atParameters
  pure (name, parameters, body)

def removeComments : List Char → List Char
  | '/' :: '*' :: rest =>
    match _closed : Gap.closeComment? rest with
    | some (_, after) => removeComments after
    | none => '/' :: '*' :: rest
  | c :: rest => c :: removeComments rest
  | [] => []
  termination_by text => text.length
  decreasing_by
    all_goals simp only [List.length_cons]
    · have whole := Gap.length_of_closeComment? _closed
      omega
    · omega

def opensComment (lines : List (List Char)) : Bool :=
  Text.occursIn ['/', '*'] (removeComments ([' '].intercalate lines))

/-- A text up to the first opening of a comment that nothing behind it closes, and whether there is one. -/
def cutOpenComment : List Char → List Char × Bool
  | [] => ([], false)
  | '/' :: '*' :: rest =>
    if (Gap.closeComment? rest).isNone then ([], true)
    else
      let (kept, opened) := cutOpenComment ('*' :: rest)
      ('/' :: kept, opened)
  | c :: rest =>
    let (kept, opened) := cutOpenComment rest
    (c :: kept, opened)

def dropEmptyEnds (lines : List (List Char)) : List (List Char) :=
  ((lines.reverse.dropWhile List.isEmpty).reverse).dropWhile List.isEmpty

def bodyLines (lines : List (List Char)) : List (List Char) × Bool :=
  let (kept, opened) := cutOpenComment (['\n'].intercalate lines)
  (dropEmptyEnds ((Text.pieces kept).map Text.trim), opened)

def afterComment? (line : List Char) : Option (List Char) :=
  (Gap.closeComment? line).map Prod.snd

/-- What a logical line whose first line starts with `first`, outside comments, defines, and whether a
    comment is open behind it. -/
def readLine (file : String) (line : LogicalLine) (first : List Char) : Option Definition × Bool :=
  match directive? first with
  | none => (none, opensComment (first :: line.more))
  | some (name, parameters, bodyStart) =>
    let (body, opened) := bodyLines (bodyStart :: line.more)
    (some
      ⟨String.ofList name, String.ofList (Text.trim parameters), body.map String.ofList,
        some ⟨file, ⟨line.number, 1⟩⟩⟩,
      opened)

def definitionsFrom (file : String) : Bool → List LogicalLine → List Definition
  | _, [] => []
  | inComment, line :: rest =>
    match if inComment then afterComment? line.first else some line.first with
    | none => definitionsFrom file true rest
    | some first =>
      let (found, opened) := readLine file line first
      found.toList ++ definitionsFrom file opened rest

def definitions (text file : String) : List Definition :=
  definitionsFrom file false (logicalLines 1 (Text.lines text.toList))

end MacroLift.Header
