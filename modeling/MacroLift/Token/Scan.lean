import MacroLift.Attempt
import MacroLift.Text.DigitChar
import MacroLift.Token.Basic
import MacroLift.Token.Gap

namespace MacroLift

inductive LexicalFault where
  | invalidCharacter (c : Char)
  | unterminatedLiteral (quote : Char)
  | unterminatedComment
  deriving Repr, DecidableEq

namespace Lexeme

def isNameStart (c : Char) : Bool :=
  c.isAlpha || c == '_'

def isNameChar (c : Char) : Bool :=
  c.isAlphanum || c == '_'

def isNumberChar (c : Char) : Bool :=
  c.isAlphanum || c == '_' || c == '.'

def isExponentMark (c : Char) : Bool :=
  c == 'e' || c == 'E'

def isSign (c : Char) : Bool :=
  c == '+' || c == '-'

/-- Whether a number starts here: a digit of any script, or a point and such a digit. -/
def startsNumber : List Char → Bool
  | '.' :: c :: _ => Text.isDigitChar c
  | c :: _ => Text.isDigitChar c
  | [] => false

def isHexNumber : List Char → Bool
  | '0' :: 'x' :: _ | '0' :: 'X' :: _ => true
  | _ => false

/-- Splits off a run of ASCII digits, letters, underscores and points. Unless the number is written in base
    sixteen, the sign behind an exponent mark belongs to it. -/
def splitNumber (hex : Bool) : List Char → List Char × List Char
  | [] => ([], [])
  | [c] => if isNumberChar c then ([c], []) else ([], [c])
  | c :: d :: rest =>
    if isNumberChar c then
      if !hex && isExponentMark c && isSign d then consume [c, d] (splitNumber hex rest)
      else consume [c] (splitNumber hex (d :: rest))
    else ([], c :: d :: rest)

/-- Splits a text behind its next free-standing quote. A backslash frees the character behind it; a newline
    that is not freed ends the search. -/
def splitQuoted? (quote : Char) : List Char → Option (List Char × List Char)
  | [] => none
  | c :: rest =>
    if c = quote then some ([c], rest)
    else if c = '\n' then none
    else if c = '\\' then
      match rest with
      | [] => none
      | d :: rest' => (splitQuoted? quote rest').map (consume [c, d])
    else (splitQuoted? quote rest).map (consume [c])

def scan (c : Char) (rest : List Char) : Except LexicalFault (Lexeme × List Char) :=
  if isNameStart c then
    .ok (.ofWord (String.ofList ((c :: rest).takeWhile isNameChar)), (c :: rest).dropWhile isNameChar)
  else if startsNumber (c :: rest) then
    let split := splitNumber (isHexNumber (c :: rest)) (c :: rest)
    .ok (.number (String.ofList split.1), split.2)
  else if c = '"' then
    match splitQuoted? c rest with
    | some (body, after) => .ok (.string (String.ofList (c :: body)), after)
    | none => .error (.unterminatedLiteral c)
  else if c = '\x27' then
    match splitQuoted? c rest with
    | some (body, after) => .ok (.character (String.ofList (c :: body)), after)
    | none => .error (.unterminatedLiteral c)
  else if ['/', '*'].isPrefixOf (c :: rest) then .error .unterminatedComment
  else
    match Punct.ofText? (c :: rest) with
    | some p => .ok (.punct p, (c :: rest).drop p.chars.length)
    | none => .error (.invalidCharacter c)

end Lexeme

namespace Token

structure Cursor where
  rest : List Char
  pos : Pos
  deriving Repr, DecidableEq

inductive Step where
  | token (t : Token) (next : Cursor)
  | stop (pos : Pos)
  | fault (cause : LexicalFault) (pos : Pos)
  deriving Repr, DecidableEq

def Cursor.step (cursor : Cursor) : Step :=
  let gap := Gap.split cursor.rest
  let pos := cursor.pos.after gap.1
  match gap.2 with
  | [] => .stop pos
  | c :: rest =>
    match Lexeme.scan c rest with
    | .error cause => .fault cause pos
    | .ok (lexeme, after) => .token ⟨lexeme, pos⟩ ⟨after, pos.after lexeme.text.toList⟩

inductive Ending where
  | more
  | stop (pos : Pos)
  | fault (cause : LexicalFault) (pos : Pos)
  deriving Repr, DecidableEq

def Cursor.take : Nat → Cursor → List Token × Ending
  | 0, _ => ([], .more)
  | limit + 1, cursor =>
    match cursor.step with
    | .token t next =>
      let (ts, ending) := next.take limit
      (t :: ts, ending)
    | .stop pos => ([], .stop pos)
    | .fault cause pos => ([], .fault cause pos)

structure Stream where
  tokens : List Token
  stop : Pos
  deriving Repr, DecidableEq

/-- All tokens from a cursor on. A token that leaves the text no shorter is read again and again. -/
def Cursor.readAll (cursor : Cursor) : Attempt (LexicalFault × Pos) Stream :=
  match cursor.step with
  | .stop pos => .ok ⟨[], pos⟩
  | .fault cause pos => .error (cause, pos)
  | .token t next =>
    if next.rest.length < cursor.rest.length then
      next.readAll.map fun stream => ⟨t :: stream.tokens, stream.stop⟩
    else .endless
  termination_by cursor.rest.length

def Stream.ofText (text : String) (line : Int) : Attempt (LexicalFault × Pos) Stream :=
  Cursor.readAll ⟨text.toList, ⟨line, 1⟩⟩

end Token

end MacroLift
