import MacroLift.Text.Quoted
import MacroLift.Token.Scan
import MacroLift.Tree.Basic

namespace MacroLift

inductive Branch where
  | general
  | lexical
  | syntactic
  deriving Repr, DecidableEq

inductive Slot where
  | expression
  | statement
  deriving Repr, DecidableEq

def Slot.text : Slot → String
  | .expression => "expression"
  | .statement => "statement"

def Placeholder.text (location : Location) : Placeholder → String
  | .node => "ASTNode@" ++ toString location.pos.line ++ ":" ++ toString location.pos.column
  | .expression => "Expression(" ++ shown ++ ")"
  | .statement => "Statement(" ++ shown ++ ")"
where
  shown : String :=
    "location=SourceLocation(filename=" ++ Text.quoted location.file ++ ", line=" ++
      toString location.pos.line ++ ", column=" ++ toString location.pos.column ++ ")"

inductive Cause where
  | invalidCharacter (c : Char)
  | unterminatedLiteral (quote : String)
  | unterminatedComment
  /-- A token that continues nothing. The expectation is empty when there is none. -/
  | unexpectedToken (found expected : String)
  | missingToken (expected : String)
  | invalidNumber (text : String)
  | unsupported (construct : String)
  | unrenderable (slot : Slot) (kind : Placeholder) (location : Location)
  | stated (branch : Branch) (message : String) (hint : Option String)
  deriving Repr, DecidableEq

namespace Cause

def upperHex (n : Nat) : String :=
  String.ofList (((Nat.toDigits 16 n).map Char.toUpper).leftpad 2 '0')

def message : Cause → String
  | .invalidCharacter c => "invalid character '" ++ String.singleton c ++ "' (0x" ++ upperHex c.toNat ++ ")"
  | .unterminatedLiteral quote =>
    if quote = "\"" then "unterminated string literal" else "unterminated character literal"
  | .unterminatedComment => "unterminated multi-line comment"
  | .unexpectedToken found _ => "unexpected token '" ++ found ++ "'"
  | .missingToken expected => "expected " ++ expected
  | .invalidNumber text => "invalid numeric literal '" ++ text ++ "'"
  | .unsupported construct => "unsupported construct: " ++ construct
  | .unrenderable slot kind location => "cannot render " ++ slot.text ++ " " ++ kind.text location
  | .stated _ message _ => message

def hint : Cause → String
  | .unterminatedLiteral quote => "add closing '" ++ quote ++ "' to complete the literal"
  | .unterminatedComment => "add closing */ to terminate the comment"
  | .unexpectedToken _ expected => if expected.isEmpty then "" else "expected " ++ expected
  | .unsupported _ => "exclude this macro with the name denylist"
  | .stated _ _ hint => hint.getD ""
  | _ => ""

end Cause

def LexicalFault.cause : LexicalFault → Cause
  | .invalidCharacter c => .invalidCharacter c
  | .unterminatedLiteral quote => .unterminatedLiteral (String.singleton quote)
  | .unterminatedComment => .unterminatedComment

structure Diagnostic where
  cause : Cause
  location : Option Location
  sourceLine : Option String
  deriving Repr, DecidableEq

namespace Diagnostic

/-- The line in question, and under it a mark at a column, if there is such a column. -/
def excerpt (line : String) (column : Int) : List String :=
  ("    " ++ line) ::
    if 0 < column then [String.ofList (List.replicate (3 + column.toNat) ' ') ++ "^"] else []

def textLines (d : Diagnostic) : List String :=
  (match d.location with
    | some location => location.text ++ ": error: " ++ d.cause.message
    | none => "error: " ++ d.cause.message) ::
  ((match d.location, d.sourceLine with
    | some location, some line => excerpt line location.pos.column
    | _, _ => []) ++
  if d.cause.hint.isEmpty then [] else ["hint: " ++ d.cause.hint])

def text (d : Diagnostic) : String :=
  "\n".intercalate d.textLines

end Diagnostic

end MacroLift
