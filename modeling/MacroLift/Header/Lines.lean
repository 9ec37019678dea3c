import MacroLift.Text.Blank
import MacroLift.Text.Lines

namespace MacroLift.Header

/-- Physical lines that belong together, without the backslashes that join them, and the number of the
    first. There is always one. -/
structure LogicalLine where
  number : Nat
  first : List Char
  more : List (List Char)
  deriving Repr, DecidableEq

def LogicalLine.lines (line : LogicalLine) : List (List Char) :=
  line.first :: line.more

/-- What a physical line contributes if the next line belongs to it: all before its last backslash. Blanks
    may stand behind that. -/
def continued? (line : List Char) : Option (List Char) :=
  if (Text.trimEnd line).getLast? = some '\\' then some (Text.trimEnd line).dropLast else none

def logicalLines : Nat → List (List Char) → List LogicalLine
  | _, [] => []
  | number, line :: rest =>
    match continued? line with
    | none => ⟨number, line, []⟩ :: logicalLines (number + 1) rest
    | some kept =>
      match logicalLines (number + 1) rest with
      | [] => [⟨number, kept, []⟩]
      | next :: others => ⟨number, kept, next.lines⟩ :: others

end MacroLift.Header
