namespace MacroLift

inductive IntegerSize where
  | long
  | longLong
  | size
  deriving Repr, DecidableEq

def IntegerSize.spelling : IntegerSize → String
  | .long => "l"
  | .longLong => "ll"
  | .size => "z"

structure Marks where
  isUnsigned : Bool
  size : Option IntegerSize
  deriving Repr, DecidableEq

def dropFinalNewline (text : List Char) : List Char :=
  if text.getLast? = some '\n' then text.dropLast else text

namespace Marks

def plain : Marks := ⟨false, none⟩

def isUnsignedMark (c : Char) : Bool :=
  c == 'u' || c == 'U'

def splitSize? : List Char → Option (IntegerSize × List Char)
  | 'l' :: 'l' :: rest | 'L' :: 'L' :: rest => some (.longLong, rest)
  | 'l' :: rest | 'L' :: rest => some (.long, rest)
  | 'z' :: rest | 'Z' :: rest => some (.size, rest)
  | _ => none

def ofLetters? : List Char → Option Marks
  | [] => some plain
  | c :: rest =>
    if isUnsignedMark c then
      match rest with
      | [] => some ⟨true, none⟩
      | _ =>
        match splitSize? rest with
        | some (mark, []) => some ⟨true, some mark⟩
        | _ => none
    else
      match splitSize? (c :: rest) with
      | some (mark, []) => some ⟨false, some mark⟩
      | some (mark, [d]) => if isUnsignedMark d then some ⟨true, some mark⟩ else none
      | _ => none

def ofSuffix? (suffix : List Char) : Option Marks :=
  ofLetters? (dropFinalNewline suffix)

/-- Both lists of marks in one, unless a mark would stand there twice. -/
def join? (first second : Marks) : Option Marks :=
  if second.isUnsigned && first.isUnsigned then none
  else if second.size.isSome && first.size.isSome then none
  else some ⟨first.isUnsigned || second.isUnsigned, first.size.or second.size⟩

def merge? (marks : Marks) (suffix : String) : Option Marks :=
  match suffix.toList with
  | [] => none
  | text => (ofSuffix? text).bind marks.join?

end Marks

end MacroLift
