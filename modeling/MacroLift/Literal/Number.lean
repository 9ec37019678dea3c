import MacroLift.Literal.Suffix

namespace MacroLift

structure Number where
  text : String
  marks : Marks
  isFloat : Bool
  deriving Repr, DecidableEq

namespace Number

def isBinaryDigit (c : Char) : Bool :=
  c == '0' || c == '1'

def isOctalDigit (c : Char) : Bool :=
  '0' ≤ c && c ≤ '7'

def isHexDigit (c : Char) : Bool :=
  c.isDigit || ('a' ≤ c && c ≤ 'f') || ('A' ≤ c && c ≤ 'F')

def withSuffix? (value suffix : List Char) : Option Number :=
  (Marks.ofSuffix? suffix).map fun marks => ⟨String.ofList value, marks, false⟩

def based? (mark : List Char) (isBaseDigit : Char → Bool) (text : List Char) : Option Number :=
  if (text.takeWhile isBaseDigit).isEmpty then none
  else withSuffix? (mark ++ text.takeWhile isBaseDigit) (text.dropWhile isBaseDigit)

/-- The integer literal that a text is. A zero in front of a digit means base eight. -/
def integer? : List Char → Option Number
  | [] => none
  | '0' :: c :: rest =>
    if c = 'x' ∨ c = 'X' then based? ['0', 'x'] isHexDigit rest
    else if c = 'b' ∨ c = 'B' then based? ['0', 'b'] isBinaryDigit rest
    else if isOctalDigit c then based? ['0', 'o'] isOctalDigit (c :: rest)
    else withSuffix? ['0'] (c :: rest)
  | c :: rest => based? [] Char.isDigit (c :: rest)

def isExponentMark (c : Char) : Bool :=
  c == 'e' || c == 'E'

def splitSign : List Char → List Char × List Char
  | '+' :: rest => (['+'], rest)
  | '-' :: rest => (['-'], rest)
  | rest => ([], rest)

def splitExponent : List Char → List Char × List Char
  | [] => ([], [])
  | mark :: rest =>
    let (sign, digits) := splitSign rest
    if isExponentMark mark && !(digits.takeWhile Char.isDigit).isEmpty then
      (mark :: sign ++ digits.takeWhile Char.isDigit, digits.dropWhile Char.isDigit)
    else ([], mark :: rest)

def isFloatSuffix : List Char → Bool
  | [] => true
  | [c] => c == 'f' || c == 'F' || c == 'l' || c == 'L'
  | _ => false

def floating (value : List Char) : Number :=
  ⟨String.ofList value, Marks.plain, true⟩

/-- The floating literal that a text without a final newline is: with a point, with an exponent, or with
    neither and the suffix `f`. The value gets a zero before a leading point and behind a final one. -/
def floatLetters? (text : List Char) : Option Number :=
  let whole := text.takeWhile Char.isDigit
  match text.dropWhile Char.isDigit with
  | '.' :: rest =>
    let fraction := rest.takeWhile Char.isDigit
    let (exponent, suffix) := splitExponent (rest.dropWhile Char.isDigit)
    if (whole.isEmpty && fraction.isEmpty) || !isFloatSuffix suffix then none
    else
      let lead := if whole.isEmpty then ['0'] else whole
      let trail := if fraction.isEmpty && exponent.isEmpty then ['0'] else []
      some (floating (lead ++ '.' :: fraction ++ exponent ++ trail))
  | rest =>
    if whole.isEmpty then none
    else
      match splitExponent rest with
      | ([], suffix) => if suffix = ['f'] ∨ suffix = ['F'] then some (floating (whole ++ ['.', '0'])) else none
      | (exponent, suffix) => if isFloatSuffix suffix then some (floating (whole ++ exponent)) else none

def ofText? (text : String) : Option Number :=
  match integer? text.toList with
  | some number => some number
  | none => floatLetters? (dropFinalNewline text.toList)

end Number

end MacroLift
