import MacroLift.Rust.Tables
import MacroLift.Tree.Basic

namespace MacroLift

/-- How names are spelled: those that a pattern captures get a mark, and some values have another name. -/
structure Naming where
  captures : List String
  valueNames : List (String × String)
  deriving Repr

namespace Naming

def variadicReference : String :=
  "$($" ++ variadicName ++ "),*"

def variadicConversion : String :=
  "$($" ++ variadicName ++ ".into()),*"

def spell (naming : Naming) (name : String) : String :=
  if naming.captures.contains name then
    if name = variadicName then variadicReference else "$" ++ name
  else name

def ident (naming : Naming) : Ident → String
  | .simple _ name => naming.spell name
  | .pasted _ fragments =>
    "::core::concat_idents!(" ++ ", ".intercalate (fragments.map naming.spell) ++ ")"

/-- A name that stands for a value. What is captured is never called otherwise. -/
def value (naming : Naming) : Ident → String
  | .simple pos name =>
    if naming.captures.contains name then naming.ident (.simple pos name)
    else (naming.valueNames.lookup name).getD (naming.ident (.simple pos name))
  | name => naming.ident name

def type (naming : Naming) : CType → String
  | .pointer _ pointee isMutable => (if isMutable then "*mut " else "*const ") ++ naming.type pointee
  | .named _ (.simple pos name) _ => (Rust.typeNames.lookup name).getD (naming.ident (.simple pos name))
  | .named _ name _ => naming.ident name

end Naming

def CType.isVoid : CType → Bool
  | .named _ (.simple _ name) _ => name == "void"
  | _ => false

/-- Names among the arguments of a call are converted to what the function takes, all but the null pointer. -/
def Expr.isConvertible : Expr → Bool
  | .name _ (.simple _ text) => text != "NULL"
  | .name _ _ => true
  | _ => false

def argumentText (isConvertible : Bool) (text : String) : String :=
  if isConvertible then
    if text = Naming.variadicReference then Naming.variadicConversion else text ++ ".into()"
  else text

def unaryText (op : UnaryOp) (side : Side) (operand : String) : String :=
  match op, side with
  | .increment, .before | .decrement, .before => "\x7b " ++ operand ++ " -= 1; " ++ operand ++ " \x7d"
  | .increment, .after | .decrement, .after =>
    "\x7b let prev = " ++ operand ++ "; " ++ operand ++ " -= 1; prev \x7d"
  | .logicalNot, _ | .bitwiseNot, _ => "!" ++ operand
  | .negate, _ => "-" ++ operand
  | .plus, _ => operand

def memoryClobber : String := "\"memory\""

/-- Inline assembly without its operands. Memory is no register, but decides on an option. -/
def assemblyText (template clobbers : List String) : String :=
  let registers := clobbers.filter fun clobber => clobber != memoryClobber
  let option := if clobbers.contains memoryClobber then "options(raw)" else "options(raw, nomem)"
  "::core::arch::asm!(" ++
    ", ".intercalate
      (template ++ registers.map (fun clobber => "out(" ++ clobber ++ ") _") ++ ["clobber_abi(\"C\")", option]) ++
    ")"

mutual

/-- An expression in Rust. A placeholder has no text. -/
def Expr.render (naming : Naming) : Expr → String
  | .name _ ident => naming.value ident
  | .call _ callee arguments =>
    naming.ident callee ++ "(" ++ ", ".intercalate (renderArguments naming arguments) ++ ")"
  | .cast _ target operand =>
    if target.isVoid then "\x7b drop(" ++ operand.render naming ++ ") \x7d"
    else "(" ++ operand.render naming ++ " as " ++ naming.type target ++ ")"
  | .number _ value => value.text
  | .string _ text | .character _ text => text
  | .field _ operand name _ =>
    "Deref(unsafe \x7b &mut *::core::ptr::addr_of_mut!((*" ++ operand.render naming ++ ")." ++
      naming.ident name ++ ") \x7d).convert()"
  | .stringify _ name => "::core::stringify!(" ++ naming.ident name ++ ")"
  | .concat _ parts => "::core::concat!(" ++ ", ".intercalate (renderExprs naming parts) ++ ")"
  | .unary _ op side operand => unaryText op side (operand.render naming)
  | .binary _ op left right =>
    "(" ++ left.render naming ++ " " ++ op.spelling ++ " " ++ right.render naming ++ ")"
  | .assign _ op target value =>
    "\x7b " ++ target.render naming ++ " " ++ op.spelling ++ " " ++ value.render naming ++ "; " ++
      target.render naming ++ " \x7d"
  | .ternary _ condition whenTrue whenFalse =>
    "if " ++ condition.render naming ++ " \x7b " ++ whenTrue.render naming ++ " \x7d else \x7b " ++
      whenFalse.render naming ++ " \x7d"
  | .addressOf _ operand => "::core::ptr::addr_of_mut!(" ++ operand.render naming ++ ")"
  | .assembly _ template _ _ clobbers _ => assemblyText template clobbers
  | .placeholder _ _ => ""

def renderExprs (naming : Naming) : List Expr → List String
  | [] => []
  | e :: es => e.render naming :: renderExprs naming es

def renderArguments (naming : Naming) : List Expr → List String
  | [] => []
  | e :: es => argumentText e.isConvertible (e.render naming) :: renderArguments naming es

end

mutual

def Expr.placeholder? : Expr → Option (Placeholder × Pos)
  | .name _ _ | .number _ _ | .string _ _ | .character _ _ | .stringify _ _ | .assembly _ _ _ _ _ _ => none
  | .call _ _ arguments => placeholderOfExprs? arguments
  | .cast _ _ operand | .field _ operand _ _ | .unary _ _ _ operand | .addressOf _ operand =>
    operand.placeholder?
  | .concat _ parts => placeholderOfExprs? parts
  | .binary _ _ left right => left.placeholder?.or right.placeholder?
  | .assign _ _ target value => target.placeholder?.or value.placeholder?
  | .ternary _ condition whenTrue whenFalse =>
    (condition.placeholder?.or whenTrue.placeholder?).or whenFalse.placeholder?
  | .placeholder pos kind => some (kind, pos)

def placeholderOfExprs? : List Expr → Option (Placeholder × Pos)
  | [] => none
  | e :: es => e.placeholder?.or (placeholderOfExprs? es)

end

end MacroLift
