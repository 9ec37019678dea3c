import MacroLift.Diagnostic.Basic
import MacroLift.Rust.Expr
import MacroLift.Usage.Analysis

namespace MacroLift

def indentStep : String := "  "

def indented (lines : List String) : List String :=
  lines.map fun line => if line.isEmpty then line else indentStep ++ line

def declarationText (isStatic : Bool) (name type value : String) : String :=
  (if isStatic then "static mut " else "let mut ") ++ name ++ ": " ++ type ++ " = " ++ value ++ ";"

mutual

def Stmt.render (naming : Naming) : Stmt → List String
  | .eval _ value => [value.render naming ++ ";"]
  | .declare _ type name value isStatic =>
    [declarationText isStatic (naming.ident name) (naming.type type) (value.render naming)]
  | .block _ body => "\x7b" :: indented (renderStmts naming body) ++ ["\x7d"]
  | .choice _ condition whenTrue whenFalse =>
    ("if " ++ condition.render naming ++ " \x7b") :: indented (renderStmts naming whenTrue) ++
      (if whenFalse.isEmpty then [] else "\x7d else \x7b" :: indented (renderStmts naming whenFalse)) ++ ["\x7d"]
  | .loop _ body condition =>
    "loop \x7b" ::
      indented
        (renderStmts naming body ++
          ["if (" ++ condition.render naming ++ " as u8) == 0 \x7b", indentStep ++ "break;", "\x7d"]) ++
      ["\x7d"]
  | .placeholder _ _ => []

def renderStmts (naming : Naming) : List Stmt → List String
  | [] => []
  | s :: ss => s.render naming ++ renderStmts naming ss

end

def Expr.open? (e : Expr) : Option (Slot × Placeholder × Pos) :=
  e.placeholder?.map fun found => (.expression, found.1, found.2)

mutual

/-- The first placeholder that rendering a statement comes to, and what should stand there. The test of a
    loop is rendered before its body. -/
def Stmt.open? : Stmt → Option (Slot × Placeholder × Pos)
  | .eval _ value | .declare _ _ _ value _ => value.open?
  | .block _ body => openOfStmts? body
  | .choice _ condition whenTrue whenFalse =>
    (condition.open?.or (openOfStmts? whenTrue)).or (openOfStmts? whenFalse)
  | .loop _ body condition => condition.open?.or (openOfStmts? body)
  | .placeholder pos kind => some (.statement, kind, pos)

def openOfStmts? : List Stmt → Option (Slot × Placeholder × Pos)
  | [] => none
  | s :: ss => s.open?.or (openOfStmts? ss)

end

namespace Body

def render (naming : Naming) : Body → List String
  | .expression _ value | .both _ _ value => [value.render naming]
  | .statement _ (.block _ body) => renderStmts naming body
  | .statement _ value => value.render naming

def open? : Body → Option (Slot × Placeholder × Pos)
  | .expression _ value | .both _ _ value => value.open?
  | .statement _ value => value.open?

end Body

namespace Rust

def anyType : String := "_"

def known (type? : Option String) : Option String :=
  type?.filter fun type => !type.isEmpty

def capture (parameter : String) (usage : Usage) : String :=
  if bindingName parameter = variadicName then "$($" ++ variadicName ++ ":expr),*"
  else if usage = .identifier then "$" ++ bindingName parameter ++ ":ident"
  else "$" ++ bindingName parameter ++ ":expr"

def patternLines (tables : Tables) (analysis : Analysis) : List String :=
  let naming : Naming := ⟨analysis.parameters.map fun parameter => bindingName parameter.1, tables.valueNames⟩
  let captures := analysis.parameters.map fun parameter => capture parameter.1 parameter.2
  ["macro_rules! " ++ analysis.name ++ " \x7b",
   indentStep ++ "(" ++ ", ".intercalate captures ++ ") => \x7b"] ++
    indented (indented (analysis.body.render naming)) ++ [indentStep ++ "\x7d;", "\x7d"]

def functionHead (tables : Tables) (analysis : Analysis) : String :=
  let parameters := analysis.parameters.map fun parameter =>
    "mut " ++ parameter.1 ++ ": " ++ (known (tables.parameterType? analysis.name parameter.1)).getD anyType
  let result := ((known (tables.returnType? analysis.name)).map fun type => " -> " ++ type).getD ""
  "pub unsafe extern \"C\" fn " ++ analysis.name ++ "(" ++ ", ".intercalate parameters ++ ")" ++ result ++
    " \x7b"

def functionLines (tables : Tables) (analysis : Analysis) : List String :=
  ["#[allow(non_snake_case)]", "#[inline(always)]", functionHead tables analysis] ++
    indented (analysis.body.render ⟨[], tables.valueNames⟩) ++ ["\x7d"]

def item (tables : Tables) (analysis : Analysis) : String :=
  "\n".intercalate
    (if analysis.isPattern then patternLines tables analysis else functionLines tables analysis)

/-- The Rust item that a macro becomes, unless its tree, read from `file`, still has a placeholder. -/
def render (tables : Tables) (file : String) (analysis : Analysis) : Except Diagnostic String :=
  match analysis.body.open? with
  | some (slot, kind, pos) =>
    let location : Location := ⟨file, pos⟩
    .error ⟨.unrenderable slot kind location, some location, none⟩
  | none => .ok (item tables analysis)

end Rust

end MacroLift
