import MacroLift.Location

namespace MacroLift.Header

structure Definition where
  name : String
  parametersText : String
  bodyLines : List String
  location : Option Location
  deriving Repr, DecidableEq

namespace Definition

def signatureText (d : Definition) : String :=
  d.name ++ "(" ++ d.parametersText ++ ")"

def bodyText (d : Definition) : String :=
  "\n".intercalate d.bodyLines

end Definition

end MacroLift.Header
