import MacroLift.Usage.Uses

namespace MacroLift

structure Analysis where
  name : String
  parameters : List (String × Usage)
  body : Body
  calls : List String
  deriving Repr

namespace Analysis

/-- The usage table of a body. What a variadic parameter takes is always a value. -/
def table (parameters : List String) (body : Body) : UsageTable :=
  let used := body.uses.foldl UsageTable.record (.ofParameters parameters)
  if parameters.contains variadicMark then used.markExpression variadicName else used

def of (name : String) (parameters : List String) (body : Body) : Analysis :=
  let used := table parameters body
  ⟨name, parameters.map fun parameter => (parameter, (used.usage? parameter).getD .unknown), body, used.calls⟩

def isPattern (analysis : Analysis) : Bool :=
  analysis.parameters.any fun parameter => parameter.2 != .unknown

def usagesText (analysis : Analysis) : String :=
  ", ".intercalate (analysis.parameters.map fun parameter => parameter.1 ++ "=" ++ parameter.2.label)

end Analysis

end MacroLift
