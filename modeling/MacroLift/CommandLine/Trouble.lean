import MacroLift.Diagnostic.Log

namespace MacroLift.CommandLine

inductive Trouble where
  | problem (problem : Problem)
  | invalid (message : String)
  | internal (message : String)
  deriving Repr, DecidableEq

def failedSummary (names : List String) : String :=
  "not translated: " ++ ", ".intercalate names ++ "\nhint: pass --keep-going, or " ++
    " ".intercalate (names.map fun name => "--skip " ++ name)

namespace Trouble

def exitCode : Trouble → Nat
  | .problem _ => 1
  | .invalid _ => 2
  | .internal _ => 3

def text (stage : Option String) : Trouble → String
  | .problem (.batch report names) =>
    if names.isEmpty then report else report ++ "\n" ++ failedSummary names
  | .problem (.single d) => d.text
  | .problem (.other message) => ((stage.filter fun s => !s.isEmpty).getD "Generator") ++ " error: " ++ message
  | .invalid message => "Error: " ++ message
  | .internal message => "Internal error: " ++ message

end Trouble

end MacroLift.CommandLine
