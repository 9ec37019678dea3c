import MacroLift.Text.Quoted
import MacroLift.Tree.Basic

namespace MacroLift

inductive Usage where
  | unknown
  | identifier
  | expression
  deriving Repr, DecidableEq, Inhabited

def Usage.label : Usage → String
  | .unknown => "unknown"
  | .identifier => "identifier"
  | .expression => "expression"

inductive Use where
  | asName (name : String)
  | asValue (name : String)
  | asCallee (name : String)
  deriving Repr, DecidableEq

/-- What is known of the parameters, by the names that the body uses, in the order of the signature; and the
    functions that the body calls, in the order of their first calls. -/
structure UsageTable where
  entries : List (String × Usage)
  calls : List String
  deriving Repr, DecidableEq

namespace UsageTable

def ofParameters (parameters : List String) : UsageTable :=
  ⟨(parameters.map bindingName).eraseDups.map fun name => (name, .unknown), []⟩

def contains (table : UsageTable) (name : String) : Bool :=
  table.entries.any fun entry => entry.1 == name

def usage? (table : UsageTable) (parameter : String) : Option Usage :=
  table.entries.lookup (bindingName parameter)

def missingText (parameter : String) : String :=
  Text.quoted (bindingName parameter)

def update (table : UsageTable) (name : String) (change : Usage → Usage) : UsageTable :=
  { table with
    entries := table.entries.map fun entry => if entry.1 = name then (entry.1, change entry.2) else entry }

def markIdentifier (table : UsageTable) (name : String) : UsageTable :=
  table.update name fun _ => .identifier

def markExpression (table : UsageTable) (name : String) : UsageTable :=
  table.update name fun usage => if usage = .unknown then .expression else usage

def addCall (table : UsageTable) (function : String) : UsageTable :=
  if table.calls.contains function then table else { table with calls := table.calls ++ [function] }

def record (table : UsageTable) : Use → UsageTable
  | .asName name => table.markIdentifier name
  | .asValue name => table.markExpression name
  | .asCallee function => table.addCall function

def isMarked (table : UsageTable) : Bool :=
  table.entries.any fun entry => entry.2 != .unknown

end UsageTable

end MacroLift
