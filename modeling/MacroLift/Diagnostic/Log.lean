import MacroLift.Diagnostic.Basic

namespace MacroLift

inductive Problem where
  | single (diagnostic : Diagnostic)
  | batch (report : String) (names : List String)
  | other (message : String)
  deriving Repr, DecidableEq

namespace Problem

def text : Problem → String
  | .single d => d.text
  | .batch report _ => report
  | .other message => message

def message : Problem → String
  | .single d => d.cause.message
  | .batch report _ => report
  | .other message => message

end Problem

structure ProblemLog where
  maxProblems : Int
  problems : List Problem
  warnings : List String
  deriving Repr, DecidableEq

namespace ProblemLog

def empty (maxProblems : Int) : ProblemLog := ⟨maxProblems, [], []⟩

def add (log : ProblemLog) (problem : Problem) : ProblemLog :=
  { log with problems := log.problems ++ [problem] }

def warningText (message : String) (location : Option Location) : String :=
  match location with
  | some location => location.text ++ ": warning: " ++ message
  | none => "warning: " ++ message

def warn (log : ProblemLog) (message : String) (location : Option Location) : ProblemLog :=
  { log with warnings := log.warnings ++ [warningText message location] }

def hasProblems (log : ProblemLog) : Bool :=
  !log.problems.isEmpty

def isFull (log : ProblemLog) : Bool :=
  log.maxProblems ≤ log.problems.length

def clear (log : ProblemLog) : ProblemLog :=
  { log with problems := [], warnings := [] }

def counted (n : Nat) (noun : String) : String :=
  toString n ++ " " ++ noun ++ if n = 1 then "" else "s"

/-- All problems in full, then the warnings, then how many there are of each. -/
def report (log : ProblemLog) : String :=
  "\n".intercalate
    (log.problems.flatMap (fun problem => [problem.text, ""]) ++ log.warnings ++
      ["\n" ++ counted log.problems.length "error" ++ ", " ++ counted log.warnings.length "warning"])

def verdict (log : ProblemLog) (names : List String) : Except Problem Unit :=
  if log.hasProblems then .error (.batch log.report names) else .ok ()

end ProblemLog

end MacroLift
