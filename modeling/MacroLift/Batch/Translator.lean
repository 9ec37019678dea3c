import MacroLift.Batch.Denylist
import MacroLift.Diagnostic.Log
import MacroLift.Grammar.Macro
import MacroLift.Rust.Item
import MacroLift.Text.Blank

namespace MacroLift

structure Options where
  useDenylist : Bool
  skipPatterns : List String
  keepGoing : Bool
  maxFailures : Int
  maxFailures_pos : 0 < maxFailures := by decide

namespace Options

def default : Options where
  useDenylist := true
  skipPatterns := []
  keepGoing := false
  maxFailures := 100

def ofLimit (useDenylist : Bool) (skipPatterns : List String) (keepGoing : Bool) (maxFailures : Int) :
    Except String Options :=
  if h : 0 < maxFailures then .ok ⟨useDenylist, skipPatterns, keepGoing, maxFailures, h⟩
  else .error ("max_errors must be at least 1, got " ++ toString maxFailures)

def skips (options : Options) (name : String) : Bool :=
  options.skipPatterns.any (Text.matchesPattern name) || (options.useDenylist && Denylist.excludes [] name)

end Options

inductive Level where
  | debug
  | info
  | warning
  deriving Repr, DecidableEq

def Level.label : Level → String
  | .debug => "DEBUG"
  | .info => "INFO"
  | .warning => "WARNING"

structure JournalLine where
  level : Level
  text : String
  deriving Repr, DecidableEq

/-- The name that a signature's text opens with, for messages: a question mark if there is none. -/
def nameInSignature (signatureText : String) : String :=
  match Text.trim (signatureText.toList.takeWhile (· != '(')) with
  | [] => "?"
  | name => String.ofList name

def signatureFile (signatureText : String) : String :=
  macroFile (nameInSignature signatureText)

def analyze (signatureText : String) (bodyLines : List String) : Attempt Diagnostic Analysis := do
  let file := signatureFile signatureText
  let signature ← Signature.ofText signatureText file
  let body ← Body.ofText (Text.unlines bodyLines) file bodyLines signature.parameters
  pure (Analysis.of signature.name signature.parameters body)

def translate (tables : Rust.Tables) (signatureText : String) (bodyLines : List String) :
    Attempt Diagnostic String := do
  let analysis ← analyze signatureText bodyLines
  .ofExcept (Rust.render tables (signatureFile signatureText) analysis)

namespace Analysis

def classifiedLine (analysis : Analysis) : JournalLine :=
  ⟨.debug, analysis.name ++ ": " ++ analysis.usagesText⟩

def renderedLine (analysis : Analysis) : JournalLine :=
  ⟨.debug, analysis.name ++ ": emitting " ++
    if analysis.isPattern then "pattern macro" else "typed function"⟩

end Analysis

def analysisJournal (signatureText : String) (bodyLines : List String) : List JournalLine :=
  match analyze signatureText bodyLines with
  | .ok analysis => [analysis.classifiedLine]
  | _ => []

def translateJournal (signatureText : String) (bodyLines : List String) : List JournalLine :=
  match analyze signatureText bodyLines with
  | .ok analysis => [analysis.classifiedLine, analysis.renderedLine]
  | _ => []

end MacroLift
