import MacroLift.Batch.Translator
import MacroLift.Header.Definition

namespace MacroLift

structure BatchOutcome where
  output : String
  translated : List String
  skipped : List String
  failed : List String
  warnings : List String
  deriving Repr, DecidableEq

namespace Batch

structure State where
  items : List String
  seen : List String
  translated : List String
  skipped : List String
  failed : List String
  log : ProblemLog
  journal : List JournalLine
  /-- Whether a definition was met that keeps the batch from ever coming to an end. -/
  stuck : Bool
  deriving Repr

def State.start (options : Options) : State :=
  ⟨[], [], [], [], [], .empty options.maxFailures, [], false⟩

inductive Verdict where
  | skipped
  | repeated
  | translated (item : String)
  | failed (diagnostic : Diagnostic)
  | endless
  deriving Repr

/-- Only the first definition of a name that is not left out is tried. -/
def verdict (options : Options) (tables : Rust.Tables) (seen : List String) (d : Header.Definition) : Verdict :=
  if options.skips d.name then .skipped
  else if seen.contains d.name then .repeated
  else
    match translate tables d.signatureText d.bodyLines with
    | .ok item => .translated item
    | .error diagnostic => .failed diagnostic
    | .endless => .endless

def State.fail (options : Options) (state : State) (d : Header.Definition) (diagnostic : Diagnostic) : State :=
  let message := diagnostic.cause.message
  let failed := { state with seen := d.name :: state.seen, failed := state.failed ++ [d.name] }
  if options.keepGoing then
    { failed with
      log := state.log.warn ("'" ++ d.name ++ "' not translated: " ++ message) d.location
      journal := state.journal ++ [⟨.warning, d.name ++ ": not translated: " ++ message⟩] }
  else { failed with log := state.log.add (.single diagnostic) }

def State.book (options : Options) (state : State) (d : Header.Definition) : Verdict → State
  | .skipped =>
    { state with
      skipped := state.skipped ++ [d.name]
      journal := state.journal ++ [⟨.debug, d.name ++ ": skipped"⟩] }
  | .repeated =>
    { state with log := state.log.warn ("duplicate definition of '" ++ d.name ++ "' ignored") d.location }
  | .translated item =>
    { state with
      items := state.items ++ [item]
      seen := d.name :: state.seen
      translated := state.translated ++ [d.name]
      journal := state.journal ++ translateJournal d.signatureText d.bodyLines }
  | .failed diagnostic => state.fail options d diagnostic
  | .endless => { state with seen := d.name :: state.seen, stuck := true }

def State.isDone (state : State) : Bool :=
  state.log.isFull || state.stuck

def proceed (options : Options) (tables : Rust.Tables) : State → List Header.Definition → State
  | state, [] => state
  | state, d :: rest =>
    let next := state.book options d (verdict options tables state.seen d)
    if next.isDone then next else proceed options tables next rest

def outputText (items : List String) : String :=
  if items.isEmpty then "" else "\n\n".intercalate items ++ "\n"

def summaryLine (state : State) : JournalLine :=
  ⟨.info, "translated " ++ toString state.translated.length ++ " macros, skipped " ++
    toString state.skipped.length ++ ", failed " ++ toString state.failed.length⟩

end Batch

structure Journaled (α : Type) where
  result : α
  journal : List JournalLine

/-- Translates definitions. Failures are reported together at the end, unless they are mere warnings. -/
def translateAll (options : Options) (tables : Rust.Tables) (definitions : List Header.Definition) :
    Journaled (Attempt Problem BatchOutcome) :=
  let state := Batch.proceed options tables (.start options) definitions
  if state.stuck then ⟨.endless, state.journal⟩
  else
    match state.log.verdict state.failed with
    | .error problem => ⟨.error problem, state.journal⟩
    | .ok () =>
      ⟨.ok ⟨Batch.outputText state.items, state.translated, state.skipped, state.failed, state.log.warnings⟩,
        state.journal ++ [Batch.summaryLine state]⟩

end MacroLift
