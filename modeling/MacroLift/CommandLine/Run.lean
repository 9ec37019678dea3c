import MacroLift.Batch.Run
import MacroLift.CommandLine.Command
import MacroLift.CommandLine.Trouble
import MacroLift.Constants
import MacroLift.Header.Scan
import MacroLift.Text.ControlSequence
import MacroLift.Text.Utf8
import MacroLift.Tree.Outline

namespace MacroLift.CommandLine

structure Outcome where
  exitCode : Option Nat
  stdout : String
  stderr : String
  written : Option (String × String)
  deriving Repr, DecidableEq

def linesText (lines : List String) : String :=
  "".intercalate (lines.map fun line => line ++ "\n")

def printed (text : String) : String :=
  String.ofList (Text.withoutControlSequences text.toList)

def printedLines (lines : List String) : String :=
  printed (linesText lines)

/-- The lines of a journal that are shown. Those for tracing, and the names of levels, are left out unless
    asked for. -/
def journalText (verbose : Bool) (journal : List JournalLine) : String :=
  if verbose then linesText (journal.map fun line => line.level.label ++ ": " ++ line.text)
  else linesText ((journal.filter fun line => line.level != .debug).map JournalLine.text)

def troubled (stdout stderr : String) (stage : Option String) (trouble : Trouble) : Outcome :=
  ⟨some trouble.exitCode, stdout, stderr ++ printedLines [trouble.text stage], none⟩

/-- What is seen of a command that never exits: what it has told, and no file. -/
def unending (stdout stderr : String) : Outcome :=
  ⟨none, stdout, stderr, none⟩

/-- The end of a command that has a text for a file, or for the standard output if there is none. -/
def delivered (disk : Disk) (output : Option String) (text : String) (stderr : String)
    (notice : String → String) (stage : Option String) : Outcome :=
  match output with
  | none => ⟨some 0, printed text, stderr, none⟩
  | some path =>
    let shown := Disk.shownPath path
    match disk.writeFault? shown with
    | some fault => troubled "" stderr stage (.invalid (fault.message shown))
    | none => ⟨some 0, printedLines [notice shown], stderr, some (shown, text)⟩

def headerText (disk : Disk) (path : String) : Except Trouble String :=
  match disk.look path with
  | .file bytes =>
    match Text.decodeUtf8 bytes with
    | .ok text => .ok (String.ofList (Text.newlinesOnly text))
    | .error fault => .error (.invalid fault.message)
  | _ => .error (.invalid (WriteFault.noSuchFile.message (Disk.shownPath path)))

def readHeaders (disk : Disk) : List String → Journaled (Except Trouble (List Header.Definition))
  | [] => ⟨.ok [], []⟩
  | path :: rest =>
    let shown := Disk.shownPath path
    let opening : JournalLine := ⟨.debug, "Scanning " ++ shown ++ "..."⟩
    match headerText disk path with
    | .error trouble => ⟨.error trouble, [opening]⟩
    | .ok text =>
      let found := Header.definitions text shown
      let more := readHeaders disk rest
      ⟨more.result.map (found ++ ·),
        opening ::
          ⟨.debug, shown ++ ": found " ++ toString found.length ++ " function-like macros"⟩ :: more.journal⟩

structure TreeState where
  stdout : String
  failed : List String
  log : ProblemLog
  journal : List JournalLine
  stuck : Bool

def treeText (analysis : Analysis) : String :=
  printedLines [analysis.name ++ "(" ++ analysis.usagesText ++ ")", (Node.body analysis.body).outlineText, ""]

def showTrees (options : Options) : TreeState → List Header.Definition → TreeState
  | state, [] => state
  | state, d :: rest =>
    if options.skips d.name then showTrees options state rest
    else
      match analyze d.signatureText d.bodyLines with
      | .ok analysis =>
        showTrees options
          { state with
            stdout := state.stdout ++ treeText analysis
            journal := state.journal ++ analysisJournal d.signatureText d.bodyLines }
          rest
      | .error diagnostic =>
        let next : TreeState :=
          { state with failed := state.failed ++ [d.name], log := state.log.add (.single diagnostic) }
        if next.log.isFull then next else showTrees options next rest
      | .endless => { state with stuck := true }

def TreeState.verdict (state : TreeState) : Attempt Problem Unit :=
  if state.stuck then .endless else .ofExcept (state.log.verdict state.failed)

def translateStage : Option String := some "Translation"

def TranslateRequest.options (request : TranslateRequest) : Options :=
  { Options.default with
    useDenylist := request.useDenylist
    skipPatterns := request.skipPatterns
    keepGoing := request.keepGoing }

def runShowTrees (request : TranslateRequest) (journal : List JournalLine)
    (definitions : List Header.Definition) : Outcome :=
  let options := request.options
  let state := showTrees options ⟨"", [], .empty options.maxFailures, journal, false⟩ definitions
  let stderr := journalText request.verbose state.journal
  match state.verdict with
  | .ok () => ⟨some 0, state.stdout, stderr, none⟩
  | .error problem => troubled state.stdout stderr translateStage (.problem problem)
  | .endless => unending state.stdout stderr

def runTranslateAll (disk : Disk) (request : TranslateRequest) (journal : List JournalLine)
    (definitions : List Header.Definition) : Outcome :=
  let run := translateAll request.options .kernel definitions
  let stderr := journalText request.verbose (journal ++ run.journal)
  match run.result with
  | .error problem => troubled "" stderr translateStage (.problem problem)
  | .ok done =>
    delivered disk request.output done.output (stderr ++ printedLines done.warnings)
      (fun shown =>
        "Translated " ++ toString done.translated.length ++ " macros -> " ++ shown ++ " (skipped " ++
          toString done.skipped.length ++ ", failed " ++ toString done.failed.length ++ ")")
      translateStage
  | .endless => unending "" stderr

def runTranslate (disk : Disk) (request : TranslateRequest) : Outcome :=
  let reading := readHeaders disk request.headers
  match reading.result with
  | .error trouble => troubled "" (journalText request.verbose reading.journal) translateStage trouble
  | .ok definitions =>
    if request.showTrees then runShowTrees request reading.journal definitions
    else runTranslateAll disk request reading.journal definitions

def runSingle (signature body : String) (verbose : Bool) : Outcome :=
  let bodyLines := Text.stringLines body
  let stderr := journalText verbose (translateJournal signature bodyLines)
  match translate .kernel signature bodyLines with
  | .ok item => ⟨some 0, printedLines [item], stderr, none⟩
  | .error diagnostic => troubled "" stderr translateStage (.problem (.single diagnostic))
  | .endless => unending "" stderr

def versionText : String := "rtos-macrogen, version 0.1.0"

def usageText : String :=
  "Usage: rtos-macrogen [OPTIONS] COMMAND [ARGS]...\n\nCommands: translate, macro, constants"

namespace Command

def run (disk : Disk) : Command → Outcome
  | .version => ⟨some 0, printedLines [versionText], "", none⟩
  | .help => ⟨some 0, printedLines [usageText], "", none⟩
  | .translate request => runTranslate disk request
  | .single signature body verbose => runSingle signature body verbose
  | .constants output =>
    delivered disk output (Constants.header Constants.kernel) "" (fun shown => "Wrote " ++ shown) none

end Command

/-- What makes a command of arguments, if they can be used on a disk. -/
abbrev ArgumentReader := Disk → List String → Option Command

/-- What arguments come to: what their command does, or the usage if they cannot be used. -/
def runArguments (reader : ArgumentReader) (disk : Disk) (arguments : List String) : Outcome :=
  match reader disk arguments with
  | none => ⟨some 2, "", linesText [usageText], none⟩
  | some command => command.run disk

end MacroLift.CommandLine
