import MacroLift.CommandLine.Arguments
import MacroLift.CommandLine.Disk

namespace MacroLift.CommandLine

structure TranslateRequest where
  headers : List String
  output : Option String
  useDenylist : Bool
  skipPatterns : List String
  keepGoing : Bool
  showTrees : Bool
  verbose : Bool
  deriving Repr, DecidableEq

def TranslateRequest.ofArguments (arguments : Arguments) : TranslateRequest where
  headers := arguments.words
  output := arguments.value? "output"
  useDenylist := !arguments.has "no-denylist"
  skipPatterns := arguments.values "skip"
  keepGoing := arguments.has "keep-going"
  showTrees := arguments.has "dump-ast"
  verbose := arguments.has "verbose"

inductive Command where
  | version
  | help
  | translate (request : TranslateRequest)
  | single (signature body : String) (verbose : Bool)
  | constants (output : Option String)
  deriving Repr, DecidableEq

namespace Command

def helpOption : OptionSpec := ⟨"help", none, false⟩
def outputOption : OptionSpec := ⟨"output", some 'o', true⟩
def verboseOption : OptionSpec := ⟨"verbose", some 'v', false⟩

def programOptions : List OptionSpec :=
  [⟨"version", some 'V', false⟩, helpOption]

def translateOptions : List OptionSpec :=
  [outputOption, ⟨"no-denylist", none, false⟩, ⟨"skip", none, true⟩, ⟨"keep-going", none, false⟩,
   ⟨"dump-ast", none, false⟩, verboseOption, helpOption]

def singleOptions : List OptionSpec :=
  [verboseOption, helpOption]

def constantsOptions : List OptionSpec :=
  [outputOption, helpOption]

def translate? (arguments : Arguments) : Option Command :=
  if arguments.words.isEmpty then none else some (.translate (.ofArguments arguments))

def single? (arguments : Arguments) : Option Command :=
  match arguments.words with
  | [signature] => some (.single signature "" (arguments.has "verbose"))
  | [signature, body] => some (.single signature body (arguments.has "verbose"))
  | _ => none

def constants? (arguments : Arguments) : Option Command :=
  if arguments.words.isEmpty then some (.constants (arguments.value? "output")) else none

/-- A command from the arguments behind its name. Asking for help outweighs all else that can be read. -/
def ofSpecs? (specs : List OptionSpec) (command? : Arguments → Option Command) (rest : List String) :
    Option Command := do
  let arguments ← readArguments? specs true rest
  if arguments.has "help" then pure .help else command? arguments

def ofArguments? (arguments : List String) : Option Command := do
  let found ← readArguments? programOptions false arguments
  match found.options, found.words with
  | ⟨"version", _⟩ :: _, _ => pure .version
  | ⟨"help", _⟩ :: _, _ => pure .help
  | _, "translate" :: rest => ofSpecs? translateOptions translate? rest
  | _, "macro" :: rest => ofSpecs? singleOptions single? rest
  | _, "constants" :: rest => ofSpecs? constantsOptions constants? rest
  | _, _ => none

def isReadable (disk : Disk) (path : String) : Bool :=
  match disk.look path with
  | .file _ => true
  | _ => false

/-- Whether the paths of a command can be what they have to be: a header is a file that exists, and the
    output is no directory. -/
def pathsFit (disk : Disk) : Command → Bool
  | .translate request =>
    request.headers.all (isReadable disk) && request.output.all fun path => disk.look path != .directory
  | .constants output => output.all fun path => disk.look path != .directory
  | .version | .help | .single _ _ _ => true

def ofUsableArguments? (disk : Disk) (arguments : List String) : Option Command :=
  (ofArguments? arguments).filter (pathsFit disk)

end Command

end MacroLift.CommandLine
