namespace MacroLift.CommandLine

structure OptionSpec where
  long : String
  short : Option Char
  takesValue : Bool
  deriving Repr, DecidableEq

structure Given where
  long : String
  value : Option String
  deriving Repr, DecidableEq

structure Arguments where
  options : List Given
  words : List String
  deriving Repr, DecidableEq

structure Reading where
  complete : List Given
  waiting : Option String
  deriving Repr, DecidableEq

/-- Reads letters behind one hyphen. The rest behind the first that takes a value is that value. -/
def readLetters? (specs : List OptionSpec) : List Char → Option Reading
  | [] => some ⟨[], none⟩
  | c :: rest =>
    match specs.find? fun spec => spec.short == some c with
    | none => none
    | some spec =>
      if spec.takesValue then
        if rest.isEmpty then some ⟨[], some spec.long⟩
        else some ⟨[⟨spec.long, some (String.ofList rest)⟩], none⟩
      else
        (readLetters? specs rest).map fun reading =>
          { reading with complete := ⟨spec.long, none⟩ :: reading.complete }

def readLong? (specs : List OptionSpec) (text : List Char) : Option Reading :=
  let name := String.ofList (text.takeWhile (· != '='))
  match specs.find? fun spec => spec.long == name, text.dropWhile (· != '=') with
  | none, _ => none
  | some spec, [] =>
    if spec.takesValue then some ⟨[], some spec.long⟩ else some ⟨[⟨spec.long, none⟩], none⟩
  | some spec, _ :: value =>
    if spec.takesValue then some ⟨[⟨spec.long, some (String.ofList value)⟩], none⟩ else none

/-- Reads an argument as options. The outer answer is `none` if it is a word. -/
def readOptions? (specs : List OptionSpec) (argument : String) : Option (Option Reading) :=
  match argument.toList with
  | '-' :: '-' :: text => some (readLong? specs text)
  | '-' :: c :: rest => some (readLetters? specs (c :: rest))
  | _ => none

/-- Tells arguments apart. Two hyphens alone end the options; so does the first word, unless words and
    options may be mixed. -/
def readArguments? (specs : List OptionSpec) (mixed : Bool) : List String → Option Arguments
  | [] => some ⟨[], []⟩
  | argument :: rest =>
    if argument = "--" then some ⟨[], rest⟩
    else
      match readOptions? specs argument with
      | none =>
        if mixed then
          (readArguments? specs mixed rest).map fun found => { found with words := argument :: found.words }
        else some ⟨[], argument :: rest⟩
      | some none => none
      | some (some ⟨complete, none⟩) =>
        (readArguments? specs mixed rest).map fun found => { found with options := complete ++ found.options }
      | some (some ⟨complete, some long⟩) =>
        match rest with
        | [] => none
        | value :: rest' =>
          (readArguments? specs mixed rest').map fun found =>
            { found with options := complete ++ ⟨long, some value⟩ :: found.options }

namespace Arguments

def has (arguments : Arguments) (long : String) : Bool :=
  arguments.options.any fun given => given.long == long

def values (arguments : Arguments) (long : String) : List String :=
  (arguments.options.filter fun given => given.long == long).filterMap Given.value

def value? (arguments : Arguments) (long : String) : Option String :=
  (arguments.values long).getLast?

end Arguments

end MacroLift.CommandLine
