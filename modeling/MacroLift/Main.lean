import MacroLift.CommandLine.Run

namespace MacroLift.CommandLine

/-- Whether the system's number of an error, which may come negated, says that a directory is no file. The
    others of its kind say that a path goes on behind a file. -/
def namesDirectory (code : UInt32) : Bool :=
  code == 21 || 0 - code == 21

def lookAt (path : String) : IO Found := do
  try
    let bytes ← IO.FS.readBinFile path
    pure (.file bytes.toList)
  catch
    | .inappropriateType _ code _ => pure (if namesDirectory code then .directory else .missing)
    | _ => pure .missing

def Command.paths : Command → List String
  | .translate request => request.headers ++ request.output.toList
  | .constants output => output.toList
  | .version | .help | .single _ _ _ => []

def readDisk (arguments : List String) : IO Disk := do
  let paths := ((Command.ofArguments? arguments).map Command.paths).getD []
  let found ← paths.mapM fun path => do pure (path, ← lookAt path)
  pure ⟨fun path => (found.lookup path).getD .missing, fun _ => none⟩

def WriteFault.ofError : IO.Error → WriteFault
  | .noFileOrDirectory .. => .noSuchFile
  | .inappropriateType _ code _ => if namesDirectory code then .isADirectory else .notADirectory
  | .invalidArgument .. => .nameTooLong
  | _ => .denied

/-- Writes the file of an outcome. If that fails, the command ends as on a disk that refuses the file. -/
def deliver (disk : Disk) (arguments : List String) : IO Outcome := do
  let outcome := runArguments Command.ofUsableArguments? disk arguments
  match outcome.written with
  | none => pure outcome
  | some (path, text) =>
    try
      IO.FS.writeFile path text
      pure outcome
    catch error =>
      pure (runArguments Command.ofUsableArguments? { disk with writeFault? := fun _ => some (.ofError error) } arguments)

def exit (exitCode : Option Nat) : IO UInt32 := do
  while exitCode.isNone do
    IO.sleep 1000
  pure (exitCode.getD 0).toUInt32

end MacroLift.CommandLine

open MacroLift.CommandLine in
def main (arguments : List String) : IO UInt32 := do
  let disk ← readDisk arguments
  let outcome ← deliver disk arguments
  IO.print outcome.stdout
  IO.eprint outcome.stderr
  exit outcome.exitCode
