import MacroLift.Text.Quoted

namespace MacroLift.CommandLine

inductive Found where
  | file (bytes : List UInt8)
  | directory
  | missing
  deriving Repr, DecidableEq

inductive WriteFault where
  | noSuchFile
  | notADirectory
  | isADirectory
  | nameTooLong
  | denied
  deriving Repr, DecidableEq

def WriteFault.message (path : String) (fault : WriteFault) : String :=
  (match fault with
    | .noSuchFile => "[Errno 2] No such file or directory: "
    | .notADirectory => "[Errno 20] Not a directory: "
    | .isADirectory => "[Errno 21] Is a directory: "
    | .nameTooLong => "[Errno 36] File name too long: "
    | .denied => "[Errno 13] Permission denied: ") ++
  Text.quoted path

structure Disk where
  look : String → Found
  writeFault? : String → Option WriteFault

namespace Disk

def splitSlashes : List Char → List Char × List String
  | [] => ([], [])
  | '/' :: rest =>
    let split := splitSlashes rest
    ([], String.ofList split.1 :: split.2)
  | c :: rest =>
    let split := splitSlashes rest
    (c :: split.1, split.2)

def parts (path : List Char) : List String :=
  String.ofList (splitSlashes path).1 :: (splitSlashes path).2

/-- A path without the parts that lead nowhere, as messages show it. -/
def shownPath (path : String) : String :=
  let root :=
    match path.toList with
    | '/' :: '/' :: '/' :: _ => "/"
    | '/' :: '/' :: _ => "//"
    | '/' :: _ => "/"
    | _ => ""
  let names := (parts path.toList).filter fun part => part != "" && part != "."
  if root.isEmpty && names.isEmpty then "." else root ++ "/".intercalate names

def lookUp (files : List (String × List UInt8)) (names : List String) : Found :=
  match files.lookup ("/".intercalate names) with
  | some bytes => .file bytes
  | none =>
    if names.isEmpty || files.any (fun file => names.isPrefixOf (parts file.1.toList)) then .directory
    else .missing

def maxNameBytes : Nat := 255

def maxPathBytes : Nat := 4095

/-- Follows the parts of a path from a directory on. Only in a directory is there anything to follow. -/
def follow (files : List (String × List UInt8)) : List String → List String → Except WriteFault (List String)
  | names, [] => .ok names
  | names, part :: rest =>
    match lookUp files names with
    | .file _ => .error .notADirectory
    | .missing => .error .noSuchFile
    | .directory =>
      if part = "" ∨ part = "." then follow files names rest
      else if part = ".." then follow files names.dropLast rest
      else if maxNameBytes < part.utf8ByteSize then .error .nameTooLong
      else follow files (names ++ [part]) rest

/-- Whether a path has no part that leads into a directory, so that it stays at the root if it starts there. -/
def leadsNowhere (path : String) : Bool :=
  (parts path.toList).all fun part => part == "" || part == "." || part == ".."

def resolve (files : List (String × List UInt8)) (path : String) : Except WriteFault (List String) :=
  if maxPathBytes < path.utf8ByteSize then .error .nameTooLong
  else if path.isEmpty then .error .noSuchFile
  else if path.toList.head? = some '/' then if leadsNowhere path then .ok [] else .error .noSuchFile
  else follow files [] (parts path.toList)

def ofFiles (files : List (String × List UInt8)) : Disk where
  look path :=
    match resolve files path with
    | .ok names => lookUp files names
    | .error _ => .missing
  writeFault? path :=
    match resolve files path with
    | .error fault => some fault
    | .ok names => if lookUp files names = .directory then some .isADirectory else none

end Disk

end MacroLift.CommandLine
