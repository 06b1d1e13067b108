import BranchLab.CommandLine.Respond

/-! The command itself: it reads the file that its arguments name and carries out the response. -/

namespace BranchLab.CommandLine

open Source (ReadFailure)

/-- The failure that an error of the file system stands for. Only the opening of a file knows the
name of the file, and a directory can be opened but not read. -/
def readFailure : IO.Error → ReadFailure
  | .noFileOrDirectory .. => .notFound
  | .inappropriateType (some _) .. => .notADirectory
  | .inappropriateType none .. => .isADirectory
  | .invalidArgument _ 36 _ => .nameTooLong
  | .permissionDenied .. => .other "Permission denied (os error 13)"
  | error => .other (toString error)

def readText (path : String) : IO (Except ReadFailure String) := do
  try
    let bytes ← IO.FS.readBinFile path
    match String.fromUTF8? bytes with
    | some text => return .ok text
    | none => return .error .notUtf8
  catch error => return .error (readFailure error)

def emit : Emission → IO Unit
  | .out line => IO.println line
  | .err line => IO.eprintln line
  | .pause milliseconds => IO.sleep milliseconds.toUInt32

end BranchLab.CommandLine

open BranchLab.CommandLine in
def main (arguments : List String) : IO UInt32 := do
  let input := (Command.ofArguments arguments).toOption.bind Command.input?
  let content ← readText (input.getD "")
  let response := respond (fun _ => content) arguments
  response.emissions.forM emit
  return response.code.toUInt32
