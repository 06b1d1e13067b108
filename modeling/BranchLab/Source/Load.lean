import BranchLab.Source.Reader

/-! Loading of a program: the text of a file is read, its program text is extracted if the name of
the file says that it is literate, and that is read as a program. In a literate text the lines
between two code fences are program text if the first fence is tagged for it; all other lines are
left empty, so that every line keeps its number. -/

namespace BranchLab.Source

/-- The parts of a path, with empty parts and single dots left out. -/
def pathParts (path : String) : List String :=
  (path.splitOn "/").filter fun part => part ≠ "" ∧ part ≠ "."

/-- What follows the last dot of a name that has something before that dot; none for two dots. -/
def extensionOf (name : String) : Option (List Char) :=
  let back := name.toList.reverse
  match back.dropWhile (· ≠ '.') with
  | '.' :: _ :: _ => if name = ".." then none else some (back.takeWhile (· ≠ '.')).reverse
  | _ => none

/-- A file with the extension `md`, in either case, holds prose with programs in it. -/
def isLiterate (path : String) : Bool :=
  match (pathParts path).getLast?.bind extensionOf with
  | some ext => ext.map Char.toLower = ['m', 'd']
  | none => false

def fenceMark : Char := '\x60'

def fenceTag : List Char := ['i', 'b', 'p']

/-- How many marks a fence has; none if the line is no fence. -/
def fenceLength? (line : List Char) : Option Nat :=
  let count := ((Text.trimStart line).takeWhile (· = fenceMark)).length
  if 3 ≤ count then some count else none

def tagOf (line : List Char) : List Char :=
  Text.trim ((Text.trimStart line).dropWhile (· = fenceMark))

/-- Reads a line of prose with programs in it. The state is the length of the fence that opened the
program text in which the line stands; the answer says whether the line is program text. A fence
inside program text ends it unless it is shorter than the one that began it. -/
def readLine (opened : Option Nat) (line : List Char) : Option Nat × Bool :=
  match fenceLength? line, opened with
  | none, _ => (opened, opened.isSome)
  | some count, some least => if least ≤ count then (none, false) else (opened, true)
  | some count, none => (if tagOf line = fenceTag then some count else none, false)

def keepPrograms (opened : Option Nat) (kept : List (List Char)) :
    List (List Char) → List (List Char)
  | [] => kept.reverse
  | line :: rest =>
    let (opened, keep) := readLine opened line
    keepPrograms opened ((if keep then line else []) :: kept) rest

/-- The program text in a literate text, each line ended by a line feed. -/
def extractLiterate (text : List Char) : List Char :=
  (keepPrograms none [] (Text.lines text)).flatMap fun line => line ++ ['\n']

inductive ReadFailure where
  | notFound
  | notADirectory
  | isADirectory
  | nameTooLong
  | nulInName
  | notUtf8
  | other (message : String)
deriving DecidableEq

def ReadFailure.message : ReadFailure → String
  | notFound => "No such file or directory (os error 2)"
  | notADirectory => "Not a directory (os error 20)"
  | isADirectory => "Is a directory (os error 21)"
  | nameTooLong => "File name too long (os error 36)"
  | nulInName => "file name contained an unexpected NUL byte"
  | notUtf8 => "stream did not contain valid UTF-8"
  | other message => message

abbrev ReadFile := String → Except ReadFailure String

def programText (path content : String) : String :=
  if isLiterate path then String.ofList (extractLiterate content.toList) else content

inductive LoadError where
  | unreadable (path : String) (failure : ReadFailure)
  | malformed (path : String) (error : SyntaxError)
deriving DecidableEq

def LoadError.message : LoadError → String
  | unreadable path failure => path ++ ": error: cannot read file: " ++ failure.message
  | malformed path error =>
    path ++ ":" ++ error.place.text ++ ": error: " ++ error.cause.message

structure Loaded where
  text : String
  program : Program

def load (read : ReadFile) (path : String) : Except LoadError Loaded :=
  match read path with
  | .error failure => .error (.unreadable path failure)
  | .ok content =>
    let text := programText path content
    match Program.ofText text with
    | .error error => .error (.malformed path error)
    | .ok program => .ok ⟨text, program⟩

end BranchLab.Source
