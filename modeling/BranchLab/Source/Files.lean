import BranchLab.Source.Load

/-! A tree of files given by the paths and contents of its files, as a program is looked up in it.
Each part of a path but the last has to name a directory, and two dots go back to the directory
above. Outside the tree no files are known. -/

namespace BranchLab.Source

/-- What a path names: a file with its bytes, or a directory. -/
inductive FileNode where
  | file (bytes : ByteArray)
  | directory

/-- The directories and files below the root, with the parts of their paths. -/
structure Files where
  entries : List (List String × FileNode)

namespace Files

def follow (here : List String) (part : String) : List String :=
  if part = "" ∨ part = "." then here
  else if part = ".." then here.dropLast
  else here ++ [part]

def trail (here : List String) : List String → List (List String)
  | [] => []
  | part :: rest => follow here part :: trail (follow here part) rest

/-- What is given for a path, and the directories on the way to it. -/
def entriesAt (path : String) (node : FileNode) : List (List String × FileNode) :=
  let parts := path.splitOn "/"
  (parts.foldl follow [], node) :: (trail [] parts).dropLast.map (·, .directory)

/-- The tree with what is given for each path. The last that is given for a place counts. -/
def ofList (given : List (String × FileNode)) : Files :=
  ⟨given.reverse.flatMap fun (path, node) => entriesAt path node⟩

def node? (files : Files) (place : List String) : Option FileNode :=
  if place = [] then some .directory else files.entries.lookup place

def longestPart : Nat := 255

def longestPath : Nat := 4095

/-- The part names the directory that it stands in, or the one above. -/
def isDots (part : String) : Bool := part = "" ∨ part = "." ∨ part = ".."

/-- What a path outside the tree names. Only dots lead to a directory that is known. -/
def outside : List String → Except ReadFailure FileNode
  | [] => .ok .directory
  | part :: rest =>
    if isDots part then outside rest
    else if longestPart < part.utf8ByteSize then .error .nameTooLong
    else .error .notFound

def resolve (files : Files) (here : List String) : List String → Except ReadFailure FileNode
  | [] =>
    match files.node? here with
    | some node => .ok node
    | none => .error .notFound
  | part :: rest =>
    match files.node? here with
    | none => .error .notFound
    | some (.file _) => .error .notADirectory
    | some .directory =>
      if longestPart < part.utf8ByteSize then .error .nameTooLong
      else if part = ".." ∧ here = [] then outside rest
      else resolve files (follow here part) rest

def read (files : Files) : ReadFile := fun path =>
  if path.toList.contains '\x00' then .error .nulInName
  else if path = "" then .error .notFound
  else if longestPath < path.utf8ByteSize then .error .nameTooLong
  else
    let parts := path.splitOn "/"
    match if path.startsWith "/" then outside parts else files.resolve [] parts with
    | .error failure => .error failure
    | .ok .directory => .error .isADirectory
    | .ok (.file bytes) =>
      match String.fromUTF8? bytes with
      | some text => .ok text
      | none => .error .notUtf8

end Files
end BranchLab.Source
