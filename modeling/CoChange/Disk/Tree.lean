import CoChange.Disk

/-!
# File trees

A file tree is a disk that is known as a whole, from its root; a run starts in a directory of it.
A path is walked segment by segment, and every segment but the last has to lead to a directory.
-/

namespace CoChange

/-- The names that lead from the root of a tree to a file or a directory. -/
abbrev Location := List String

structure FileTree where
  files : List (Location × List UInt8)
  directories : List Location
  current : Location

namespace FileTree

/-- Where a walk can stand. -/
inductive Place where
  | directory (location : Location)
  | file (bytes : List UInt8)
deriving DecidableEq, Repr

def maxNameBytes : Nat := 255

def maxPathBytes : Nat := 4095

/-- Whether a location is a directory of a tree: a given one, or one that something lies below. -/
def hasDirectory (tree : FileTree) (location : Location) : Bool :=
  location.isEmpty || location.isPrefixOf tree.current
    || tree.directories.any (location.isPrefixOf ·)
    || tree.files.any fun (file, _) => location.isPrefixOf file && location.length < file.length

/-- What a location leads to. -/
def lookup (tree : FileTree) (location : Location) : Except ReadFailure Place :=
  match tree.files.lookup location with
  | some bytes => .ok (.file bytes)
  | none =>
    if tree.hasDirectory location then .ok (.directory location) else .error .noSuchFile

/-- Takes a segment of a path. The root is its own parent. -/
def step (tree : FileTree) (place : Place) (segment : String) : Except ReadFailure Place :=
  match place with
  | .file _ => .error .notADirectory
  | .directory location =>
    if segment = "" ∨ segment = "." then .ok place
    else if segment = ".." then .ok (.directory location.dropLast)
    else if segment.utf8ByteSize > maxNameBytes then .error .nameTooLong
    else tree.lookup (location ++ [segment])

/-- Takes the segments of a path. -/
def walkFrom (tree : FileTree) : Place → List String → Except ReadFailure Place
  | place, [] => .ok place
  | place, segment :: rest => do
    let next ← tree.step place segment
    walkFrom tree next rest

def walk (tree : FileTree) (path : String) : Except ReadFailure Place :=
  if '\x00' ∈ path.toList then .error .nulByte
  else if path.toList = [] then .error .noSuchFile
  else if path.utf8ByteSize > maxPathBytes then .error .nameTooLong
  else
    tree.walkFrom (.directory (if Path.isAbsolute path.toList then [] else tree.current))
      ((Path.segments path.toList).map String.ofList)

/-- The bytes of the file that a path leads to. -/
def read (tree : FileTree) (path : String) : Except ReadFailure (List UInt8) := do
  match ← tree.walk path with
  | .file bytes => return bytes
  | _ => throw .isADirectory

/-! ## Names below a directory -/

/-- The names of a file as seen from a directory, one for each number of steps up that leads to a
directory above the file. -/
def namesFrom (directory file : Location) : List String :=
  (List.range (directory.length + 1)).filterMap fun up =>
    let above := directory.take (directory.length - up)
    (above.isPrefixOf? file).map fun rest => "/".intercalate (List.replicate up ".." ++ rest)

def absoluteName (file : Location) : String := "/" ++ "/".intercalate file

/-- The directory that a root leads to. The empty root is the directory where the run starts. -/
def rootDirectory? (tree : FileTree) (root : String) : Option Location :=
  if root = "" then some tree.current
  else
    match tree.walk root with
    | .ok (.directory location) => some location
    | _ => none

/-- The source of the files below a directory, without names that climb above the root. -/
def below (tree : FileTree) (root : String) : Source :=
  let files := tree.files.map (·.1)
  Disk.sourceBelow tree.read root <|
    match tree.rootDirectory? root with
    | some directory => files.flatMap (namesFrom directory) ++ files.map absoluteName
    | none => files.map absoluteName

def disk (tree : FileTree) : Disk := ⟨tree.read, tree.below⟩

/-! ## Filling a tree -/

/-- The location of a path that starts in the current directory. -/
def locate (tree : FileTree) (path : String) : Location :=
  let start := tree.current.map String.toList
  (Path.reduce true (start ++ Path.segments path.toList)).map String.ofList

def addFile (tree : FileTree) (path : String) (bytes : List UInt8) : FileTree :=
  { tree with files := (tree.locate path, bytes) :: tree.files }

/-- Makes a directory at a path. -/
def addDirectory (tree : FileTree) (path : String) : FileTree :=
  { tree with directories := tree.locate path :: tree.directories }

end FileTree

end CoChange
