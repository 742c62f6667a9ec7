import CoChange.Source
import CoChange.Text.Utf8

/-!
# Disks

A disk answers for every path with bytes or with a failure, and for every directory with the
source of the texts below it.
-/

namespace CoChange

structure Disk where
  read : String → Except ReadFailure (List UInt8)
  below : String → Source

namespace Disk

def textOf (bytes : List UInt8) : Except ReadFailure String :=
  match Text.decodeStrict? bytes with
  | some text => .ok (String.ofList text)
  | none => .error .notUtf8

def readText (disk : Disk) (path : String) : Except Fault String :=
  match (disk.read path).bind textOf with
  | .ok text => .ok text
  | .error failure => .error (.unreadableFile path failure)

/-- The text of a diff in a file: bytes that are no text are replaced. A directory can be opened
and fails only as a stream. -/
def readDiff (disk : Disk) (path : String) : Except Fault String :=
  match disk.read path with
  | .ok bytes => .ok (String.ofList (Text.decodeLenient bytes))
  | .error .isADirectory => .error (.unreadableStream .isADirectory)
  | .error failure => .error (.unreadableFile path failure)

/-- The source of given names below a directory, as far as they can be read. -/
def sourceBelow (read : String → Except ReadFailure (List UInt8)) (root : String)
    (names : List String) : Source where
  texts := .ofList (names.filterMap fun name =>
    match (read (Path.join root name)).bind textOf with
    | .ok text => some (name, text)
    | .error _ => none)
  failure name :=
    match (read (Path.join root name)).bind textOf with
    | .ok _ => .unreadableFile (Path.join root name) .noSuchFile
    | .error failure => .unreadableFile (Path.join root name) failure

end Disk

end CoChange
