/-
  A host that lives in memory: a directory of files, the directories above it, and what has been
  written to the standard streams.

  Main definitions:
  - `Location` : a place in the tree of directories
  - `Directory` : the files and the streams
  - `Directory.locate` : what a path leads to, for reading or for creating
  - `Directory.host` : the actions
-/
import Ia32.Command.Host

namespace Ia32.Command

/-- A place in the tree: `above` steps up from the directory, then down along the names. -/
structure Location where
  above : Nat := 0
  names : List String := []
  deriving DecidableEq, Repr

namespace Location

def child (l : Location) (name : String) : Location := { l with names := l.names ++ [name] }

def parent (l : Location) : Location :=
  if l.names.isEmpty then { l with above := l.above + 1 }
  else { l with names := l.names.dropLast }

end Location

/-- The files by their places, and the streams. -/
structure Directory where
  files : List (Location × List UInt8)
  output : Array UInt8 := #[]
  errors : String := ""

/-- What can be written to; what is discarded goes nowhere. -/
inductive Channel
  | output
  | file (place : Location)
  | discarded
  deriving DecidableEq, Repr

/-- What a path is looked up for. -/
inductive Purpose
  | reading | creating
  deriving DecidableEq, Repr

namespace Directory

/-- The longest name of a file, and the longest path, in bytes. -/
def maxNameLength : Nat := 255
def maxPathLength : Nat := 4095

def fileAt? (d : Directory) (l : Location) : Option (List UInt8) := d.files.lookup l

/-- The directory itself, those above it, and those on the way to a file. -/
def isDirectory (d : Directory) (l : Location) : Bool :=
  l.names.isEmpty || d.files.any fun f =>
    f.1.above == l.above && l.names.isPrefixOf f.1.names && f.1.names != l.names

/-- Replace the contents of a file, or add it. -/
def setFile (d : Directory) (l : Location) (bs : List UInt8) : Directory :=
  { d with files := (l, bs) :: d.files.filter (·.1 ≠ l) }

/-- One step of a path that goes on from there, so that it must lead to a directory. -/
def enter (d : Directory) (l : Location) (name : String) : Except OsError Location :=
  if name = "." then .ok l
  else if name = ".." then .ok l.parent
  else if maxNameLength < name.utf8ByteSize then .error .nameTooLong
  else if d.isDirectory (l.child name) then .ok (l.child name)
  else if (d.fileAt? (l.child name)).isSome then .error .notDirectory
  else .error .missing

/-- The last step of a path, which must lead to a file or, for creating one, to nothing.  After a
slash at the end only a directory could follow. -/
def finish (d : Directory) (p : Purpose) (slash : Bool) (l : Location) (name : String) :
    Except OsError Location :=
  if name = "." ∨ name = ".." ∨ (p = .creating ∧ slash) then .error .isDirectory
  else if maxNameLength < name.utf8ByteSize then .error .nameTooLong
  else if d.isDirectory (l.child name) then .error .isDirectory
  else if (d.fileAt? (l.child name)).isSome then
    if slash then .error .notDirectory else .ok (l.child name)
  else if p = .creating then .ok (l.child name)
  else .error .missing

/-- Follow the steps of a path. -/
def follow (d : Directory) (p : Purpose) (slash : Bool) :
    Location → List String → Except OsError Location
  | _, [] => .error .isDirectory
  | l, [name] => d.finish p slash l name
  | l, name :: rest => do d.follow p slash (← d.enter l name) rest

/-- The path of the device that is empty and discards what is written to it. -/
def nullDevice : String := "/dev/null"

/-- The file that a path leads to.  Of the root nothing is known but that it is a directory. -/
def locate (d : Directory) (p : Purpose) (path : String) : Except OsError Location :=
  let parts := path.splitOn "/"
  let steps := parts.filter (· ≠ "")
  if path.isEmpty then .error .missing
  else if maxPathLength < path.utf8ByteSize then .error .nameTooLong
  else if parts.head? = some "" then
    if steps.all fun s => s = "." ∨ s = ".." then .error .isDirectory else .error .missing
  else d.follow p (parts.getLast? = some "") {} steps

def readFile (path : String) : StateM Directory (Except OsError (List UInt8)) := do
  if path = nullDevice then return .ok []
  let d ← get
  return (d.locate .reading path).map fun l => (d.fileAt? l).getD []

def createFile (path : String) : StateM Directory (Except OsError Channel) := do
  if path = nullDevice then return .ok .discarded
  let d ← get
  match d.locate .creating path with
  | .ok l => do
    set (d.setFile l [])
    return .ok (.file l)
  | .error e => return .error e

/-- The contents of the file that a path leads to. -/
def contents? (d : Directory) (path : String) : Option (List UInt8) :=
  match d.locate .reading path with
  | .ok l => d.fileAt? l
  | .error _ => none

/-- A directory that holds the given files, by their paths. -/
def ofFiles (files : List (String × List UInt8)) : Directory where
  files := files.map fun f => ({ names := f.1.splitOn "/" }, f.2)

/-- Append to the output or to a file. -/
def append (d : Directory) (bs : List UInt8) : Channel → Directory
  | .output => { d with output := d.output ++ bs }
  | .file l => d.setFile l ((d.fileAt? l).getD [] ++ bs)
  | .discarded => d

def host : Host (StateM Directory) Channel where
  readFile := readFile
  createFile := createFile
  standardOutput := .output
  write c bs := do
    modify (·.append bs c)
    return .ok ()
  report line := modify fun d => { d with errors := d.errors ++ line ++ "\n" }

end Directory

end Ia32.Command
