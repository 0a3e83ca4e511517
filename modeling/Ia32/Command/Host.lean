/-
  What the command needs of the world around it.

  Main definitions:
  - `OsError` : the errors of an operating system, by number
  - `Host` : files, standard output and standard error, as actions of a monad
-/

namespace Ia32.Command

/-- An error that the operating system reports by its number. -/
structure OsError where
  code : Nat
  deriving DecidableEq, Repr

namespace OsError

def missing : OsError := ⟨2⟩

def notDirectory : OsError := ⟨20⟩

def isDirectory : OsError := ⟨21⟩

def nameTooLong : OsError := ⟨36⟩

def text (e : OsError) : String :=
  match e.code with
  | 1 => "Operation not permitted"
  | 2 => "No such file or directory"
  | 5 => "Input/output error"
  | 12 => "Cannot allocate memory"
  | 13 => "Permission denied"
  | 20 => "Not a directory"
  | 21 => "Is a directory"
  | 22 => "Invalid argument"
  | 24 => "Too many open files"
  | 26 => "Text file busy"
  | 27 => "File too large"
  | 28 => "No space left on device"
  | 30 => "Read-only file system"
  | 32 => "Broken pipe"
  | 36 => "File name too long"
  | 40 => "Too many levels of symbolic links"
  | n => "Unknown error " ++ toString n

def message (e : OsError) : String := e.text ++ " (os error " ++ toString e.code ++ ")"

end OsError

/-- Files and standard streams; `σ` names what can be written to. -/
structure Host (m : Type → Type) (σ : Type) where
  readFile : String → m (Except OsError (List UInt8))
  /-- Create a file, or empty it if it exists. -/
  createFile : String → m (Except OsError σ)
  standardOutput : σ
  write : σ → List UInt8 → m (Except OsError Unit)
  /-- Write a line to standard error. -/
  report : String → m Unit

end Ia32.Command
