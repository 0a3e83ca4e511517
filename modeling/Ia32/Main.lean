/-
  The command on the operating system's files and streams.
-/
import Ia32.Command.Session

namespace Ia32.Command

/-- The number of the error behind an exception, or zero. -/
def osCode : IO.Error → UInt32
  | .alreadyExists _ n _ | .inappropriateType _ n _ | .invalidArgument _ n _
  | .noFileOrDirectory _ n _ | .noSuchThing _ n _ | .permissionDenied _ n _
  | .resourceExhausted _ n _ | .interrupted _ n _ => n
  | .hardwareFault n _ | .illegalOperation n _ | .otherError n _ | .protocolError n _
  | .resourceBusy n _ | .resourceVanished n _ | .timeExpired n _
  | .unsatisfiedConstraints n _ | .unsupportedOperation n _ => n
  | .unexpectedEof | .userError _ => 0

/-- The result of an action, or the number of its error. -/
def trying {α : Type} (x : IO α) : IO (Except OsError α) :=
  try return .ok (← x)
  catch e => return .error ⟨(osCode e).toNat⟩

def osHost (output errors : IO.FS.Stream) : Host IO IO.FS.Stream where
  readFile path := trying do
    let f ← IO.FS.Handle.mk path .read
    return (← f.readBinToEnd).toList
  createFile path := trying do return IO.FS.Stream.ofHandle (← IO.FS.Handle.mk path .write)
  standardOutput := output
  write f bs := trying do
    f.write bs.toByteArray
    f.flush
  report line := errors.putStrLn line

end Ia32.Command

def main (args : List String) : IO UInt32 := do
  let output ← IO.getStdout
  let errors ← IO.getStderr
  Ia32.Command.command (Ia32.Command.osHost output errors) args
