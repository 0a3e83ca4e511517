/-
  The command: boot a BIOS image, run it, and say how the run ended.

  Main definitions:
  - `Failure` : why a session failed
  - `boot` : a machine set up as the options ask
  - `session` : boot, run and conclude
  - `command` : the whole command, from its arguments to its exit status
-/
import Ia32.Command.Help
import Ia32.Command.Host
import Ia32.Command.Options
import Ia32.Device.Console
import Ia32.Machine.Slices

namespace Ia32.Command

/-- Why a session failed, with the error behind it if there is one. -/
structure Failure where
  text : String
  cause : Option String := none
  deriving DecidableEq, Repr

def Failure.message (f : Failure) : String :=
  "Error: " ++ f.text ++ match f.cause with
    | some c => "\n\nCaused by:\n    " ++ c
    | none => ""

/-- The registers as three lines of text. -/
def registerLines (c : Cpu) : String :=
  let word (name : String) (v : UInt32) : String := name ++ "=" ++ Text.hex v.toNat 8
  let selector (name : String) (n : SegmentName) : String :=
    name ++ "=" ++ Text.hex (c.selector n).toNat 4
  let g := c.gprs
  let lines := [
    [word "EAX" g.eax, word "EBX" g.ebx, word "ECX" g.ecx, word "EDX" g.edx],
    [word "ESI" g.esi, word "EDI" g.edi, word "EBP" g.ebp, word "ESP" g.esp],
    [selector "CS" .cs, selector "DS" .ds, selector "ES" .es, selector "SS" .ss,
     word "EIP" c.eip, word "EFLAGS" c.flags.image, word "CR0" c.cr0]]
  "\n".intercalate (lines.map fun l => " ".intercalate l)

variable {m : Type → Type} [Monad m] {σ : Type} (h : Host m σ)

/-- Actions that may end the session. -/
abbrev Attempt (m : Type → Type) := ExceptT Failure m

/-- Go on with a machine, or say what could not be done and why. -/
def explain {α : Type} (text : String) : Except MachineError α → Attempt m α
  | .ok a => pure a
  | .error e => throw ⟨text, some e.message⟩

def readImage (path : String) : Attempt m (List UInt8) := do
  match ← h.readFile path with
  | .ok bs => return bs
  | .error e => throw ⟨"failed to read image " ++ path, some e.message⟩

/-- Memory sizes in bytes must fit a 64-bit word. -/
def memorySize (o : Options) : Attempt m Nat :=
  let n := o.memoryMib * realModeSpan
  if n < UInt64.size then return n else throw ⟨"memory size overflow", none⟩

/-- A machine with its images loaded, its breakpoints set and the debug console attached. -/
def boot (o : Options) : Attempt m (Machine Console) := do
  let config : MachineConfig := {
    memorySize := ← memorySize o
    faultPolicy := if o.deliverFaults then .deliver else .stop }
  let x ← explain "failed to create machine" (Machine.create? config #[])
  let image ← readImage h o.bios
  let x ← explain ("failed to load BIOS " ++ o.bios) (x.loadBios image)
  let x ← match o.videoBios with
    | none => pure x
    | some path => do
      let image ← readImage h path
      explain ("failed to load VGA BIOS " ++ path) (x.loadVideoBios image)
  let x := o.breakpoints.foldl Machine.addBreakpoint x
  return { x with system.io := x.system.io.register [Console.port] Console.device }

/-- What takes the output of the debug console: nothing, standard output, or a file. -/
def openSink (o : Options) : Attempt m (Option σ) :=
  match o.consoleOut with
  | "none" => return none
  | "stdout" => return some h.standardOutput
  | path => do
    match ← h.createFile path with
    | .ok f => return some f
    | .error e => throw ⟨"failed to create output file: " ++ path, some e.message⟩

/-- Hand over what the debug console has collected. -/
def drain (sink : Option σ) (x : Machine Console) : Attempt m (Machine Console) :=
  match sink with
  | none => return x
  | some f => do
    let bytes := x.system.io.devices
    if bytes.isEmpty then return x
    else
      match ← h.write f bytes.toList with
      | .ok _ => return { x with system.io.devices := #[] }
      | .error e => throw ⟨e.message, none⟩

/-- Say how a run ended; a fault is a failure. -/
def conclude (r : RunReport) (c : Cpu) : Attempt m Unit :=
  let after (what : String) : String := what ++ " after " ++ toString r.executed ++ " cycles"
  match r.exit with
  | .completed => h.report (after "instruction budget exhausted")
  | .halted => h.report (after "guest halted")
  | .stopped => h.report (after "machine stopped")
  | .breakpoint a => do
    h.report (after ("breakpoint at " ++ Text.hex0x a.toNat 5))
    h.report (registerLines c)
  | .exception f => do
    h.report (registerLines c)
    throw ⟨after "execution stopped" ++ ": " ++ f.message, none⟩

/-- The number of cycles between two looks at the debug console. -/
def sliceLength : Nat := 100000

def session (o : Options) : Attempt m Unit := do
  let x ← boot h o
  let sink ← openSink h o
  let budget := o.budget.getD (UInt64.size - 1)
  let (r, x) ← x.runSlices sliceLength (drain h sink) 0 budget
  conclude h r x.system.cpu

/-- The whole command; the result is the exit status. -/
def command (args : List String) : m UInt32 := do
  match Request.parse args with
  | .error e => do
    h.report e.message
    return 2
  | .ok .help => do
    let _ ← h.write h.standardOutput helpText.toUTF8.toList
    return 0
  | .ok (.run o) =>
    match ← (session h o).run with
    | .ok _ => return 0
    | .error f => do
      h.report f.message
      return 1

end Ia32.Command
