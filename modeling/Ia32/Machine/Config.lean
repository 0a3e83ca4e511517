/-
  How a machine is set up, and what can go wrong in doing so.

  Main definitions:
  - `MachineConfig` : memory size, reset vector and fault policy
  - `MachineError` : setups and images that are refused
-/
import Ia32.Ram

namespace Ia32

/-- What a run does about a fault: end, or let the guest's handler deal with it. -/
inductive FaultPolicy
  | stop | deliver
  deriving DecidableEq, Repr

/-- The place in real-mode code at which a machine starts. -/
structure ResetVector where
  segment : UInt16 := 0xF000
  offset : UInt16 := 0xFFF0
  deriving DecidableEq, Repr

/-- The first megabyte, which real mode can address. -/
def realModeSpan : Nat := 0x100000

structure MachineConfig where
  memorySize : Nat := 16 * realModeSpan
  faultPolicy : FaultPolicy := .stop
  resetVector : ResetVector := {}
  deriving DecidableEq, Repr

/-- Memory backs at least the span of real mode, and no more than 32-bit addresses can reach. -/
def MachineConfig.isValid (c : MachineConfig) : Bool :=
  decide (realModeSpan ≤ c.memorySize) && decide (c.memorySize ≤ UInt32.size)

/-- The images that have a place of their own. -/
inductive ImageKind
  | bios | videoBios
  deriving DecidableEq, Repr

def ImageKind.text : ImageKind → String
  | bios => "BIOS" | videoBios => "VGA BIOS"

inductive MachineError
  | invalidMemorySize (size : Nat)
  | imageTooLarge (kind : ImageKind) (length : Nat)
  | emptyImage (kind : ImageKind)
  | outOfRange (e : OutOfRange)
  deriving DecidableEq, Repr

def MachineError.message : MachineError → String
  | invalidMemorySize n =>
    "invalid memory size " ++ Text.hex0x n 1 ++ ": must be between 1 MiB and 4 GiB"
  | imageTooLarge k n =>
    k.text ++ " image of " ++ Text.hex0x n 1 ++ " bytes does not fit below 1 MiB"
  | emptyImage k => k.text ++ " image is empty"
  | outOfRange e => e.message

end Ia32
