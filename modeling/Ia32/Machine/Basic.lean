/-
  A machine: a processor with memory and devices, breakpoints, and a gate that holds runs back.

  Main definitions:
  - `Machine`, `Machine.create?`, `Machine.reset`
  - `Machine.loadImage`, `Machine.loadBios`, `Machine.loadVideoBios` : firmware in memory
  - `Machine.addBreakpoint`, `Machine.removeBreakpoint`
-/
import Ia32.Machine.Config
import Ia32.Processor
import Std.Data.TreeSet

namespace Ia32

structure Machine (δ : Type) where
  config : MachineConfig
  system : System δ
  /-- Linear addresses before which a run stops. -/
  breakpoints : Std.TreeSet UInt32
  /-- Runs go on as long as the gate is open. -/
  gateOpen : Bool

namespace Machine

variable {δ : Type}

/-- Power-on reset of processor and devices; memory is left alone. -/
def reset (m : Machine δ) : Machine δ :=
  let v := m.config.resetVector
  let s := m.system.resetCpu
  let s := s.modifyCpu (·.jump ⟨.realMode v.segment true, v.offset.toUInt32⟩)
  { m with system := { s with io := s.io.reset } }

/-- A machine with zeroed memory and unclaimed ports, at its reset vector. -/
def create? (c : MachineConfig) (devices : δ) : Except MachineError (Machine δ) :=
  if c.isValid then
    .ok (reset {
      config := c
      system := ⟨Cpu.reset, Ram.zeroed c.memorySize, Io.init devices⟩
      breakpoints := ∅
      gateOpen := true })
  else .error (.invalidMemorySize c.memorySize)

/-! ## Images -/

/-- Copy an image to memory, where it must fit. -/
def loadImage (m : Machine δ) (addr : UInt32) (image : List UInt8) :
    Except MachineError (Machine δ) :=
  match m.system.ram.blockWrite addr.toUInt64 image with
  | .ok ram => .ok { m with system.ram := ram }
  | .error e => .error (.outOfRange e)

/-- The address of an image of `n` bytes: the system BIOS ends where real-mode memory ends, the
video BIOS starts at a fixed address. -/
def imageBase (k : ImageKind) (n : Nat) : Nat :=
  match k with
  | .bios => realModeSpan - n
  | .videoBios => 0xC0000

/-- Copy a BIOS image to its place below the end of real-mode memory. -/
def loadFirmware (m : Machine δ) (k : ImageKind) (image : List UInt8) :
    Except MachineError (Machine δ) :=
  let n := image.length
  if n = 0 then .error (.emptyImage k)
  else if realModeSpan < imageBase k n + n then .error (.imageTooLarge k n)
  else m.loadImage (UInt32.ofNat (imageBase k n)) image

def loadBios (m : Machine δ) (image : List UInt8) : Except MachineError (Machine δ) :=
  m.loadFirmware .bios image

def loadVideoBios (m : Machine δ) (image : List UInt8) : Except MachineError (Machine δ) :=
  m.loadFirmware .videoBios image

/-! ## Breakpoints and the gate -/

def addBreakpoint (m : Machine δ) (addr : UInt32) : Machine δ :=
  { m with breakpoints := m.breakpoints.insert addr }

/-- Remove a breakpoint; tells whether it was set. -/
def removeBreakpoint (m : Machine δ) (addr : UInt32) : Bool × Machine δ :=
  (m.breakpoints.contains addr, { m with breakpoints := m.breakpoints.erase addr })

def clearBreakpoints (m : Machine δ) : Machine δ := { m with breakpoints := ∅ }

/-- The linear address of CS:EIP. -/
def currentAddress (m : Machine δ) : UInt32 := m.system.cpu.linear .cs m.system.cpu.eip

def atBreakpoint (m : Machine δ) : Bool := m.breakpoints.contains m.currentAddress

end Machine

end Ia32
