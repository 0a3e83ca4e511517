/-
  A processor with its memory and its ports.

  Main definitions:
  - `System` : registers, memory, and the input/output side
  - `System.readLinear`, `System.writeLinear` : memory at a linear address, of 32 bits
  - `System.read`, `System.write` : memory at an offset in a segment
  - `Exec` : a computation on a system; a fault cuts it short, and what was done before it stays
-/
import Ia32.Cpu
import Ia32.Io
import Ia32.Ram

namespace Ia32

structure System (δ : Type) where
  cpu : Cpu
  ram : Ram
  io : Io δ

namespace System

variable {δ : Type}

def readLinear (s : System δ) (a : UInt32) (w : Width) : UInt32 := s.ram.read w a.toUInt64

def writeLinear (s : System δ) (a : UInt32) (w : Width) (v : UInt32) : System δ :=
  { s with ram := s.ram.write w a.toUInt64 v }

/-- The value at an offset in a segment; the limit is not looked at. -/
def read (s : System δ) (n : SegmentName) (offset : UInt32) (w : Width) : UInt32 :=
  s.readLinear (s.cpu.linear n offset) w

/-- Put a value at an offset in a segment; the limit is not looked at. -/
def write (s : System δ) (n : SegmentName) (offset : UInt32) (w : Width) (v : UInt32) : System δ :=
  s.writeLinear (s.cpu.linear n offset) w v

def modifyCpu (s : System δ) (f : Cpu → Cpu) : System δ := { s with cpu := f s.cpu }

/-- Read as many bytes as `w` has from a port. -/
def readPort (s : System δ) (port : UInt16) (w : Width) : UInt32 × System δ :=
  let (v, io) := s.io.read port (UInt8.ofNat w.bytes)
  (v, { s with io := io })

/-- Write as many bytes as `w` has to a port. -/
def writePort (s : System δ) (port : UInt16) (w : Width) (v : UInt32) : System δ :=
  { s with io := s.io.write port (UInt8.ofNat w.bytes) v }

@[simp] theorem cpu_writeLinear (s : System δ) (a : UInt32) (w : Width) (v : UInt32) :
    (s.writeLinear a w v).cpu = s.cpu := rfl

@[simp] theorem io_writeLinear (s : System δ) (a : UInt32) (w : Width) (v : UInt32) :
    (s.writeLinear a w v).io = s.io := rfl

@[simp] theorem cpu_write (s : System δ) (n : SegmentName) (o : UInt32) (w : Width) (v : UInt32) :
    (s.write n o w v).cpu = s.cpu := rfl

@[simp] theorem io_write (s : System δ) (n : SegmentName) (o : UInt32) (w : Width) (v : UInt32) :
    (s.write n o w v).io = s.io := rfl

@[simp] theorem cpu_modifyCpu (s : System δ) (f : Cpu → Cpu) : (s.modifyCpu f).cpu = f s.cpu := rfl

@[simp] theorem ram_modifyCpu (s : System δ) (f : Cpu → Cpu) : (s.modifyCpu f).ram = s.ram := rfl

@[simp] theorem io_modifyCpu (s : System δ) (f : Cpu → Cpu) : (s.modifyCpu f).io = s.io := rfl

end System

abbrev Exec (δ : Type) := EStateM Fault (System δ)

namespace Exec

variable {δ α : Type}

/-- A value read off the current state. -/
def gets (f : System δ → α) : Exec δ α := return f (← get)

def modifyCpu (f : Cpu → Cpu) : Exec δ Unit := modify (·.modifyCpu f)

end Exec

end Ia32
