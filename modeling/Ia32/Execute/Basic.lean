/-
  The operands of an instruction while it is carried out.

  Main definitions:
  - `Location` : where the value of an operand lives; a place in memory stays the same even if a
    register in its address changes afterwards
  - `Cpu.locate`, `System.load`, `Exec.store` : find, read and write it
  - `Exec.readOperand`, `Exec.writeOperand`, `Exec.readFarPointer` : operands by number
  - `Outcome` : what becomes of EIP after an operation
-/
import Ia32.Instruction
import Ia32.Segmentation

namespace Ia32

/-- Where to go on: past the instruction, where EIP already points, or nowhere for the time
being. -/
inductive Outcome
  | next | branch | halt
  deriving DecidableEq, Repr

inductive Location
  | register (r : RegisterRef)
  | memory (n : SegmentName) (offset : UInt32)
  | immediate (v : UInt32)
  deriving DecidableEq, Repr

namespace Cpu

/-- The offset that an address stands for, wrapped around the address size. -/
def effectiveOffset (c : Cpu) (a : AddressSize) (m : MemoryOperand) : UInt32 :=
  let base := (m.base.map c.gprs.get).getD 0
  let index := (m.index.map c.gprs.get).getD 0
  a.wrap (m.displacement + base + index * m.scale.toUInt32)

def locate (c : Cpu) (a : AddressSize) : Operand → Location
  | .register r => .register r
  | .memory m _ => .memory m.segment (c.effectiveOffset a m)
  | .immediate v w => .immediate (w.truncate v)

end Cpu

namespace System

variable {δ : Type}

def load (s : System δ) (w : Width) : Location → UInt32
  | .register r => s.cpu.readRegister r
  | .memory n offset => s.read n offset w
  | .immediate v => v

/-- The value of an operand at its own width. -/
def value (s : System δ) (a : AddressSize) (x : Operand) : UInt32 :=
  s.load x.width (s.cpu.locate a x)

end System

namespace Exec

variable {δ : Type}

/-- Write a register, or load it if it is a segment register; CS and registers that do not exist
cannot be written. -/
def storeRegister (r : RegisterRef) (v : UInt32) : Exec δ Unit :=
  match r.file with
  | .segment =>
    match r.segmentName? with
    | none | some .cs => throw .invalidOpcode
    | some n => setSelector n v.toUInt16
  | _ => do
    match ← gets (·.cpu.writeRegister? r v) with
    | some c => modifyCpu fun _ => c
    | none => throw .invalidOpcode

def store (w : Width) (v : UInt32) : Location → Exec δ Unit
  | .register r => storeRegister r v
  | .memory n offset => modify (·.write n offset w v)
  | .immediate _ => throw .invalidOpcode

/-- Operand number `k`. -/
def operand (i : Instruction) (k : Nat) : Exec δ Operand :=
  match i.operands[k]? with
  | some x => pure x
  | none => throw .invalidOpcode

/-- The value of operand number `k`. -/
def readOperand (i : Instruction) (k : Nat) : Exec δ UInt32 := do
  let x ← operand i k
  gets (·.value i.addressSize x)

/-- Write operand number `k`. -/
def writeOperand (i : Instruction) (k : Nat) (v : UInt32) : Exec δ Unit := do
  let x ← operand i k
  store x.width v (← gets (·.cpu.locate i.addressSize x))

/-- Segment and offset of operand number `k`, which must lie in memory. -/
def memoryOperand (i : Instruction) (k : Nat) : Exec δ (SegmentName × UInt32) := do
  let x ← operand i k
  match ← gets (·.cpu.locate i.addressSize x) with
  | .memory n offset => return (n, offset)
  | _ => throw .invalidOpcode

/-- The far pointer in memory at operand number `k`, as selector and offset. -/
def readFarPointer (i : Instruction) (k : Nat) : Exec δ (UInt16 × UInt32) := do
  let (n, offset) ← memoryOperand i k
  let w := i.operandWidth
  let s ← get
  return ((s.read n (i.addressSize.wrap (offset + w.stride)) .word).toUInt16, s.read n offset w)

/-- Replace the first operand by a function of it that also gives the flags. -/
def transform (i : Instruction) (f : Flags → Width → UInt32 → UInt32 × Flags) : Exec δ Unit := do
  let x ← operand i 0
  let s ← get
  let l := s.cpu.locate i.addressSize x
  let (v, g) := f s.cpu.flags x.width (s.load x.width l)
  modifyCpu fun c => { c with flags := g }
  store x.width v l

/-- Take over the flags that a function of the first operand gives. -/
def examine (i : Instruction) (f : Flags → Width → UInt32 → UInt32 × Flags) : Exec δ Unit := do
  let x ← operand i 0
  let a ← readOperand i 0
  modifyCpu fun c => { c with flags := (f c.flags x.width a).2 }

end Exec

end Ia32
