/-
  Decoded instructions: an operation, its operands, and the sizes in force.

  Main definitions:
  - `Operand`, `MemoryOperand` : where values come from and go to
  - `PrefixSet` : what the bytes in front of an opcode ask for
  - `Instruction` : an instruction ready to be executed
-/
import Ia32.Operation

namespace Ia32

/-- The width of address arithmetic. -/
inductive AddressSize
  | word | dword
  deriving DecidableEq, Repr

namespace AddressSize

def width : AddressSize → Width
  | word => .word | dword => .dword

/-- An offset, wrapped around the address size. -/
def wrap (a : AddressSize) (x : UInt32) : UInt32 := a.width.truncate x

end AddressSize

/-- The place `segment:[base + index * scale + displacement]`. -/
structure MemoryOperand where
  /-- The segment that the addressing form implies. -/
  implied : SegmentName
  overriding : Option SegmentName := none
  base : Option Gpr := none
  index : Option Gpr := none
  scale : UInt8 := 1
  displacement : UInt32
  deriving DecidableEq, Repr

namespace MemoryOperand

/-- A place at a fixed offset. -/
def absolute (d : UInt32) : MemoryOperand := { implied := .ds, displacement := d }

/-- A place relative to a base register; the stack registers imply the stack segment. -/
def based (b : Gpr) (d : UInt32) : MemoryOperand where
  implied := match b with
    | .esp | .ebp => .ss
    | _ => .ds
  base := some b
  displacement := d

def segment (m : MemoryOperand) : SegmentName := m.overriding.getD m.implied

end MemoryOperand

/-- An operand; an immediate value is already extended to its width. -/
inductive Operand
  | register (r : RegisterRef)
  | memory (m : MemoryOperand) (w : Width)
  | immediate (v : UInt32) (w : Width)
  deriving DecidableEq, Repr

def Operand.width : Operand → Width
  | register r => r.width
  | memory _ w => w
  | immediate _ w => w

/-- Repetition; comparisons go on while equal under `rep` and while unequal under `repne`. -/
inductive Repeat
  | rep | repne
  deriving DecidableEq, Repr

/-- What the bytes in front of an opcode ask for. -/
structure PrefixSet where
  segment : Option SegmentName := none
  operandSize : Bool := false
  addressSize : Bool := false
  rep : Option Repeat := none
  lock : Bool := false
  deriving DecidableEq, Repr

structure Instruction where
  operation : Operation
  /-- The unit that is asked to perform the operation. -/
  unit : ExecutionUnit
  /-- Three operands at most. -/
  operands : List Operand
  prefixes : PrefixSet
  operandWidth : Width
  addressSize : AddressSize
  /-- The width of the elements of a string, otherwise of the first operand. -/
  dataWidth : Width
  /-- The number of encoded bytes. -/
  length : UInt8
  deriving DecidableEq, Repr

/-- An instruction with words throughout and no prefixes; operands past the third are dropped. -/
def Instruction.ofOperands (o : Operation) (xs : List Operand) (length : UInt8) : Instruction where
  operation := o
  unit := o.unit
  operands := xs.take 3
  prefixes := {}
  operandWidth := .word
  addressSize := .word
  dataWidth := .word
  length := length

end Ia32
