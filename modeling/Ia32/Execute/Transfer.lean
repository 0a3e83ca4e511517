/-
  Transfers of data between registers, memory and the stack.

  Main definitions:
  - `TransferOp.perform`
  - `Flags.ofStatusByte`, `Flags.statusByte` : the byte form of the low flags
-/
import Ia32.Execute.Basic
import Ia32.Stack

namespace Ia32

namespace Flags

/-- The low byte of the stored form. -/
def statusByte (f : Flags) : UInt8 := f.image.toUInt8

/-- Take over the flags that stand in the low byte. -/
def ofStatusByte (f : Flags) (x : UInt8) : Flags :=
  let g := ofBits x.toUInt32
  { f with
    carry := g.carry
    parity := g.parity
    adjust := g.adjust
    zero := g.zero
    sign := g.sign }

/-- The flags that the stack shows: resume and virtual-8086 are hidden. -/
def visible (f : Flags) : Flags := { f with resume := false, virtual8086 := false }

end Flags

namespace System

variable {δ : Type}

/-- Push all general registers; the stack pointer as it was before. -/
def pushAll (s : System δ) (w : Width) : System δ :=
  Gpr.all.foldl (fun t r => t.push w (s.cpu.low r w)) s

/-- Pop all general registers, but leave out the stack pointer. -/
def popAll (s : System δ) (w : Width) : System δ :=
  Gpr.all.reverse.foldl (fun s r =>
    let (v, s) := s.pop w
    if r = .esp then s else s.modifyCpu (·.setLow r w v)) s

end System

namespace Exec

variable {δ : Type}

/-- Exchange the first two operands. -/
def exchange (i : Instruction) : Exec δ Unit := do
  let x ← operand i 0
  let y ← operand i 1
  let s ← get
  let k := s.cpu.locate i.addressSize x
  let l := s.cpu.locate i.addressSize y
  store x.width (s.load y.width l) k
  store y.width (s.load x.width k) l

/-- Write the offset of the second operand, which must lie in memory, to the first. -/
def loadAddress (i : Instruction) : Exec δ Unit := do
  let (_, offset) ← memoryOperand i 1
  writeOperand i 0 offset

/-- Pop into the first operand.  An address sees the stack pointer behind the element; a segment
register must accept the selector before the pointer moves. -/
def popOperand (i : Instruction) : Exec δ Unit := do
  let w := i.operandWidth
  let x ← operand i 0
  let v ← gets (·.peek 0 w)
  match x with
  | .register ⟨.segment, n, u⟩ => do
    storeRegister ⟨.segment, n, u⟩ v
    modifyCpu (·.adjustStack w.stride)
  | _ => do
    modifyCpu (·.adjustStack w.stride)
    writeOperand i 0 v

/-- Load a segment register and a general register from a far pointer in memory. -/
def loadFarPointer (n : SegmentName) (i : Instruction) : Exec δ Unit := do
  let (selector, offset) ← readFarPointer i 1
  setSelector n selector
  writeOperand i 0 offset

/-- Replace the accumulator byte by the entry of a table that it numbers. -/
def lookUp (i : Instruction) : Exec δ Unit := do
  let s ← get
  let offset := i.addressSize.wrap (s.cpu.gprs.ebx + s.cpu.al.toUInt32)
  let v := s.read (i.prefixes.segment.getD .ds) offset .byte
  modifyCpu (·.setLow .eax .byte v)

end Exec

open Exec

def TransferOp.perform {δ : Type} (o : TransferOp) (i : Instruction) : Exec δ Unit :=
  let w := i.operandWidth
  match o with
  | .mov => do writeOperand i 0 (← readOperand i 1)
  | .movzx => do
    let x ← operand i 1
    writeOperand i 0 (x.width.truncate (← readOperand i 1))
  | .movsx => do
    let x ← operand i 1
    writeOperand i 0 (x.width.signExtend (← readOperand i 1))
  | .xchg => exchange i
  | .lea => loadAddress i
  | .push => do let v ← readOperand i 0; modify (·.push w v)
  | .pop => popOperand i
  | .pusha => modify (·.pushAll w)
  | .popa => modify (·.popAll w)
  | .pushf => modify fun s => s.push w s.cpu.flags.visible.image
  | .popf => modify fun s =>
    let (v, s) := s.pop w
    s.modifyCpu fun c => { c with flags := c.flags.restore w v }
  | .lahf => modifyCpu fun c => c.setHigh .eax c.flags.statusByte.toUInt32
  | .sahf => modifyCpu fun c =>
    { c with flags := c.flags.ofStatusByte (c.gprs.high .eax).toUInt8 }
  | .loadFar n => loadFarPointer n i
  | .xlat => lookUp i

end Ia32
