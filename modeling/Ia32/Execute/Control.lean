/-
  Ports, single flags, and the control of the processor itself.

  Main definitions:
  - `PortOp.perform`, `FlagOp.apply`, `SystemOp.perform`
-/
import Ia32.Execute.Basic

namespace Ia32

open Exec

/-- Transfer between the accumulator and a port; as many bytes as the accumulator operand has. -/
def PortOp.perform {δ : Type} (o : PortOp) (i : Instruction) : Exec δ Unit :=
  match o with
  | .input => do
    let x ← operand i 0
    let port ← readOperand i 1
    let (v, s) := (← get).readPort port.toUInt16 x.width
    set s
    writeOperand i 0 v
  | .output => do
    let x ← operand i 1
    let port ← readOperand i 0
    let v ← readOperand i 1
    modify (·.writePort port.toUInt16 x.width v)

def FlagOp.apply (f : Flags) : FlagOp → Flags
  | clc => { f with carry := false }
  | stc => { f with carry := true }
  | cmc => { f with carry := !f.carry }
  | cld => { f with direction := false }
  | std => { f with direction := true }
  | cli => { f with interrupt := false }
  | sti => { f with interrupt := true }

/-- The bits of CR0 that make up the machine status word. -/
def statusWordMask : UInt32 := 0xF

/-- Load the machine status word; the protection bit can be set but not cleared. -/
def Cpu.loadStatusWord (c : Cpu) (v : UInt32) : Cpu :=
  let old := c.cr0
  let new := (old &&& ~~~statusWordMask) ||| (v &&& statusWordMask) ||| (old &&& 1)
  c.setCr0 new

namespace Exec

variable {δ : Type}

/-- Read a limit and a base from the first operand, of which words use only 24 bits. -/
def readTable (i : Instruction) : Exec δ TableRegister := do
  let (n, offset) ← memoryOperand i 0
  let s ← get
  let base := s.read n (i.addressSize.wrap (offset + 2)) .dword
  let base := match i.operandWidth with
    | .word => base &&& 0xFFFFFF
    | _ => base
  return ⟨base, (s.read n offset .word).toUInt16⟩

/-- Write a limit and a base to the first operand. -/
def writeTable (t : TableRegister) (i : Instruction) : Exec δ Unit := do
  let (n, offset) ← memoryOperand i 0
  modify fun s =>
    (s.write n offset .word t.limit.toUInt32).write n (i.addressSize.wrap (offset + 2)) .dword
      t.base

end Exec

def SystemOp.perform {δ : Type} (o : SystemOp) (i : Instruction) : Exec δ Outcome := do
  match o with
  | .hlt =>
    if (← gets (·.cpu.flags.interrupt)) then return .halt
    else throw .haltWithInterruptsDisabled
  | .nop => return .next
  | .lgdt => do
    let t ← readTable i
    modifyCpu fun c => { c with gdtr := t }
    return .next
  | .lidt => do
    let t ← readTable i
    modifyCpu fun c => { c with idtr := t }
    return .next
  | .sgdt => writeTable (← gets (·.cpu.gdtr)) i; return .next
  | .sidt => writeTable (← gets (·.cpu.idtr)) i; return .next
  | .lmsw => do
    let v ← readOperand i 0
    modifyCpu (·.loadStatusWord v)
    return .next
  | .smsw => do
    let v ← gets (·.cpu.cr0)
    writeOperand i 0 (v &&& 0xFFFF)
    return .next

end Ia32
