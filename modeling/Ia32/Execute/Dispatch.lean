/-
  Carrying out any instruction, in the unit that it names.

  Main definitions:
  - `Instruction.perform` : the effect of an instruction, short of moving past it

  Main statements:
  - `Instruction.perform_arithmetic`, `Instruction.perform_bitByte`,
    `Instruction.perform_transfer` : units that go on with the next instruction
  - `Instruction.perform_branch` : the unit that answers by itself
-/
import Ia32.Execute.Arithmetic
import Ia32.Execute.Bits
import Ia32.Execute.Branch
import Ia32.Execute.Control
import Ia32.Execute.Strings
import Ia32.Execute.Transfer

namespace Ia32

open Exec

/-- Carry out an instruction; `next` is the offset of the following one.  An operation of another
unit than the one that is asked to perform it is invalid, but a string repeated zero times is
not looked at. -/
def Instruction.perform {δ : Type} (i : Instruction) (next : UInt32) : Exec δ Outcome := do
  match i.unit, i.operation with
  | .branch, .branch o => o.perform i next
  | .arithmetic, .arithmetic o => o.perform i; return .next
  | .decimal, .decimal o => o.perform i; return .next
  | .logic, .logic o => o.perform i; return .next
  | .shiftRotate, .shiftRotate o => o.perform i; return .next
  | .bitByte, .bitByte o => o.perform i; return .next
  | .transfer, .transfer o => o.perform i; return .next
  | .string, .string o => modify (o.perform i); return .next
  | .string, _ =>
    if i.prefixes.rep.isSome && (← gets (·.cpu.low .ecx i.addressSize.width)) == 0 then
      return .next
    else throw .invalidOpcode
  | .port, .port o => o.perform i; return .next
  | .flag, .flag o => modifyCpu (fun c => { c with flags := o.apply c.flags }); return .next
  | .system, .system o => o.perform i
  | _, _ => throw .invalidOpcode

/-- The arithmetic unit goes on with the next instruction. -/
theorem Instruction.perform_arithmetic {δ : Type} {i : Instruction} {o : ArithmeticOp}
    (hunit : i.unit = .arithmetic) (hoperation : i.operation = .arithmetic o) (next : UInt32) :
    (i.perform next : Exec δ Outcome) = o.perform i >>= fun _ => pure .next := by
  rw [Instruction.perform, hunit, hoperation]

/-- So does the unit of bits and bytes. -/
theorem Instruction.perform_bitByte {δ : Type} {i : Instruction} {o : BitByteOp}
    (hunit : i.unit = .bitByte) (hoperation : i.operation = .bitByte o) (next : UInt32) :
    (i.perform next : Exec δ Outcome) = o.perform i >>= fun _ => pure .next := by
  rw [Instruction.perform, hunit, hoperation]

/-- So does the transfer unit. -/
theorem Instruction.perform_transfer {δ : Type} {i : Instruction} {o : TransferOp}
    (hunit : i.unit = .transfer) (hoperation : i.operation = .transfer o) (next : UInt32) :
    (i.perform next : Exec δ Outcome) = o.perform i >>= fun _ => pure .next := by
  rw [Instruction.perform, hunit, hoperation]

/-- The branch unit knows where to go on. -/
theorem Instruction.perform_branch {δ : Type} {i : Instruction} {o : BranchOp}
    (hunit : i.unit = .branch) (hoperation : i.operation = .branch o) (next : UInt32) :
    (i.perform next : Exec δ Outcome) = o.perform i next := by
  rw [Instruction.perform, hunit, hoperation]

end Ia32
