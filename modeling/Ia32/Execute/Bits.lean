/-
  Bitwise logic, shifts and rotates, and the operations on single bits.

  Main definitions:
  - `LogicOp.perform`, `ShiftRotateOp.perform`, `BitByteOp.perform`
  - `Exec.locateBit` : the bit that a bit test works on
-/
import Ia32.Alu.Shift
import Ia32.Alu.Sum
import Ia32.Execute.Basic

namespace Ia32

open Exec

def LogicOp.perform {δ : Type} (o : LogicOp) (i : Instruction) : Exec δ Unit :=
  match o with
  | .and => do let b ← readOperand i 1; transform i fun f w a => Alu.logic f w (a &&& b)
  | .or => do let b ← readOperand i 1; transform i fun f w a => Alu.logic f w (a ||| b)
  | .xor => do let b ← readOperand i 1; transform i fun f w a => Alu.logic f w (a ^^^ b)
  | .test => do let b ← readOperand i 1; examine i fun f w a => Alu.logic f w (a &&& b)
  | .not => transform i fun f _ a => (~~~a, f)

/-- The count is the second operand, or one if there is none. -/
def ShiftRotateOp.perform {δ : Type} (o : ShiftRotateOp) (i : Instruction) : Exec δ Unit := do
  let count ← if 1 < i.operands.length then readOperand i 1 else pure 1
  match o with
  | .shift k => transform i fun f w a => Alu.shift f k w a count
  | .rotate k => transform i fun f w a => Alu.rotate f k w a count

/-- The number of the lowest bit that is set. -/
def lowestBit? (x : UInt32) : Option Nat := (List.range 32).find? x.toNat.testBit

/-- The number of the highest bit that is set. -/
def highestBit? (x : UInt32) : Option Nat := (List.range 32).reverse.find? x.toNat.testBit

def BitUpdate.apply (u : BitUpdate) (x mask : UInt32) : UInt32 :=
  match u with
  | keep => x
  | set => x ||| mask
  | reset => x &&& ~~~mask
  | complement => x ^^^ mask

namespace Exec

variable {δ : Type}

/-- The location and the number of the bit that the second operand selects in the first.  A
register selects, as a signed number, any bit before or after a place in memory; otherwise the
number counts modulo the width. -/
def locateBit (i : Instruction) : Exec δ (Location × Nat) := do
  let x ← operand i 0
  let y ← operand i 1
  let n ← readOperand i 1
  let l ← gets (·.cpu.locate i.addressSize x)
  match l, y with
  | .memory s offset, .register r =>
    let n := r.width.signed n
    let displacement := UInt32.ofInt (n / x.width.bits * x.width.bytes)
    return (.memory s (i.addressSize.wrap (offset + displacement)), (n % x.width.bits).toNat)
  | _, _ => return (l, n.toNat % x.width.bits)

/-- Copy a bit to the carry flag and update it. -/
def testBit (u : BitUpdate) (i : Instruction) : Exec δ Unit := do
  let x ← operand i 0
  let (l, n) ← locateBit i
  let v ← gets (·.load x.width l)
  let mask : UInt32 := 1 <<< UInt32.ofNat n
  modifyCpu fun c => { c with flags.carry := v &&& mask != 0 }
  if u = .keep then return
  else store x.width (u.apply v mask) l

/-- Write the number of a set bit of the second operand to the first; if there is none, only the
zero flag tells. -/
def scanBits (scan : UInt32 → Option Nat) (i : Instruction) : Exec δ Unit := do
  let x ← operand i 0
  let v ← readOperand i 1
  match scan (x.width.truncate v) with
  | none => modifyCpu fun c => { c with flags.zero := true }
  | some n => do
    modifyCpu fun c => { c with flags.zero := false }
    writeOperand i 0 (UInt32.ofNat n)

end Exec

def BitByteOp.perform {δ : Type} (o : BitByteOp) (i : Instruction) : Exec δ Unit :=
  match o with
  | .setcc c => do writeOperand i 0 (c.holds (← gets (·.cpu.flags))).toUInt32
  | .bitTest u => testBit u i
  | .scanForward => scanBits lowestBit? i
  | .scanReverse => scanBits highestBit? i

end Ia32
