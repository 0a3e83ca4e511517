/-
  Arithmetic on binary numbers and decimal digits.

  Main definitions:
  - `ArithmeticOp.perform`, `DecimalOp.perform`
  - `Cpu.widePair`, `Cpu.setWidePair` : the double-width accumulator of products and dividends
-/
import Ia32.Alu.Decimal
import Ia32.Alu.Product
import Ia32.Alu.Sum
import Ia32.Execute.Basic

namespace Ia32

namespace Cpu

/-- AX, DX:AX or EDX:EAX, whichever is twice as wide as `w`. -/
def widePair (c : Cpu) (w : Width) : UInt64 :=
  match w with
  | .byte => c.ax.toUInt64
  | .word => c.dx.toUInt64 <<< 16 ||| c.ax.toUInt64
  | .dword => c.gprs.edx.toUInt64 <<< 32 ||| c.gprs.eax.toUInt64

/-- Replace the two halves of AX, DX:AX or EDX:EAX. -/
def setWidePair (c : Cpu) (w : Width) (lo hi : UInt32) : Cpu :=
  match w with
  | .byte => c.setLow .eax .word ((hi <<< 8) ||| lo)
  | _ => (c.setLow .eax w lo).setLow .edx w hi

end Cpu

namespace Exec

variable {δ : Type}

/-- Multiply the accumulator by the first operand. -/
def multiplyWide (i : Instruction)
    (f : Flags → Width → UInt32 → UInt32 → (UInt32 × UInt32) × Flags) : Exec δ Unit := do
  let x ← operand i 0
  let b ← readOperand i 0
  modifyCpu fun c =>
    let ((lo, hi), g) := f c.flags x.width (c.low .eax x.width) b
    { c.setWidePair x.width lo hi with flags := g }

/-- Divide the double-width accumulator by the first operand. -/
def divideWide (i : Instruction)
    (f : Width → UInt64 → UInt32 → Except Fault (UInt32 × UInt32)) : Exec δ Unit := do
  let x ← operand i 0
  let d ← readOperand i 0
  let n ← gets (·.cpu.widePair x.width)
  let (q, r) ← ofExcept (f x.width n d)
  modifyCpu (·.setWidePair x.width q r)

/-- Write the low half of the signed product of two operands to the first one. -/
def multiplyInto (i : Instruction) (k l : Nat) : Exec δ Unit := do
  let x ← operand i 0
  let a ← readOperand i k
  let b ← readOperand i l
  let f ← gets (·.cpu.flags)
  let ((lo, _), g) := Alu.imul f x.width a b
  modifyCpu fun c => { c with flags := g }
  writeOperand i 0 lo

end Exec

open Exec

def ArithmeticOp.perform {δ : Type} (o : ArithmeticOp) (i : Instruction) : Exec δ Unit :=
  match o with
  | .add => do let b ← readOperand i 1; transform i fun f w a => Alu.add f w a b false
  | .adc => do let b ← readOperand i 1; transform i fun f w a => Alu.add f w a b f.carry
  | .sub => do let b ← readOperand i 1; transform i fun f w a => Alu.sub f w a b false
  | .sbb => do let b ← readOperand i 1; transform i fun f w a => Alu.sub f w a b f.carry
  | .cmp => do let b ← readOperand i 1; examine i fun f w a => Alu.sub f w a b false
  | .inc => transform i Alu.inc
  | .dec => transform i Alu.dec
  | .neg => transform i Alu.neg
  | .mul => multiplyWide i Alu.mul
  | .imul =>
    match i.operands.length with
    | 1 => multiplyWide i Alu.imul
    | 2 => multiplyInto i 0 1
    | 3 => multiplyInto i 1 2
    | _ => throw .invalidOpcode
  | .div => divideWide i Alu.div
  | .idiv => divideWide i Alu.idiv
  | .cbw => modifyCpu fun c =>
    match i.operandWidth with
    | .dword => c.setLow .eax .dword (Width.signExtend .word c.gprs.eax)
    | _ => c.setLow .eax .word (Width.signExtend .byte c.gprs.eax)
  | .cwd => modifyCpu fun c =>
    let w := match i.operandWidth with
      | .dword => .dword
      | _ => .word
    c.setLow .edx w (if w.sign c.gprs.eax then w.mask else 0)

/-- The number base of an adjustment of unpacked digits; ten unless an operand gives it. -/
def Exec.digitBase {δ : Type} (i : Instruction) : Exec δ UInt8 :=
  if i.operands.isEmpty then return 10 else return (← readOperand i 0).toUInt8

def DecimalOp.perform {δ : Type} (o : DecimalOp) (i : Instruction) : Exec δ Unit :=
  let setByte (r : UInt8 × Flags) : Exec δ Unit :=
    modifyCpu fun c => { c.setLow .eax .byte r.1.toUInt32 with flags := r.2 }
  let setWord (r : UInt16 × Flags) : Exec δ Unit :=
    modifyCpu fun c => { c.setLow .eax .word r.1.toUInt32 with flags := r.2 }
  match o with
  | .daa => do let c ← gets System.cpu; setByte (Alu.daa c.flags c.al)
  | .das => do let c ← gets System.cpu; setByte (Alu.das c.flags c.al)
  | .aaa => do let c ← gets System.cpu; setWord (Alu.aaa c.flags c.ax)
  | .aas => do let c ← gets System.cpu; setWord (Alu.aas c.flags c.ax)
  | .aam => do
    let base ← digitBase i
    let c ← gets System.cpu
    setWord (← ofExcept (Alu.aam c.flags c.al base))
  | .aad => do
    let base ← digitBase i
    let c ← gets System.cpu
    setWord (Alu.aad c.flags c.ax base)

end Ia32
