/-
  Transfers of control: jumps, loops, calls, interrupts, and stack frames of procedures.

  Main definitions:
  - `BranchOp.perform`
  - `Exec.enterFrame`, `Exec.leaveFrame` : the frame of a procedure
-/
import Ia32.Execute.Basic
import Ia32.Interrupt

namespace Ia32

def LoopTest.holds (f : Flags) : LoopTest → Bool
  | always => true
  | whileEqual => f.zero
  | whileNotEqual => !f.zero

/-- The number of bytes that a return takes off the stack besides the return address. -/
def Instruction.releasedBytes (i : Instruction) : UInt32 :=
  match i.operands.head? with
  | some (.immediate n _) => n &&& 0xFFFF
  | _ => 0

namespace Exec

variable {δ : Type}

/-- The target of a near jump or call; taken from a register or from memory, it is cut to the
operand width. -/
def nearTarget (i : Instruction) : Exec δ UInt32 := do
  let v ← readOperand i 0
  match ← operand i 0 with
  | .immediate _ _ => return v
  | _ => return i.operandWidth.truncate v

/-- The target of a far jump or call, as selector and offset. -/
def farTarget (i : Instruction) : Exec δ (UInt16 × UInt32) := do
  match ← operand i 0 with
  | .immediate offset _ => return ((← readOperand i 1).toUInt16, offset)
  | _ => readFarPointer i 0

/-- Go to the target that the first operand gives, if `taken`. -/
def jumpIf (taken : Bool) (i : Instruction) : Exec δ Outcome :=
  if taken then do
    nearTransfer (← readOperand i 0)
    return .branch
  else return .next

/-- Count down and go to the target unless the count has come to zero or the test fails. -/
def countDown (t : LoopTest) (i : Instruction) : Exec δ Outcome := do
  let w := i.addressSize.width
  let c ← gets System.cpu
  let n := w.truncate (c.low .ecx w - 1)
  let o ← jumpIf (n != 0 && t.holds c.flags) i
  modifyCpu (·.setLow .ecx w n)
  return o

/-- Call a procedure in the code segment; `next` is the return offset. -/
def nearCall (i : Instruction) (next : UInt32) : Exec δ Unit := do
  nearTransfer (← nearTarget i)
  modify (·.push i.operandWidth next)

/-- Call a procedure in any code segment. -/
def farCall (i : Instruction) (next : UInt32) : Exec δ Unit := do
  let (selector, offset) ← farTarget i
  let cs ← gets (·.cpu.selector .cs)
  farTransfer selector offset
  modify fun s => (s.push i.operandWidth cs.toUInt32).push i.operandWidth next

def nearReturn (i : Instruction) : Exec δ Unit := do
  let w := i.operandWidth
  nearTransfer (← gets (·.peek 0 w))
  modifyCpu (·.adjustStack (w.stride + i.releasedBytes))

def farReturn (i : Instruction) : Exec δ Unit := do
  let w := i.operandWidth
  let s ← get
  farTransfer (s.peek w.stride w).toUInt16 (s.peek 0 w)
  modifyCpu (·.adjustStack (2 * w.stride + i.releasedBytes))

end Exec

namespace System

variable {δ : Type}

/-- Push `n` links of the chain of enclosing frames, from the one below `outer` on. -/
def pushLinks (w : Width) : Nat → UInt32 → System δ → System δ
  | 0, _, s => s
  | n + 1, outer, s =>
    let outer := s.cpu.stackWidth.truncate (outer - w.stride)
    pushLinks w n outer (s.push w (s.read .ss outer w))

/-- Open a frame with `space` bytes at nesting depth `depth`: save the frame pointer, copy the
links to the enclosing frames, and point to the new one. -/
def enterFrame (s : System δ) (w : Width) (space : UInt32) (depth : Nat) : System δ :=
  let s := s.push w (s.cpu.low .ebp w)
  let frame := s.cpu.stackTop
  let s := match depth with
    | 0 => s
    | n + 1 => (s.pushLinks w n (s.cpu.low .ebp s.cpu.stackWidth)).push w frame
  s.modifyCpu fun c => (c.setLow .ebp w frame).adjustStack (-space)

/-- Close the frame: drop its contents and take back the frame pointer. -/
def leaveFrame (s : System δ) (w : Width) : System δ :=
  let s := s.modifyCpu fun c => c.setLow .esp c.stackWidth (c.low .ebp c.stackWidth)
  let (v, s) := s.pop w
  s.modifyCpu (·.setLow .ebp w v)

end System

open Exec

/-- Carry out a transfer; `next` is the offset of the following instruction. -/
def BranchOp.perform {δ : Type} (o : BranchOp) (i : Instruction) (next : UInt32) :
    Exec δ Outcome := do
  match o with
  | .jmp => nearTransfer (← nearTarget i); return .branch
  | .jmpFar => do
    let (selector, offset) ← farTarget i
    farTransfer selector offset
    return .branch
  | .jcc c => jumpIf (c.holds (← gets (·.cpu.flags))) i
  | .jcxz => jumpIf ((← gets (·.cpu.low .ecx i.addressSize.width)) == 0) i
  | .loop t => countDown t i
  | .call => nearCall i next; return .branch
  | .callFar => farCall i next; return .branch
  | .ret => nearReturn i; return .branch
  | .retFar => farReturn i; return .branch
  | .int => deliver (← readOperand i 0).toUInt8 next; return .branch
  | .int3 => deliver 3 next; return .branch
  | .into => do
    if (← gets (·.cpu.flags.overflow)) then
      deliver 4 next
      return .branch
    else return .next
  | .iret => interruptReturn i.operandWidth; return .branch
  | .enter => do
    let space := (← readOperand i 0) &&& 0xFFFF
    let depth := (← readOperand i 1) &&& 0x1F
    modify (·.enterFrame i.operandWidth space depth.toNat)
    return .next
  | .leave => modify (·.leaveFrame i.operandWidth); return .next

end Ia32
