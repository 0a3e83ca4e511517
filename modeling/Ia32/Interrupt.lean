/-
  Entry into interrupt handlers, and the way back.

  In real mode a vector selects a far pointer of the vector table; in protected mode it selects a
  gate, whose target is checked before anything is pushed.

  Main definitions:
  - `Gate` : what a vector leads to
  - `Exec.deliver` : save flags, CS and a return offset, and enter the handler
  - `Exec.interruptReturn` : take them back
-/
import Ia32.Segmentation
import Ia32.Stack

namespace Ia32

inductive GateKind
  | vector | interrupt | trap
  deriving DecidableEq, Repr

/-- The flags under which a handler starts. -/
def GateKind.entryFlags (f : Flags) : GateKind → Flags
  | vector => { f with interrupt := false, trap := false, alignment := false }
  | interrupt => { f with trap := false, nested := false, resume := false, interrupt := false }
  | trap => { f with trap := false, nested := false, resume := false }

/-- What a vector leads to: the handler, and the width of the saved elements. -/
structure Gate where
  kind : GateKind
  frame : Width
  target : CodePointer
  deriving DecidableEq, Repr

/-- The kind of a gate and the width of its frame, from the type bits of its table entry. -/
def gateForm? (hi : UInt32) : Option (GateKind × Width) :=
  match ((hi >>> 8) &&& 0x1F).toNat with
  | 0x6 => some (.interrupt, .word)
  | 0x7 => some (.trap, .word)
  | 0xE => some (.interrupt, .dword)
  | 0xF => some (.trap, .dword)
  | _ => none

namespace System

variable {δ : Type}

/-- Save flags, CS and a return offset. -/
def pushFrame (s : System δ) (w : Width) (returnEip : UInt32) : System δ :=
  let c := s.cpu
  ((s.push w c.flags.image).push w (c.selector .cs).toUInt32).push w returnEip

/-- One more interrupt has been entered; the processor runs again. -/
def enterGate (s : System δ) (g : Gate) (returnEip : UInt32) : System δ :=
  (s.pushFrame g.frame returnEip).modifyCpu fun c =>
    { c.jump g.target with
      flags := g.kind.entryFlags c.flags
      halted := false
      interruptLevel := if c.interruptLevel = 0xFFFFFFFF then c.interruptLevel
        else c.interruptLevel + 1 }

/-- The gate of a vector in real mode. -/
def vectorGate (s : System δ) (v : UInt8) : Except Fault Gate :=
  let offset := v.toUInt32 * 4
  let a := s.cpu.idtr.base + offset
  if s.cpu.idtr.limit.toUInt32 < offset + 3 then .error (.generalProtection 0 .vectorTableLimit)
  else .ok {
    kind := .vector
    frame := .word
    target := Exec.realTarget (s.readLinear (a + 2) .word).toUInt16 (s.readLinear a .word) }

end System

namespace Exec

variable {δ : Type}

/-- The gate of a vector in protected mode; faults name the vector by the offset of its entry. -/
def descriptorGate (v : UInt8) : Exec δ Gate := do
  let s ← get
  let offset := v.toUInt32 * 8
  let a := s.cpu.idtr.base + offset
  let selector := (offset + 2).toUInt16
  if s.cpu.idtr.limit.toUInt32 < offset + 7 then
    throw (.generalProtection selector .gateTableLimit)
  else
    let lo := s.readLinear a .dword
    let hi := s.readLinear (a + 4) .dword
    match gateForm? hi with
    | none => throw (.generalProtection selector .gateType)
    | some (kind, frame) =>
      if hi &&& 0x8000 == 0 then throw (.segmentNotPresent selector)
      else do
        let p ← protectedTarget (lo >>> 16).toUInt16 ((hi &&& 0xFFFF0000) ||| (lo &&& 0xFFFF))
        return ⟨kind, frame, p⟩

/-- Enter the handler of a vector; the mode is sampled first. -/
def deliver (v : UInt8) (returnEip : UInt32) : Exec δ Unit := do
  modifyCpu Cpu.syncMode
  let s ← get
  let g ← if s.cpu.protectedMode then descriptorGate v else ofExcept (s.vectorGate v)
  modify (·.enterGate g returnEip)

/-- Leave the handler: take back EIP, CS and flags, each of width `w`. -/
def interruptReturn (w : Width) : Exec δ Unit := do
  let s ← get
  let image := s.peek (2 * w.stride) w
  farTransfer (s.peek w.stride w).toUInt16 (s.peek 0 w)
  modifyCpu fun c =>
    { c.adjustStack (3 * w.stride) with
      flags := c.flags.restore w image
      interruptLevel := if c.interruptLevel = 0 then 0 else c.interruptLevel - 1 }

end Exec

end Ia32
