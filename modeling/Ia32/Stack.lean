/-
  The stack of the processor.  It grows downwards in the stack segment, and its pointer is SP or
  ESP depending on the size of that segment.

  Main definitions:
  - `Cpu.stackTop`, `Cpu.adjustStack` : the pointer
  - `System.push`, `System.pop`, `System.peek` : the elements
-/
import Ia32.System

namespace Ia32

namespace Cpu

/-- The offset of the top element in the stack segment. -/
def stackTop (c : Cpu) : UInt32 := c.low .esp c.stackWidth

/-- Move the stack pointer, wrapping around its width. -/
def adjustStack (c : Cpu) (delta : UInt32) : Cpu :=
  c.setLow .esp c.stackWidth (c.stackTop + delta)

@[simp] theorem stackWidth_adjustStack (c : Cpu) (d : UInt32) :
    (c.adjustStack d).stackWidth = c.stackWidth := rfl

/-- The pointer wraps around the width that the stack segment gives it. -/
theorem stackTop_adjustStack (c : Cpu) (d : UInt32) :
    (c.adjustStack d).stackTop = c.stackWidth.truncate (c.stackTop + d) := by
  unfold stackTop
  rw [stackWidth_adjustStack]
  exact Gprs.low_setLow c.gprs .esp c.stackWidth _

@[simp] theorem truncate_stackTop (c : Cpu) : c.stackWidth.truncate c.stackTop = c.stackTop :=
  Width.truncate_truncate _ _

end Cpu

namespace System

variable {δ : Type}

def push (s : System δ) (w : Width) (v : UInt32) : System δ :=
  let s := s.modifyCpu (·.adjustStack (-w.stride))
  s.write .ss s.cpu.stackTop w v

/-- The element `offset` bytes above the top. -/
def peek (s : System δ) (offset : UInt32) (w : Width) : UInt32 :=
  s.read .ss (s.cpu.stackWidth.truncate (s.cpu.stackTop + offset)) w

def pop (s : System δ) (w : Width) : UInt32 × System δ :=
  (s.read .ss s.cpu.stackTop w, s.modifyCpu (·.adjustStack w.stride))

/-- The element at the top is the one that would be popped. -/
theorem peek_zero (s : System δ) (w : Width) : s.peek 0 w = (s.pop w).1 := by
  simp [peek, pop]

end System

end Ia32
