/-
  The frame that a handler finds on the stack: flags, CS and a return offset.

  Main definitions:
  - `Cpu.frameSlots`, `Cpu.InFrame` : the places of a frame, and their bytes
  - `Cpu.frame` : the frame as a list of elements

  Main statements:
  - `System.byte_pushFrame`, `System.peek_pushFrame_of_mem` : a frame is read back, and nothing
    else has changed
-/
import Ia32.Interrupt
import Ia32.Proofs.StackElements

namespace Ia32

variable {δ : Type}

namespace Cpu

/-- The places of the three elements of a frame, in the order in which they are pushed. -/
def frameSlots (c : Cpu) (w : Width) : List UInt32 :=
  [c.slot (-w.stride), c.slot (-(2 * w.stride)), c.slot (-(3 * w.stride))]

/-- The bytes of a frame. -/
def InFrame (c : Cpu) (w : Width) (j : Nat) : Prop := ∃ a ∈ c.frameSlots w, w.Covers a j

/-- A frame, in the order in which it is pushed. -/
def frame (c : Cpu) (w : Width) (returnEip : UInt32) : List StackElement :=
  [⟨w, c.flags.image⟩, ⟨w, (c.selector .cs).toUInt32⟩, ⟨w, returnEip⟩]

theorem extent_frame (c : Cpu) (w : Width) (returnEip : UInt32) :
    StackElement.extent (c.frame w returnEip) = 3 * w.bytes := by
  simp only [frame, StackElement.extent_cons, StackElement.extent_nil]
  omega

theorem placed_frame (c : Cpu) (w : Width) (returnEip : UInt32) :
    c.placed (c.frame w returnEip) = [(⟨w, c.flags.image⟩, c.slot (-w.stride)),
      (⟨w, (c.selector .cs).toUInt32⟩, c.slot (-(2 * w.stride))),
      (⟨w, returnEip⟩, c.slot (-(3 * w.stride)))] := by
  have hone : -UInt32.ofNat w.bytes = -w.stride := by rw [Width.stride_eq]
  have htwo : -UInt32.ofNat (w.bytes + w.bytes) = -(2 * w.stride) := by cases w <;> rfl
  have hthree : -UInt32.ofNat (w.bytes + w.bytes + w.bytes) = -(3 * w.stride) := by
    cases w <;> rfl
  simp only [frame, placed, lowered_lowered, slot_neg_lowered]
  rw [hone, htwo, hthree]

theorem occupied_frame (c : Cpu) (w : Width) (returnEip : UInt32) (j : Nat) :
    c.Occupied (c.frame w returnEip) j ↔ c.InFrame w j := by
  simp [Occupied, InFrame, placed_frame, frameSlots]

end Cpu

namespace System

variable {s : System δ} {w : Width}

theorem pushFrame_eq (s : System δ) (w : Width) (returnEip : UInt32) :
    s.pushFrame w returnEip = s.pushes (s.cpu.frame w returnEip) := rfl

theorem cpu_pushFrame (s : System δ) (w : Width) (returnEip : UInt32) :
    (s.pushFrame w returnEip).cpu = s.cpu.adjustStack (-(3 * w.stride)) := by
  have hthree : -UInt32.ofNat (3 * w.bytes) = -(3 * w.stride) := by cases w <;> rfl
  rw [pushFrame_eq, cpu_pushes, Cpu.extent_frame, Cpu.lowered, hthree]

/-- Bytes outside the frame are as they were. -/
theorem byte_pushFrame {j : Nat} (returnEip : UInt32) (h : ¬ s.cpu.InFrame w j) :
    (s.pushFrame w returnEip).ram.byte j = s.ram.byte j :=
  byte_pushes (mt (s.cpu.occupied_frame w returnEip j).1 h)

@[simp] theorem size_pushFrame (s : System δ) (w : Width) (returnEip : UInt32) :
    (s.pushFrame w returnEip).ram.size = s.ram.size :=
  size_pushes s (s.cpu.frame w returnEip)

/-- The elements of a frame that lies in memory are read back. -/
theorem peek_pushFrame_of_mem (returnEip : UInt32)
    (h : ∀ a ∈ s.cpu.frameSlots w, a.toNat + w.bytes ≤ s.ram.size) :
    (s.pushFrame w returnEip).peek 0 w = w.truncate returnEip ∧
    (s.pushFrame w returnEip).peek w.stride w = w.truncate (s.cpu.selector .cs).toUInt32 ∧
    (s.pushFrame w returnEip).peek (2 * w.stride) w = w.truncate s.cpu.flags.image := by
  have hextent : StackElement.extent (s.cpu.frame w returnEip) ≤ s.cpu.stackWidth.modulus := by
    rw [Cpu.extent_frame]
    exact s.cpu.le_modulus_stackWidth (by cases w <;> decide)
  have hram : s.ram.Backs (s.cpu.placed (s.cpu.frame w returnEip)) := by
    rw [Cpu.placed_frame]
    intro p hp
    simp only [List.mem_cons, List.not_mem_nil, or_false] at hp
    rcases hp with rfl | rfl | rfl <;> exact h _ (by simp [Cpu.frameSlots])
  have hcpu := s.cpu_pushes (s.cpu.frame w returnEip)
  have hholds := holds_pushes hextent hram
  have hone : w.stride = UInt32.ofNat (StackElement.extent [⟨w, returnEip⟩]) := w.stride_eq
  have htwo : 2 * w.stride = UInt32.ofNat (StackElement.extent
      [⟨w, (s.cpu.selector .cs).toUInt32⟩, ⟨w, returnEip⟩]) := by cases w <;> rfl
  refine ⟨?_, ?_, ?_⟩
  · exact peek_of_holds [_, _] [] hcpu hholds
  · rw [hone]
    exact peek_of_holds [_] [_] hcpu hholds
  · rw [htwo]
    exact peek_of_holds [] [_, _] hcpu hholds

end System

end Ia32
