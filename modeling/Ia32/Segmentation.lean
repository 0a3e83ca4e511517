/-
  Loading of segment registers, and transfers of control.

  In protected mode a selector names an entry of the descriptor table, which is checked and, when
  it is first used, marked as accessed.  In real mode every selector is good.

  Main definitions:
  - `Exec.loadDescriptor` : fetch the descriptor that a selector names
  - `Exec.setSelector` : load a segment register
  - `Exec.farTransfer`, `Exec.nearTransfer` : set EIP, with or without CS
-/
import Ia32.System

namespace Ia32

/-- Selectors of entry 0, in either table, name no segment. -/
def isNullSelector (selector : UInt16) : Bool := selector &&& 0xFFF8 == 0

/-- The descriptors that a segment register accepts. -/
def Descriptor.suits (d : Descriptor) : SegmentName → Bool
  | .cs => d.code
  | .ss => d.isStack
  | _ => d.isReadable

/-- The linear address of the table entry that a selector names; the entry must lie within the
limit of the global table. -/
def Cpu.entryAddress (c : Cpu) (selector : UInt16) : Except Fault UInt32 :=
  let offset := (selector &&& 0xFFF8).toUInt32
  if selector &&& 4 != 0 then .error (.generalProtection selector .localTable)
  else if c.gdtr.limit.toUInt32 < offset + 7 then .error (.generalProtection selector .tableLimit)
  else .ok (c.gdtr.base + offset)

/-- The offset of the byte of a table entry whose lowest bit is the accessed bit. -/
def accessByte : UInt32 := 5

namespace System

variable {δ : Type}

/-- The descriptor in the table entry at address `a`. -/
def descriptorAt (s : System δ) (a : UInt32) : Descriptor :=
  .ofEntry (s.readLinear a .dword) (s.readLinear (a + 4) .dword)

/-- Set the accessed bit of the table entry at address `a`. -/
def markAccessed (s : System δ) (a : UInt32) : System δ :=
  let b := a + accessByte
  s.writeLinear b .byte (s.readLinear b .byte ||| 1)

end System

/-- A place in code: a code segment and an offset within it. -/
structure CodePointer where
  segment : Segment
  offset : UInt32
  deriving DecidableEq, Repr

/-- Go to a place in code. -/
def Cpu.jump (c : Cpu) (p : CodePointer) : Cpu := { c.setSegment .cs p.segment with eip := p.offset }

namespace Exec

variable {δ : Type}

/-- Fetch the descriptor that a selector names.  A present code or data segment counts as
accessed from then on. -/
def loadDescriptor (selector : UInt16) : Exec δ Descriptor := do
  let a ← ofExcept (← gets (·.cpu.entryAddress selector))
  let d ← gets (·.descriptorAt a)
  if d.user && d.present && !d.accessed then do
    modify (·.markAccessed a)
    return { d with accessed := true }
  else
    return d

/-- The segment that a selector stands for in protected mode, if the register accepts it. -/
def protectedSegment (n : SegmentName) (selector : UInt16) : Exec δ Segment :=
  if isNullSelector selector then
    match n with
    | .cs | .ss => throw (.generalProtection selector .nullSelector)
    | _ => return ⟨selector, .null⟩
  else do
    let d ← loadDescriptor selector
    if !d.suits n then throw (.generalProtection selector .descriptorType)
    else if !d.present then throw (.segmentNotPresent selector)
    else return ⟨selector, d⟩

/-- Load a segment register in the mode in force. -/
def setSelector (n : SegmentName) (selector : UInt16) : Exec δ Unit := do
  let s ← if ← gets (·.cpu.protectedMode) then protectedSegment n selector
    else pure (.realMode selector (n == .cs))
  modifyCpu (·.setSegment n s)

/-- The place in code that a far pointer names in protected mode. -/
def protectedTarget (selector : UInt16) (offset : UInt32) : Exec δ CodePointer :=
  if isNullSelector selector then throw (.generalProtection selector .farNull)
  else do
    let d ← loadDescriptor selector
    let offset := if d.wide then offset else offset &&& 0xFFFF
    if !d.code then throw (.generalProtection selector .farType)
    else if !d.present then throw (.segmentNotPresent selector)
    else if d.limit < offset then throw (.generalProtection selector .farLimit)
    else return ⟨⟨selector, d⟩, offset⟩

/-- The place in code that a far pointer names in real mode. -/
def realTarget (selector : UInt16) (offset : UInt32) : CodePointer :=
  ⟨.realMode selector true, offset &&& 0xFFFF⟩

/-- Go to a far pointer; the mode is sampled first. -/
def farTransfer (selector : UInt16) (offset : UInt32) : Exec δ Unit := do
  modifyCpu Cpu.syncMode
  let p ← if ← gets (·.cpu.protectedMode) then protectedTarget selector offset
    else pure (realTarget selector offset)
  modifyCpu (·.jump p)

/-- Go to an offset in the code segment; the mode is sampled first, and the limit holds in
protected mode only. -/
def nearTransfer (target : UInt32) : Exec δ Unit := do
  modifyCpu Cpu.syncMode
  let c ← gets System.cpu
  let target := target &&& c.ipMask
  if c.protectedMode && c.segments.cs.descriptor.limit < target then
    throw (.generalProtection 0 .nearLimit)
  else
    modifyCpu fun c => { c with eip := target }

end Exec

end Ia32
