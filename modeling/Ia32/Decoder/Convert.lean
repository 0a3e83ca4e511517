/-
  Operands, taken over from a disassembler.

  Main definitions:
  - `RegisterName.ref?`, `RegisterName.gpr?` : the register that a name stands for
  - `RawPlace.memory?` : a place in memory, with the segment that the legacy bytes ask for
  - `RawOperand.convert?`, `RawOperand.convertAll?` : operands; a far target becomes two of them
-/
import Ia32.Decoder.Disassembly

namespace Ia32

namespace RegisterName

/-- The register that a name stands for.  Byte registers 4 to 7 are the second bytes. -/
def ref? : RegisterName → Option RegisterRef
  | al => some (.general 0 .byte)
  | cl => some (.general 1 .byte)
  | dl => some (.general 2 .byte)
  | bl => some (.general 3 .byte)
  | ah => some (.general 4 .byte)
  | ch => some (.general 5 .byte)
  | dh => some (.general 6 .byte)
  | bh => some (.general 7 .byte)
  | ax => some (.general 0 .word)
  | cx => some (.general 1 .word)
  | dx => some (.general 2 .word)
  | bx => some (.general 3 .word)
  | sp => some (.general 4 .word)
  | bp => some (.general 5 .word)
  | si => some (.general 6 .word)
  | di => some (.general 7 .word)
  | eax => some (.general 0 .dword)
  | ecx => some (.general 1 .dword)
  | edx => some (.general 2 .dword)
  | ebx => some (.general 3 .dword)
  | esp => some (.general 4 .dword)
  | ebp => some (.general 5 .dword)
  | esi => some (.general 6 .dword)
  | edi => some (.general 7 .dword)
  | es => some (.segment .es)
  | cs => some (.segment .cs)
  | ss => some (.segment .ss)
  | ds => some (.segment .ds)
  | fs => some (.segment .fs)
  | gs => some (.segment .gs)
  | cr n => if [0, 2, 3, 4].contains n then some (.control n) else none
  | dr n => if [0, 1, 2, 3, 6, 7].contains n then some (.debug n) else none
  | absent | other => none

/-- The register of an address, which is a general one and no byte register. -/
def gpr? (r : RegisterName) : Option Gpr :=
  match r.ref? with
  | some q => if q.file = .general ∧ q.width ≠ .byte then some q.slot.1 else none
  | none => none

/-- A register of an address, which may be absent. -/
def address? : RegisterName → Option (Option Gpr)
  | absent => some none
  | r => r.gpr?.map some

end RegisterName

/-- The place in memory; `segment` takes the place of the segment that the base implies. -/
def RawPlace.memory? (segment : Option SegmentName) (p : RawPlace) : Option MemoryOperand := do
  let base ← p.base.address?
  let index ← p.index.address?
  let m := match base with
    | some b => MemoryOperand.based b p.displacement
    | none => MemoryOperand.absolute p.displacement
  return { m with index, scale := p.scale, overriding := segment }

namespace RawOperand

/-- The operands that an encoded one stands for.  Memory of a size that no operand has is as wide
as operands are, `w`. -/
def convert? (segment : Option SegmentName) (w : Width) : RawOperand → Option (List Operand)
  | register r => do return [.register (← r.ref?)]
  | near16 t => some [.immediate t.toUInt32 .word]
  | near32 t => some [.immediate t .dword]
  | far16 o c => some [.immediate o.toUInt32 .word, .immediate c.toUInt32 .word]
  | far32 o c => some [.immediate o .dword, .immediate c.toUInt32 .word]
  | immediate8 v | second8 v => some [.immediate v.toUInt32 .byte]
  | immediate16 v | extended16 v => some [.immediate v.toUInt32 .word]
  | immediate32 v | extended32 v => some [.immediate v .dword]
  | memory p => do
    let m ← p.memory? segment
    return [.memory m ((Width.ofBytes? p.size.count).getD w)]
  | source _ | destination _ | other => none

def convertAll? (segment : Option SegmentName) (w : Width) :
    List RawOperand → Option (List Operand)
  | [] => some []
  | x :: xs => do
    let a ← x.convert? segment w
    let b ← convertAll? segment w xs
    return a ++ b

end RawOperand

end Ia32
