/-
  A disassembler by opcode maps.

  Decoding takes any disassembler for a parameter.  This is the one that programs are run with.  It
  meets all that is asked of a disassembler elsewhere: it keeps to the forms and sizes of the
  instruction set reference, and follows what the maps tell of the bytes of an instruction.

  Main definitions:
  - `readBody` : read an instruction from its opcode on, near targets as distances
  - `disassemble` : disassemble the instruction in front of a byte string
-/
import Ia32.Decoder.Decode
import Ia32.Encoding.PrimaryMap
import Ia32.Encoding.SecondaryMap
import Ia32.Encoding.VectorEncoding

namespace Ia32

namespace Encoding

/-- The place that the byte after the opcode selects, if a form of the operands needs it. -/
def readPlace (a : AddressSize) (m : ModRm) (xs : List OperandForm) : Reader (Option RawPlace) :=
  if !m.isRegister && xs.any (·.isPlace) then do
    return some (← readAddress a m)
  else
    return none

/-- The operand of a place of register width `w` and memory of size `n`. -/
def placeOperand (p : Option RawPlace) (m : ModRm) (w : Width) (n : PlaceSize) : RawOperand :=
  match p with
  | some p => .memory { p with size := n }
  | none => .register (registerName m.rm w)

/-- An immediate as it stands. -/
def immediateOperand (w : Width) (v : UInt32) : RawOperand :=
  match w with
  | .byte => .immediate8 v.toUInt8
  | .word => .immediate16 v.toUInt16
  | .dword => .immediate32 v

/-- An immediate byte, extended. -/
def extendedOperand (w : Width) (v : UInt32) : RawOperand :=
  match w with
  | .byte => .immediate8 v.toUInt8
  | .word => .extended16 v.toUInt16
  | .dword => .extended32 v

/-- A near target has 16 or 32 bits. -/
def nearOperand (w : Width) (v : UInt32) : RawOperand :=
  if w = .dword then .near32 v else .near16 v.toUInt16

def farOperand (w : Width) (o : UInt32) (c : UInt16) : RawOperand :=
  if w = .dword then .far32 o c else .far16 o.toUInt16 c

def pointerSize (w : Width) : PlaceSize := if w = .dword then .farPointer32 else .farPointer16

/-- The place `[BX + AL]`, with addresses of the given size. -/
def translationPlace (a : AddressSize) : RawPlace where
  base := registerName 3 a.width
  index := .al
  displacement := 0
  size := .bytes 1

/-- Read the operand of one form. -/
def readOperand (a : AddressSize) (m : ModRm) (p : Option RawPlace) :
    OperandForm → Reader RawOperand
  | .place w => return placeOperand p m w (.bytes w.bytes)
  | .placeOfWord w => return placeOperand p m w (.bytes 2)
  | .placeRegister w => return .register (registerName m.rm w)
  | .address => return placeOperand p m .dword (.bytes 0)
  | .pointer w => return placeOperand p m w (pointerSize w)
  | .table => return placeOperand p m .dword (.bytes 6)
  | .selected w => return .register (registerName m.reg w)
  | .coded n w => return .register (registerName n w)
  | .named r => return .register r
  | .offset w => do
    let d ← Reader.ofWidth a.width
    return .memory { displacement := d, size := .bytes w.bytes }
  | .translation => return .memory (translationPlace a)
  | .source => return .source a
  | .destination => return .destination a
  | .immediate w => return immediateOperand w (← Reader.ofWidth w)
  | .second => return .second8 (← Reader.byte)
  | .extended w => return extendedOperand w (Width.signExtend .byte (← Reader.number 1))
  | .one => return .immediate8 1
  | .distance d w => return nearOperand w (d.signExtend (← Reader.ofWidth d))
  | .far w => do
    let o ← Reader.ofWidth w
    let c ← Reader.ofWidth .word
    return farOperand w o c.toUInt16

def readOperands (a : AddressSize) (m : ModRm) (p : Option RawPlace) :
    List OperandForm → Reader (List RawOperand)
  | [] => pure []
  | x :: xs => do
    let y ← readOperand a m p x
    let ys ← readOperands a m p xs
    return y :: ys

/-- An instruction of which no more is told than that it exists. -/
def foreignInstruction : RawInstruction := ⟨.other, []⟩

/-- Read what a form still needs.  The lock byte is for forms that allow it, on memory. -/
def readForm (a : AddressSize) (p : PrefixSet) (m : ModRm) : Form → Reader RawInstruction
  | .known o xs lockable => do
    let place ← readPlace a m xs
    let operands ← readOperands a m place xs
    Reader.guard (!p.lock || (lockable && place.isSome))
    return ⟨o, operands⟩
  | .foreign addressed tail lockable => do
    readTail a m addressed tail
    Reader.guard (!p.lock || (lockable && !m.isRegister))
    return foreignInstruction
  | .refused addressed tail => do
    readTail a m addressed tail
    Reader.fail .invalid
  | .vector kind => do
    readVector a (!p.lock && Mandatory.ofPrefixes p == .none) kind m
    return foreignInstruction

def readEntry (a : AddressSize) (p : PrefixSet) : Entry → Reader RawInstruction
  | .fixed f => readForm a p ⟨0⟩ f
  | .selected f => do
    let m := ModRm.mk (← Reader.byte)
    readForm a p m (f m)

/-- The packed floating-point operations, told apart by their last byte. -/
def readPackedFloat (a : AddressSize) (p : PrefixSet) : Reader RawInstruction := do
  let m := ModRm.mk (← Reader.byte)
  readTail a m true 0
  let b ← Reader.byte
  readForm a p m (if packedFloatSuffixes.contains b.toNat then .foreignOp else .invalid)

/-- Read from the opcode on. -/
def readBody (s : Sizes) (p : PrefixSet) : Reader RawInstruction := do
  let mandatory := Mandatory.ofPrefixes p
  let b ← Reader.byte
  if b != 0x0F then
    readEntry s.address p (primaryEntry s.operand s.address mandatory b)
  else
    let b ← Reader.byte
    if b == 0x38 then
      let b ← Reader.byte
      readEntry s.address p (.selected (thirdMapForm b.toNat mandatory))
    else if b == 0x3A then
      let b ← Reader.byte
      readEntry s.address p (.selected (fourthMapForm b.toNat mandatory))
    else if b == 0x0F then
      readPackedFloat s.address p
    else
      readEntry s.address p (secondaryEntry s.operand s.address p b)

/-- Disassemble by the maps.  A defect of fifteen bytes does not become an instruction with more
of them. -/
def disassemble : Disassembler := fun wide bs ip =>
  let (p, rest) := PrefixSet.takeAll {} bs
  match readBody (Sizes.ofPrefixes wide p) p rest with
  | .ok (r, left) =>
    let n := bs.length - left.length
    .ok (r.relocate (ip + UInt32.ofNat n), n)
  | .error .ended =>
    .error (if maxInstructionLength ≤ bs.length then .invalid else .ended)
  | .error .invalid => .error .invalid

end Encoding

end Ia32
