/-
  Decoding one instruction, with a disassembler for a parameter.

  Main definitions:
  - `Sizes` : the sizes in force
  - `RawInstruction.convert?` : the instruction that the disassembler has found, if it is carried
    out
  - `Instruction.decodeBy` : decode with a disassembler, within the length limit
-/
import Ia32.Decoder.Classify
import Ia32.Decoder.Convert
import Ia32.Decoder.Prefix

namespace Ia32

/-- The sizes of operands and of addresses. -/
structure Sizes where
  operand : Width
  address : AddressSize
  deriving DecidableEq, Repr

/-- The default sizes of a code segment, each inverted by its byte. -/
def Sizes.ofPrefixes (wide : Bool) (p : PrefixSet) : Sizes where
  operand := if wide != p.operandSize then .dword else .word
  address := if wide != p.addressSize then .dword else .word

namespace RawInstruction

/-- The operands and the data width.  String operations and the translation of a byte have operands
that need not be told. -/
def operands? (r : RawInstruction) (o : Operation) (segment : Option SegmentName) (w : Width) :
    Option (List Operand × Width) :=
  match o with
  | .string _ => some ([], r.mnemonic.elementWidth)
  | .transfer .xlat => some ([], .byte)
  | _ => do
    let xs ← RawOperand.convertAll? segment w r.operands
    return (xs.take 3, (xs.head?.map Operand.width).getD w)

/-- The instruction of `length` bytes behind the legacy bytes that ask for `p`. -/
def convert? (r : RawInstruction) (wide : Bool) (p : PrefixSet) (length : Nat) :
    Option Instruction := do
  let s := Sizes.ofPrefixes wide p
  let o ← r.operation?
  let (xs, w) ← r.operands? o p.segment s.operand
  return {
    operation := o
    unit := o.unit
    operands := xs
    prefixes := p
    operandWidth := s.operand
    addressSize := s.address
    dataWidth := w
    length := UInt8.ofNat length }

end RawInstruction

/-- Decode the instruction at the start of `bs`, which stands at offset `ip` of a code segment
that is 32 bits wide if `wide`.  The disassembler sees no more than the length limit allows. -/
def Instruction.decodeBy (d : Disassembler) (bs : List UInt8) (wide : Bool) (ip : UInt32) :
    Except DecodeError Instruction := do
  let (p, _) ← PrefixSet.scan bs
  match d wide (bs.take maxInstructionLength) ip with
  | .error .ended => throw .unexpectedEnd
  | .error .invalid => throw .invalid
  | .ok (r, length) =>
    if maxInstructionLength < length then throw .tooLong
    match r.convert? wide p length with
    | some i => return i
    | none => throw .unsupported

end Ia32
