/-
  The legacy bytes in front of an opcode.  The last segment override and the last repetition
  byte count; the size and lock bytes count however often they occur.

  Main definitions:
  - `DecodeError` : why no instruction comes out of a byte string
  - `PrefixSet.add?` : take in one byte, if it is a legacy one
  - `PrefixSet.scan` : take in all such bytes and give the rest
-/
import Ia32.Instruction

namespace Ia32

/-- The architectural limit on the length of an instruction. -/
def maxInstructionLength : Nat := 15

/-- Why no instruction comes out of a byte string; the unsupported ones exist, but lie outside
the integer instruction set that is carried out here. -/
inductive DecodeError
  | unexpectedEnd | tooLong | invalid | unsupported
  deriving DecidableEq, Repr

/-- Texts; an unsupported instruction has none of its own. -/
def DecodeError.message? : DecodeError → Option String
  | unexpectedEnd => some "unexpected end of instruction bytes"
  | tooLong => some "instruction exceeds 15-byte length limit"
  | invalid => some "invalid instruction encoding"
  | unsupported => none

namespace PrefixSet

def add? (p : PrefixSet) (b : UInt8) : Option PrefixSet :=
  if b == 0x26 then some { p with segment := some .es }
  else if b == 0x2E then some { p with segment := some .cs }
  else if b == 0x36 then some { p with segment := some .ss }
  else if b == 0x3E then some { p with segment := some .ds }
  else if b == 0x64 then some { p with segment := some .fs }
  else if b == 0x65 then some { p with segment := some .gs }
  else if b == 0x66 then some { p with operandSize := true }
  else if b == 0x67 then some { p with addressSize := true }
  else if b == 0xF0 then some { p with lock := true }
  else if b == 0xF2 then some { p with rep := some .repne }
  else if b == 0xF3 then some { p with rep := some .rep }
  else none

/-- Take in bytes as long as they are legacy ones. -/
def takeAll (p : PrefixSet) : List UInt8 → PrefixSet × List UInt8
  | [] => (p, [])
  | b :: bs =>
    match p.add? b with
    | some q => q.takeAll bs
    | none => (p, b :: bs)

/-- The set asked for by the leading bytes, and the bytes from the opcode on.  An opcode must
follow within the length limit. -/
def scan (bs : List UInt8) : Except DecodeError (PrefixSet × List UInt8) :=
  let (p, rest) := takeAll {} bs
  if maxInstructionLength ≤ bs.length - rest.length then .error .tooLong
  else if rest.isEmpty then .error .unexpectedEnd
  else .ok (p, rest)

end PrefixSet

end Ia32
