/-
  Decoding as programs are run with it.

  Main definitions:
  - `Instruction.decode` : decode with the disassembler by opcode maps
-/
import Ia32.Encoding.Disassemble

namespace Ia32

/-- Decode the instruction at the start of `bs`, which stands at offset `ip` of a code segment
that is 32 bits wide if `wide`. -/
def Instruction.decode (bs : List UInt8) (wide : Bool) (ip : UInt32) :
    Except DecodeError Instruction := decodeBy Encoding.disassemble bs wide ip

end Ia32
