/-
  The end of a vector encoding: the byte after its opcode, an address and an immediate.

  Main definitions:
  - `Shape` : whether that byte must select a register or memory
  - `Ending` : what an opcode asks of the bytes that follow
  - `readEndings` : read them; no vector operation is carried out, so nothing else is given
-/
import Ia32.Encoding.Address

namespace Ia32.Encoding

/-- Which operands a variant of an opcode takes. -/
inductive Shape
  | absent | any | memory | register
  deriving DecidableEq, Repr

def Shape.admits (s : Shape) (m : ModRm) : Bool :=
  match s with
  | absent => false
  | any => true
  | memory => !m.isRegister
  | register => m.isRegister

/-- Read an address if the byte after the opcode selects one, and some bytes after it. -/
def readTail (a : AddressSize) (m : ModRm) (addressed : Bool) (tail : Nat) : Reader Unit := do
  if addressed && !m.isRegister then
    let _ ← readAddress a m
  Reader.skip tail

/-- Read an address, and tell the index that its scale byte names. -/
def readIndexed (a : AddressSize) (m : ModRm) : Reader (Option Nat) := do
  if a = .dword ∧ m.rm = 4 then
    let s := ModRm.mk (← Reader.byte)
    let _ ← readScaled m s
    return some s.reg
  else
    let _ ← readAddress a m
    return none

/-- What an opcode asks of the bytes that follow: a shape of operands, a number of bytes after
the address, and fields of the encoding that agree with each other and with the index. -/
structure Ending where
  shape : Shape
  tail : Nat
  agrees : Option Nat → Bool

/-- Operands of the wrong shape have no address, but the bytes after it are read all the same. -/
def Ending.read (a : AddressSize) (m : ModRm) (ok : Bool) (e : Ending) : Reader Unit := do
  let fits := e.shape.admits m
  let index ← if fits && !m.isRegister then readIndexed a m else pure none
  Reader.skip e.tail
  Reader.guard (ok && fits && e.agrees index)

/-- Read to the end of one of the variants of an opcode, by preference one whose shape fits.
Without variants nothing is read.  Unless `ok`, the encoding is refused after all. -/
def readEndings (a : AddressSize) (m : ModRm) (ok : Bool) (es : List Ending) : Reader Unit :=
  match es.find? (·.shape.admits m), es with
  | some e, _ | none, e :: _ => e.read a m ok
  | none, [] => Reader.fail .invalid

end Ia32.Encoding
