/-
  The vector encodings that begin where a register form of an older opcode would stand.  None
  of their operations is carried out; what is told here is which of them exist.

  Main definitions:
  - `readVector` : read such an encoding to its end
-/
import Ia32.Encoding.LongMap
import Ia32.Encoding.ShortMap

namespace Ia32.Encoding

/-- Read a short encoding from its opcode on, where `n` is the number of the map.  One operation
has no byte after its opcode. -/
def readShort (a : AddressSize) (ok : Bool) (x : ShortFields) (extended : Bool) (n : Nat) :
    Reader Unit := do
  match shortMap extended n with
  | none => Reader.fail .invalid
  | some map =>
    let b := (← Reader.byte).toNat
    if n = 1 ∧ b = 0x77 then
      Reader.guard (ok && x.mandatory == .none && x.source == 0)
    else
      let m := ModRm.mk (← Reader.byte)
      readEndings a m ok (((map b).filter (·.selectedBy x m)).map (·.ending x m))

/-- The longest encoding.  Its first byte, the one already read, and its second hold two fixed
bits; one more bit must be set where there are only eight registers. -/
def readLong (a : AddressSize) (ok : Bool) (m : ModRm) : Reader Unit := do
  let q ← Reader.byte
  let r ← Reader.byte
  let b ← Reader.byte
  let n := ModRm.mk (← Reader.byte)
  let x := LongFields.ofBytes q r
  Reader.guard (q.toNat.testBit 2 && !m.byte.toNat.testBit 3)
  match longMap (m.byte.toNat % 8) with
  | some map =>
    let ok := ok && r.toNat.testBit 3 && !(x.zeroing && x.mask == 0)
    readEndings a n ok (((map b.toNat).filter (·.selectedBy x n)).map (·.ending x n))
  | none => Reader.fail .invalid

/-- Read a vector encoding of the given kind, whose first byte is `m`.  Unless `ok`, the bytes
in front of it do not go with one. -/
def readVector (a : AddressSize) (ok : Bool) (kind : VectorKind) (m : ModRm) : Reader Unit :=
  match kind with
  | .twoByte => readShort a ok (.ofByte m.byte false) false 1
  | .threeByte => do readShort a ok (.ofByte (← Reader.byte) true) false (m.byte.toNat % 32)
  | .extended => do readShort a ok (.ofByte (← Reader.byte) true) true (m.byte.toNat % 32)
  | .fourByte => readLong a ok m

end Ia32.Encoding
