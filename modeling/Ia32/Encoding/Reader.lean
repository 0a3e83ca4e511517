/-
  Reading little-endian numbers off a byte string.

  Main definitions:
  - `Reader` : a reader of the leading bytes, which gives the rest back
  - `Reader.byte`, `Reader.number` : the primitive readers
-/
import Ia32.Decoder.Disassembly

namespace Ia32.Encoding

abbrev Reader := StateT (List UInt8) (Except Defect)

namespace Reader

def byte : Reader UInt8 := fun s =>
  match s with
  | [] => .error .ended
  | b :: r => .ok (b, r)

/-- An unsigned number of `n` bytes, at most four. -/
def number : Nat → Reader UInt32
  | 0 => pure 0
  | n + 1 => do
    let lo ← byte
    let hi ← number n
    return lo.toUInt32 ||| (hi <<< 8)

/-- A number as wide as an operand. -/
def ofWidth (w : Width) : Reader UInt32 := number w.bytes

/-- Pass over `n` bytes. -/
def skip : Nat → Reader Unit
  | 0 => pure ()
  | n + 1 => do
    let _ ← byte
    skip n

def fail {α : Type} (d : Defect) : Reader α := fun _ => .error d

/-- What has been read stands for no instruction unless `ok`. -/
def guard (ok : Bool) : Reader Unit := if ok then pure () else fail .invalid

end Reader

end Ia32.Encoding
