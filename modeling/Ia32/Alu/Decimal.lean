/-
  Adjustments of the accumulator between binary and decimal digits: packed digits, two to a
  byte, and unpacked digits, one to a byte.

  Main definitions:
  - `Alu.daa`, `Alu.das` : after the sum or difference of packed digits
  - `Alu.aaa`, `Alu.aas` : after the sum or difference of unpacked digits
  - `Alu.aam`, `Alu.aad` : after a product and before a division of unpacked digits
-/
import Ia32.Fault
import Ia32.Flags

namespace Ia32.Alu

/-- The low digit is no decimal digit, or a carry out of it is recorded. -/
def adjustLow (f : Flags) (al : UInt8) : Bool := decide (9 < al &&& 0x0F) || f.adjust

/-- The high digit is no decimal digit, or a carry out of it is recorded. -/
def adjustHigh (f : Flags) (al : UInt8) : Bool := decide (0x99 < al) || f.carry

def daa (f : Flags) (al : UInt8) : UInt8 × Flags :=
  let low := adjustLow f al
  let high := adjustHigh f al
  let r := if low then al + 6 else al
  let r := if high then r + 0x60 else r
  let c := high || low && (f.carry || decide (al + 6 < al))
  (r, { f.ofResult .byte r.toUInt32 with adjust := low, carry := c })

def das (f : Flags) (al : UInt8) : UInt8 × Flags :=
  let low := adjustLow f al
  let high := adjustHigh f al
  let r := if low then al - 6 else al
  let r := if high then r - 0x60 else r
  let c := high || low && (f.carry || decide (al < 6))
  (r, { f.ofResult .byte r.toUInt32 with adjust := low, carry := c })

def aaa (f : Flags) (ax : UInt16) : UInt16 × Flags :=
  let low := adjustLow f ax.toUInt8
  let r := if low then ax + 0x106 else ax
  (r &&& 0xFF0F, { f with adjust := low, carry := low })

/-- The word with bytes `ah` and `al`. -/
def bytePair (ah al : UInt8) : UInt16 := (ah.toUInt16 <<< 8) ||| al.toUInt16

def aas (f : Flags) (ax : UInt16) : UInt16 × Flags :=
  let low := adjustLow f ax.toUInt8
  let r := if low then bytePair ((ax >>> 8).toUInt8 - 1) (ax.toUInt8 - 6) else ax
  (r &&& 0xFF0F, { f with adjust := low, carry := low })

/-- Quotient and remainder of `al` by `base`, in the upper and the lower byte. -/
def aam (f : Flags) (al base : UInt8) : Except Fault (UInt16 × Flags) :=
  if base == 0 then .error .divideError
  else
    let r := al % base
    .ok (bytePair (al / base) r, f.ofResult .byte r.toUInt32)

/-- The number with digits `ah` and `al` in `base`, in the lower byte. -/
def aad (f : Flags) (ax : UInt16) (base : UInt8) : UInt16 × Flags :=
  let r := ax.toUInt8 + (ax >>> 8).toUInt8 * base
  (r.toUInt16, f.ofResult .byte r.toUInt32)

end Ia32.Alu
