/-
  Multiplication into, and division of, a double-width value held in two halves.

  Main definitions:
  - `Alu.mul`, `Alu.imul` : the two halves of a product, lower half first
  - `Alu.div`, `Alu.idiv` : quotient and remainder, or a divide error if the quotient does not fit
-/
import Ia32.Fault
import Ia32.Flags

namespace Ia32.Alu

/-- Unsigned product; carry and overflow tell whether the upper half is used. -/
def mul (f : Flags) (w : Width) (a b : UInt32) : (UInt32 × UInt32) × Flags :=
  let p := (w.truncate a).toUInt64 * (w.truncate b).toUInt64
  let hi := w.truncate (p >>> UInt64.ofNat w.bits).toUInt32
  let used := hi != 0
  ((w.truncate p.toUInt32, hi), { f with carry := used, overflow := used })

/-- Signed product; carry and overflow tell whether it exceeds the width. -/
def imul (f : Flags) (w : Width) (a b : UInt32) : (UInt32 × UInt32) × Flags :=
  let p := w.signed a * w.signed b
  let lo := w.ofInt p
  let exceeds := w.signed lo != p
  ((lo, w.ofInt (p / w.modulus)), { f with carry := exceeds, overflow := exceeds })

/-- Unsigned quotient and remainder. -/
def div (w : Width) (n : UInt64) (d : UInt32) : Except Fault (UInt32 × UInt32) :=
  let d := (w.truncate d).toUInt64
  if d == 0 then .error .divideError
  else if w.mask.toUInt64 < n / d then .error .divideError
  else .ok ((n / d).toUInt32, (n % d).toUInt32)

/-- The low end of `n`, twice as wide as `w`, as a two's-complement number. -/
def signedDividend (w : Width) (n : UInt64) : Int :=
  Int.bmod n.toNat (w.modulus * w.modulus)

/-- Signed quotient, rounded toward zero, and remainder. -/
def idiv (w : Width) (n : UInt64) (d : UInt32) : Except Fault (UInt32 × UInt32) :=
  let n := signedDividend w n
  let d := w.signed d
  let q := n.tdiv d
  if d == 0 then .error .divideError
  else if w.signed (w.ofInt q) != q then .error .divideError
  else .ok (w.ofInt q, w.ofInt (n.tmod d))

end Ia32.Alu
