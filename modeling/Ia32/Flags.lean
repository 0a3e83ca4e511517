/-
  The flags register and the sixteen conditions read from it.

  Main definitions:
  - `Flags` : the defined flags, one field each
  - `Flags.bits`, `Flags.ofBits` : the register as a word, without the reserved bit
  - `Flags.image` : the word that is stored on the stack, with the reserved bit set
  - `Condition`, `Condition.holds` : the tests of conditional instructions
  - `evenParity` : the rule for the parity flag
-/
import Ia32.Width

namespace Ia32

/-- The defined flags; `privilege` is the two-bit input/output privilege level. -/
structure Flags where
  carry : Bool := false
  parity : Bool := false
  adjust : Bool := false
  zero : Bool := false
  sign : Bool := false
  trap : Bool := false
  interrupt : Bool := false
  direction : Bool := false
  overflow : Bool := false
  privilege : BitVec 2 := 0
  nested : Bool := false
  resume : Bool := false
  virtual8086 : Bool := false
  alignment : Bool := false
  virtualInterrupt : Bool := false
  virtualPending : Bool := false
  identification : Bool := false
  deriving DecidableEq, Repr

/-- True if `b` has an even number of one bits. -/
def evenParity (b : UInt8) : Bool :=
  let x := b ^^^ (b >>> 4)
  let x := x ^^^ (x >>> 2)
  let x := x ^^^ (x >>> 1)
  x &&& 1 == 0

namespace Flags

/-- The word with `b` at position `n`. -/
def place (b : Bool) (n : UInt32) : UInt32 := if b then 1 <<< n else 0

/-- The flags as a word; undefined positions are zero. -/
def bits (f : Flags) : UInt32 :=
  place f.carry 0 ||| place f.parity 2 ||| place f.adjust 4 ||| place f.zero 6 |||
  place f.sign 7 ||| place f.trap 8 ||| place f.interrupt 9 ||| place f.direction 10 |||
  place f.overflow 11 ||| (UInt32.ofNat f.privilege.toNat <<< 12) ||| place f.nested 14 |||
  place f.resume 16 ||| place f.virtual8086 17 ||| place f.alignment 18 |||
  place f.virtualInterrupt 19 ||| place f.virtualPending 20 ||| place f.identification 21

/-- The bit of `x` at position `n`. -/
def bit (x n : UInt32) : Bool := (x >>> n) &&& 1 != 0

/-- The flags stored in a word; undefined positions are dropped. -/
def ofBits (x : UInt32) : Flags where
  carry := bit x 0
  parity := bit x 2
  adjust := bit x 4
  zero := bit x 6
  sign := bit x 7
  trap := bit x 8
  interrupt := bit x 9
  direction := bit x 10
  overflow := bit x 11
  privilege := BitVec.ofNat 2 (x >>> 12).toNat
  nested := bit x 14
  resume := bit x 16
  virtual8086 := bit x 17
  alignment := bit x 18
  virtualInterrupt := bit x 19
  virtualPending := bit x 20
  identification := bit x 21

/-- The stored form: position 1 always reads as one. -/
def image (f : Flags) : UInt32 := f.bits ||| 2

/-- The flags after a processor reset. -/
def reset : Flags := { zero := true, interrupt := true }

/-- The arithmetic status flags of `f`, all others cleared. -/
def status (f : Flags) : Flags where
  carry := f.carry
  parity := f.parity
  adjust := f.adjust
  zero := f.zero
  sign := f.sign
  overflow := f.overflow

/-- Set the sign, zero and parity flags from the low end of a result. -/
def ofResult (f : Flags) (w : Width) (r : UInt32) : Flags :=
  { f with zero := w.truncate r == 0, sign := w.sign r, parity := evenParity r.toUInt8 }

/-- The flags of a stored image of width `w`: a word image keeps the upper half of `f`, and the
resume and virtual-8086 flags are kept at either width. -/
def restore (f : Flags) (w : Width) (x : UInt32) : Flags :=
  let x := match w with
    | .dword => x
    | _ => Width.merge .word f.bits x
  { ofBits x with resume := f.resume, virtual8086 := f.virtual8086 }

end Flags

/-- The tests of conditional instructions, in the order of their encoding. -/
inductive Condition
  | overflow | notOverflow | below | aboveEqual | equal | notEqual | belowEqual | above
  | sign | notSign | parity | notParity | less | greaterEqual | lessEqual | greater
  deriving DecidableEq, Repr

namespace Condition

/-- All conditions, in the order of their encoding. -/
def all : List Condition :=
  [overflow, notOverflow, below, aboveEqual, equal, notEqual, belowEqual, above,
   sign, notSign, parity, notParity, less, greaterEqual, lessEqual, greater]

/-- The condition encoded by the low four bits of `n`. -/
def ofCode (n : Nat) : Condition := all.getD (n % 16) greater

def holds (f : Flags) : Condition → Bool
  | overflow => f.overflow
  | notOverflow => !f.overflow
  | below => f.carry
  | aboveEqual => !f.carry
  | equal => f.zero
  | notEqual => !f.zero
  | belowEqual => f.carry || f.zero
  | above => !f.carry && !f.zero
  | sign => f.sign
  | notSign => !f.sign
  | parity => f.parity
  | notParity => !f.parity
  | less => f.sign != f.overflow
  | greaterEqual => f.sign == f.overflow
  | lessEqual => f.zero || f.sign != f.overflow
  | greater => !f.zero && f.sign == f.overflow

end Condition

end Ia32
