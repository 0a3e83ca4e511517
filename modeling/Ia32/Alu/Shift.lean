/-
  Shifts and rotates.  The count is taken modulo 32, a count of zero changes nothing, and the
  overflow flag is defined for a count of one only.

  Main definitions:
  - `Alu.Shift`, `Alu.shift` : to the left, to the right, and to the right with the sign kept
  - `Alu.Rotate`, `Alu.rotate` : within the width, or through the carry flag
-/
import Ia32.Flags

namespace Ia32.Alu

inductive Shift
  | left | right | signedRight
  deriving DecidableEq, Repr

/-- A shift by one place: the value after it and the bit that fell out. -/
def Shift.once (k : Shift) (w : Width) (x : UInt32) : UInt32 × Bool :=
  match k with
  | left => (w.truncate (x <<< 1), w.sign x)
  | right => (x >>> 1, x &&& 1 != 0)
  | signedRight => ((x >>> 1) ||| (x &&& w.topBit), x &&& 1 != 0)

/-- `n` shifts by one place, with the bit that fell out last. -/
def Shift.times (k : Shift) (w : Width) (n : Nat) (x : UInt32) : UInt32 × Bool :=
  Nat.repeat (fun s => k.once w s.1) n (x, false)

def shift (f : Flags) (k : Shift) (w : Width) (a count : UInt32) : UInt32 × Flags :=
  let n := count &&& 0x1F
  let a := w.truncate a
  if n == 0 then (a, f) else
    let (r, c) := k.times w n.toNat a
    let o :=
      if n == 1 then
        match k with
        | .left => w.sign r != c
        | .right => w.sign a
        | .signedRight => false
      else f.overflow
    (r, { f.ofResult w r with carry := c, overflow := o })

inductive Rotate
  | left | right | carryLeft | carryRight
  deriving DecidableEq, Repr

/-- A rotate through the carry to the left by one place. -/
def rotateCarryLeft (w : Width) (s : UInt32 × Bool) : UInt32 × Bool :=
  (w.truncate ((s.1 <<< 1) ||| s.2.toUInt32), w.sign s.1)

/-- A rotate through the carry to the right by one place. -/
def rotateCarryRight (w : Width) (s : UInt32 × Bool) : UInt32 × Bool :=
  ((s.1 >>> 1) ||| (if s.2 then w.topBit else 0), s.1 &&& 1 != 0)

/-- `x` rotated to the left by `n` places, `n` less than the width. -/
def rotateLeft (w : Width) (x : UInt32) (n : Nat) : UInt32 :=
  let x := x.toUInt64
  w.truncate ((x <<< UInt64.ofNat n) ||| (x >>> UInt64.ofNat ((w.bits - n) % w.bits))).toUInt32

/-- `x` rotated to the right by `n` places, `n` less than the width. -/
def rotateRight (w : Width) (x : UInt32) (n : Nat) : UInt32 :=
  let x := x.toUInt64
  w.truncate ((x >>> UInt64.ofNat n) ||| (x <<< UInt64.ofNat ((w.bits - n) % w.bits))).toUInt32

/-- The value and the carry after a rotate by `n` places. -/
def Rotate.apply (k : Rotate) (w : Width) (n : Nat) (x : UInt32) (c : Bool) : UInt32 × Bool :=
  match k with
  | left => let r := rotateLeft w x (n % w.bits); (r, r &&& 1 != 0)
  | right => let r := rotateRight w x (n % w.bits); (r, w.sign r)
  | carryLeft => Nat.repeat (rotateCarryLeft w) (n % (w.bits + 1)) (x, c)
  | carryRight => Nat.repeat (rotateCarryRight w) (n % (w.bits + 1)) (x, c)

def rotate (f : Flags) (k : Rotate) (w : Width) (a count : UInt32) : UInt32 × Flags :=
  let n := count &&& 0x1F
  let a := w.truncate a
  if n == 0 then (a, f) else
    let (r, c) := k.apply w n.toNat a f.carry
    let o :=
      if n == 1 then
        match k with
        | .left | .carryLeft => w.sign r != c
        | .right | .carryRight => w.sign r != (r &&& (w.topBit >>> 1) != 0)
      else f.overflow
    (r, { f with carry := c, overflow := o })

end Ia32.Alu
