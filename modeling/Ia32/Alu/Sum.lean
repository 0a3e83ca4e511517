/-
  Addition, subtraction and the bitwise operations, with the flags they define.
  Every function takes the flags before and gives the result, within the width, and the flags
  after; a flag that the operation does not define keeps its value.

  Main definitions:
  - `Alu.add`, `Alu.sub` : with carry or borrow in
  - `Alu.inc`, `Alu.dec`, `Alu.neg`
  - `Alu.logic` : the flags of a bitwise result
-/
import Ia32.Flags

namespace Ia32.Alu

/-- `a + b + c`; the carry flag is the carry out of the width. -/
def add (f : Flags) (w : Width) (a b : UInt32) (c : Bool) : UInt32 × Flags :=
  let a := w.truncate a
  let b := w.truncate b
  let s := a.toUInt64 + b.toUInt64 + c.toUInt64
  let r := w.truncate s.toUInt32
  (r, { f.ofResult w r with
    carry := decide (w.mask.toUInt64 < s)
    overflow := w.sign ((a ^^^ r) &&& (b ^^^ r))
    adjust := (a ^^^ b ^^^ r) &&& 0x10 != 0 })

/-- `a - b - c`; the carry flag is the borrow out of the width. -/
def sub (f : Flags) (w : Width) (a b : UInt32) (c : Bool) : UInt32 × Flags :=
  let a := w.truncate a
  let b := w.truncate b
  let t := b.toUInt64 + c.toUInt64
  let r := w.truncate (a.toUInt64 - t).toUInt32
  (r, { f.ofResult w r with
    carry := decide (a.toUInt64 < t)
    overflow := w.sign ((a ^^^ b) &&& (a ^^^ r))
    adjust := (a ^^^ b ^^^ r) &&& 0x10 != 0 })

/-- The low end of a bitwise result; carry and overflow are cleared. -/
def logic (f : Flags) (w : Width) (x : UInt32) : UInt32 × Flags :=
  let r := w.truncate x
  (r, { f.ofResult w r with carry := false, overflow := false })

/-- `a + 1`, with the carry flag kept. -/
def inc (f : Flags) (w : Width) (a : UInt32) : UInt32 × Flags :=
  let (r, g) := add f w a 1 false
  (r, { g with carry := f.carry })

/-- `a - 1`, with the carry flag kept. -/
def dec (f : Flags) (w : Width) (a : UInt32) : UInt32 × Flags :=
  let (r, g) := sub f w a 1 false
  (r, { g with carry := f.carry })

/-- `0 - a`; the carry flag tells whether `a` was nonzero. -/
def neg (f : Flags) (w : Width) (a : UInt32) : UInt32 × Flags :=
  let (r, g) := sub f w 0 a false
  (r, { g with carry := w.truncate a != 0 })

end Ia32.Alu
