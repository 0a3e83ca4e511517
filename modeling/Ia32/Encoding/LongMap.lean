/-
  The opcodes of the four-byte vector encoding.

  Main definitions:
  - `longMap1`, `longMap2`, `longMap3` : the maps that continue those of the short encodings
  - `longMap5`, `longMap6` : the maps for elements of half precision
  - `longMap` : a map by its number
-/
import Ia32.Encoding.LongForm

namespace Ia32.Encoding

open LongForm
open Mandatory (none operandSize rep repne)

def longMap1 (b : Nat) : List LongForm :=
  match b with
  | 0x10 => two.packed ++ three.register.scalar ++ two.memory.scalar
  | 0x11 => two.packed ++ three.register.scalar ++ two.memory.merging.scalar
  | 0x12 =>
    three.w0.short.unmasked.under [none] ++ three.w1.short.unmasked.memory.under [operandSize] ++
    two.w0.under [rep] ++ two.w1.under [repne]
  | 0x16 =>
    three.w0.short.unmasked.under [none] ++ three.w1.short.unmasked.memory.under [operandSize] ++
    two.w0.under [rep]
  | 0x13 | 0x17 => two.short.unmasked.memory.packed
  | 0x14 | 0x15 | 0x54 | 0x55 | 0x56 | 0x57 => three.broadcasts.packed
  | 0x28 | 0x29 => two.packed
  | 0x2A => three.single.unmasked.rounds.under [rep, repne]
  | 0x2B => two.unmasked.memory.packed
  | 0x2C | 0x2D => two.single.unmasked.rounds.under [rep, repne]
  | 0x2E | 0x2F => two.single.unmasked.rounds.packed
  | 0x51 | 0x5A => two.broadcasts.rounds.packed ++ three.rounds.scalar
  | 0x58 | 0x59 | 0x5C | 0x5D | 0x5E | 0x5F =>
    three.broadcasts.rounds.packed ++ three.rounds.scalar
  | 0x5B =>
    two.broadcasts.rounds.under [none] ++ two.w0.broadcasts.rounds.under [operandSize, rep]
  | 0x62 | 0x6A | 0x6B | 0xFA | 0xFE => three.w0.broadcasts.under [operandSize]
  | 0x6C | 0x6D | 0xD4 | 0xF4 | 0xFB => three.w1.broadcasts.under [operandSize]
  | 0x64 | 0x65 | 0x74 | 0x75 => three.merging.under [operandSize]
  | 0x66 | 0x76 => three.w0.broadcasts.merging.under [operandSize]
  | 0x6E => two.short.unmasked.under [operandSize]
  | 0x7E => two.short.unmasked.under [operandSize] ++ two.w1.short.unmasked.under [rep]
  | 0x6F | 0x7F => two.under [operandSize, rep, repne]
  | 0x70 =>
    (two.w0.broadcasts.withTail 1).under [operandSize] ++ (two.withTail 1).under [rep, repne]
  | 0x71 => ((three.digit [2, 4, 6]).withTail 1).under [operandSize]
  | 0x72 =>
    ((three.broadcasts.digit [0, 1, 4]).withTail 1).under [operandSize] ++
    ((three.w0.broadcasts.digit [2, 6]).withTail 1).under [operandSize]
  | 0x73 =>
    ((three.w1.broadcasts.digit [2, 6]).withTail 1).under [operandSize] ++
    ((three.unmasked.digit [3, 7]).withTail 1).under [operandSize]
  | 0x78 | 0x79 =>
    two.broadcasts.rounds.under [none, operandSize] ++
    two.single.unmasked.rounds.under [rep, repne]
  | 0x7A => two.broadcasts.rounds.under [operandSize, rep, repne]
  | 0x7B =>
    two.broadcasts.rounds.under [operandSize] ++
    three.single.unmasked.rounds.under [rep, repne]
  | 0xC2 =>
    (three.broadcasts.rounds.merging.withTail 1).packed ++ (three.rounds.merging.withTail 1).scalar
  | 0xC4 => (three.short.unmasked.withTail 1).under [operandSize]
  | 0xC5 => (two.short.unmasked.register.withTail 1).under [operandSize]
  | 0xC6 => (three.broadcasts.withTail 1).packed
  | 0xD2 | 0xF2 => three.w0.under [operandSize]
  | 0xD3 | 0xF3 => three.w1.under [operandSize]
  | 0xD6 => two.w1.short.unmasked.under [operandSize]
  | 0xDB | 0xDF | 0xEB | 0xEF => three.broadcasts.under [operandSize]
  | 0xE6 =>
    two.w1.broadcasts.rounds.under [operandSize, repne] ++ two.broadcasts.rounds.under [rep]
  | 0xE7 => two.w0.unmasked.memory.under [operandSize]
  | 0xF6 => three.unmasked.under [operandSize]
  | 0xD0 | 0xD7 | 0xF0 | 0xF7 => []
  | _ =>
    if b = 0x60 ∨ b = 0x61 ∨ b = 0x63 ∨ (0x67 ≤ b ∧ b ≤ 0x69) ∨ (0xD1 ≤ b ∧ b ≤ 0xFD) then
      three.under [operandSize]
    else []

/-- The places of the fused operations in a row; the odd ones past the second pair work on
single elements. -/
def fusedForm (b : Nat) : LongForm :=
  if 9 ≤ b % 16 ∧ b % 2 = 1 then three.single.rounds else three.broadcasts.rounds

/-- The opcodes of the fused operations, in three rows. -/
def isFused (b : Nat) : Bool :=
  (b / 16 == 9 || b / 16 == 10 || b / 16 == 11) && 6 ≤ b % 16

/-- The rows of map 2 up to `3F`. -/
def longMap2Lower (b : Nat) : List LongForm :=
  match b with
  | 0x00 | 0x04 | 0x0B | 0x3C | 0x3E => three.under [operandSize]
  | 0x0C => three.w0.broadcasts.under [operandSize]
  | 0x0D => three.w1.broadcasts.under [operandSize]
  | 0x10 | 0x11 | 0x12 => three.w1.under [operandSize] ++ two.w0.under [rep]
  | 0x13 => two.w0.rounds.under [operandSize] ++ two.w0.under [rep]
  | 0x14 | 0x15 => three.broadcasts.under [operandSize] ++ two.w0.under [rep]
  | 0x16 | 0x36 => three.broadcasts.longer.under [operandSize]
  | 0x18 => two.w0.under [operandSize]
  | 0x19 => two.longer.under [operandSize]
  | 0x1A => two.longer.memory.under [operandSize]
  | 0x1B => two.longest.memory.under [operandSize]
  | 0x1C | 0x1D => two.under [operandSize]
  | 0x1E => two.w0.broadcasts.under [operandSize]
  | 0x1F => two.w1.broadcasts.under [operandSize]
  | 0x25 | 0x35 => two.w0.under [operandSize, rep]
  | 0x26 => three.merging.under [operandSize, rep]
  | 0x27 => three.broadcasts.merging.under [operandSize, rep]
  | 0x28 => three.w1.broadcasts.under [operandSize] ++ two.unmasked.register.under [rep]
  | 0x29 =>
    three.w1.broadcasts.merging.under [operandSize] ++ two.unmasked.register.under [rep]
  | 0x2A =>
    two.w0.unmasked.memory.under [operandSize] ++ two.w1.unmasked.register.under [rep]
  | 0x2B => three.w0.broadcasts.under [operandSize]
  | 0x2C => three.broadcasts.rounds.under [operandSize]
  | 0x2D => three.single.rounds.under [operandSize]
  | 0x37 => three.w1.broadcasts.merging.under [operandSize]
  | 0x38 => three.under [operandSize] ++ two.unmasked.register.under [rep]
  | 0x39 => three.broadcasts.under [operandSize] ++ two.unmasked.register.under [rep]
  | 0x3A => three.under [operandSize] ++ two.w0.unmasked.register.under [rep]
  | 0x3B | 0x3D | 0x3F => three.broadcasts.under [operandSize]
  | _ =>
    if (0x20 ≤ b ∧ b ≤ 0x24) ∨ (0x30 ≤ b ∧ b ≤ 0x34) then
      two.under [operandSize] ++ two.w0.under [rep]
    else []

/-- The rows of map 2 from `40` on. -/
def longMap2Upper (b : Nat) : List LongForm :=
  match b with
  | 0x40 | 0x45 | 0x46 | 0x47 | 0x64 | 0x65 | 0x71 | 0x73 | 0x76 | 0x77 | 0x7E | 0x7F =>
    three.broadcasts.under [operandSize]
  | 0x42 => two.broadcasts.rounds.under [operandSize]
  | 0x43 | 0xCB | 0xCD => three.single.rounds.under [operandSize]
  | 0x44 | 0x4C | 0x4E | 0x55 | 0xC4 => two.broadcasts.under [operandSize]
  | 0x4D | 0x4F => three.single.under [operandSize]
  | 0x50 | 0x51 => three.w0.broadcasts.under [operandSize]
  | 0x52 =>
    three.w0.broadcasts.under [operandSize, rep] ++ three.w0.longest.memory.under [repne]
  | 0x53 => three.w0.broadcasts.under [operandSize] ++ three.w0.longest.memory.under [repne]
  | 0x54 | 0x59 | 0x62 | 0x63 | 0x88 | 0x89 | 0x8A | 0x8B => two.under [operandSize]
  | 0x58 | 0x78 | 0x79 => two.w0.under [operandSize]
  | 0x5A => two.longer.memory.under [operandSize]
  | 0x5B => two.longest.memory.under [operandSize]
  | 0x66 | 0x75 | 0x7D | 0x8D => three.under [operandSize]
  | 0x68 => three.broadcasts.unmasked.under [repne]
  | 0x70 => three.w1.under [operandSize]
  | 0x72 =>
    three.w1.under [operandSize] ++ two.w0.broadcasts.under [rep] ++
    three.w0.broadcasts.under [repne]
  | 0x7A | 0x7B => two.w0.register.under [operandSize]
  | 0x7C => two.register.under [operandSize]
  | 0x83 | 0xB4 | 0xB5 => three.w1.broadcasts.under [operandSize]
  | 0x8F => three.w0.merging.under [operandSize]
  | 0x90 | 0x91 | 0x92 | 0x93 => two.gathered.under [operandSize]
  | 0xA0 | 0xA1 | 0xA2 | 0xA3 => two.scattered.under [operandSize]
  | 0x9A | 0xAA =>
    (fusedForm b).under [operandSize] ++ three.w0.longest.memory.under [repne]
  | 0x9B | 0xAB =>
    (fusedForm b).under [operandSize] ++ three.w0.single.memory.under [repne]
  | 0xC6 | 0xC7 => (two.longest.scattered.digit [1, 2, 5, 6]).under [operandSize]
  | 0xC8 | 0xCA | 0xCC => two.longest.broadcasts.rounds.under [operandSize]
  | 0xCF => three.w0.under [operandSize]
  | 0xDC | 0xDD | 0xDE | 0xDF => three.unmasked.under [operandSize]
  | _ => if isFused b then (fusedForm b).under [operandSize] else []

def longMap2 (b : Nat) : List LongForm :=
  if b < 0x40 then longMap2Lower b else longMap2Upper b

/-- The forms of map 3 before its immediate byte. -/
def longMap3Forms (b : Nat) : List LongForm :=
  match b with
  | 0x00 | 0x01 => two.w1.broadcasts.longer.under [operandSize]
  | 0x03 | 0x25 | 0x71 | 0x73 => three.broadcasts.under [operandSize]
  | 0x04 => two.w0.broadcasts.under [operandSize]
  | 0x05 => two.w1.broadcasts.under [operandSize]
  | 0x08 => two.w0.broadcasts.rounds.under [none, operandSize]
  | 0x09 => two.w1.broadcasts.rounds.under [operandSize]
  | 0x0A => three.w0.single.rounds.under [none, operandSize]
  | 0x0B => three.w1.single.rounds.under [operandSize]
  | 0x0F => three.under [operandSize]
  | 0x14 | 0x15 | 0x16 | 0x17 => two.short.unmasked.under [operandSize]
  | 0x18 | 0x38 => three.longer.under [operandSize]
  | 0x19 | 0x39 => two.longer.under [operandSize]
  | 0x1A | 0x3A => three.longest.under [operandSize]
  | 0x1B | 0x3B => two.longest.under [operandSize]
  | 0x1D => two.w0.rounds.under [operandSize]
  | 0x1E | 0x1F => three.broadcasts.merging.under [operandSize]
  | 0x20 | 0x22 => three.short.unmasked.under [operandSize]
  | 0x21 => three.w0.short.unmasked.under [operandSize]
  | 0x23 | 0x43 => three.broadcasts.longer.under [operandSize]
  | 0x26 | 0x56 =>
    two.w0.broadcasts.rounds.under [none] ++ two.broadcasts.rounds.under [operandSize]
  | 0x27 | 0x57 =>
    three.w0.single.rounds.under [none] ++ three.single.rounds.under [operandSize]
  | 0x3E | 0x3F => three.merging.under [operandSize]
  | 0x42 => three.w0.under [operandSize]
  | 0x44 => three.unmasked.under [operandSize]
  | 0x50 | 0x54 => three.broadcasts.rounds.under [operandSize]
  | 0x51 | 0x55 => three.single.rounds.under [operandSize]
  | 0x66 =>
    two.w0.broadcasts.merging.under [none] ++ two.broadcasts.merging.under [operandSize]
  | 0x67 => two.w0.single.merging.under [none] ++ two.single.merging.under [operandSize]
  | 0x70 | 0x72 => three.w1.under [operandSize]
  | 0xC2 =>
    three.w0.broadcasts.rounds.merging.under [none] ++
    three.w0.single.rounds.merging.under [rep]
  | 0xCE | 0xCF => three.w1.broadcasts.under [operandSize]
  | _ => []

def longMap3 (b : Nat) : List LongForm := (longMap3Forms b).map (·.withTail 1)

def longMap5 (b : Nat) : List LongForm :=
  match b with
  | 0x10 => three.w0.single.register.under [rep] ++ two.w0.single.memory.under [rep]
  | 0x11 => three.w0.single.register.under [rep] ++ two.w0.single.memory.merging.under [rep]
  | 0x1D =>
    three.w0.single.rounds.under [none] ++ two.w0.broadcasts.rounds.under [operandSize]
  | 0x2A => three.single.unmasked.rounds.under [rep]
  | 0x2C | 0x2D => two.single.unmasked.rounds.under [rep]
  | 0x2E | 0x2F => two.w0.single.unmasked.rounds.under [none]
  | 0x51 => two.w0.broadcasts.rounds.under [none] ++ three.w0.single.rounds.under [rep]
  | 0x58 | 0x59 | 0x5C | 0x5D | 0x5E | 0x5F =>
    three.w0.broadcasts.rounds.under [none] ++ three.w0.single.rounds.under [rep]
  | 0x5A =>
    two.broadcasts.rounds.packed ++ three.rounds.scalar
  | 0x5B =>
    two.broadcasts.rounds.under [none] ++ two.w0.broadcasts.rounds.under [operandSize, rep]
  | 0x6E | 0x7E => two.short.unmasked.under [operandSize]
  | 0x78 | 0x79 =>
    two.w0.broadcasts.rounds.under [none, operandSize] ++
    two.single.unmasked.rounds.under [rep]
  | 0x7A =>
    two.w0.broadcasts.rounds.under [operandSize] ++ two.broadcasts.rounds.under [repne]
  | 0x7B =>
    two.w0.broadcasts.rounds.under [operandSize] ++
    three.single.unmasked.rounds.under [rep]
  | 0x7C => two.w0.broadcasts.rounds.under [none, operandSize]
  | 0x7D => two.w0.broadcasts.rounds.under Mandatory.all
  | _ => []

def longMap6 (b : Nat) : List LongForm :=
  match b with
  | 0x13 =>
    three.w0.single.rounds.under [none] ++ two.w0.broadcasts.rounds.under [operandSize]
  | 0x2C => three.w0.broadcasts.rounds.under [operandSize]
  | 0x2D | 0x43 => three.w0.single.rounds.under [operandSize]
  | 0x42 => two.w0.broadcasts.rounds.under [operandSize]
  | 0x4C | 0x4E => two.w0.broadcasts.under [operandSize]
  | 0x4D | 0x4F => three.w0.single.under [operandSize]
  | 0x56 | 0xD6 => { three.w0.broadcasts.rounds with apart := true }.under [rep, repne]
  | 0x57 | 0xD7 => { three.w0.single.rounds with apart := true }.under [rep, repne]
  | _ => if isFused b then (fusedForm b).w0.under [operandSize] else []

/-- The map of a number, if there is one. -/
def longMap (n : Nat) : Option (Nat → List LongForm) :=
  match n with
  | 1 => some longMap1
  | 2 => some longMap2
  | 3 => some longMap3
  | 5 => some longMap5
  | 6 => some longMap6
  | _ => Option.none

end Ia32.Encoding
