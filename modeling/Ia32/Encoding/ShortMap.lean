/-
  The opcodes of the two- and three-byte vector encodings.

  Main definitions:
  - `shortMap1`, `shortMap2`, `shortMap3` : the maps of the encodings at `C4` and `C5`
  - `shortMap8`, `shortMap9`, `shortMap10` : the maps of the encoding at `8F`
  - `shortMap` : a map by its number
-/
import Ia32.Encoding.ShortForm

namespace Ia32.Encoding

open Mandatory ShortForm

def shortMap1 (b : Nat) : List ShortForm :=
  match b with
  | 0x10 | 0x11 => two.under packed ++ three.register.under scalar ++ two.memory.under scalar
  | 0x12 =>
    three.l0.under [none] ++ three.l0.memory.under [operandSize] ++ two.under scalar
  | 0x13 | 0x17 => two.l0.memory.under packed
  | 0x16 => three.l0.under [none] ++ three.l0.memory.under [operandSize] ++ two.under [rep]
  | 0x28 | 0x29 | 0x2E | 0x2F => two.under packed
  | 0x14 | 0x15 | 0x54 | 0x55 | 0x56 | 0x57 => three.under packed
  | 0x2A => three.under scalar
  | 0x2B => two.memory.under packed
  | 0x2C | 0x2D => two.under scalar
  | 0x41 | 0x42 | 0x45 | 0x46 | 0x47 | 0x4A => three.l1.register.under packed
  | 0x44 | 0x98 | 0x99 => two.l0.register.under packed
  | 0x4B => three.l1.register.under [none] ++ three.w0.l1.register.under [operandSize]
  | 0x50 => two.register.under packed
  | 0x51 | 0x5A => two.under packed ++ three.under scalar
  | 0x52 | 0x53 => two.under [none] ++ three.under [rep]
  | 0x58 | 0x59 | 0x5C | 0x5D | 0x5E | 0x5F => three.under all
  | 0x5B => two.under [none, operandSize, rep]
  | 0x6E => two.l0.under [operandSize]
  | 0x6F | 0x7F => two.under [operandSize, rep]
  | 0x70 => (two.withTail 1).under [operandSize, rep, repne]
  | 0x71 | 0x72 => ((three.register.digit [2, 4, 6]).withTail 1).under [operandSize]
  | 0x73 => ((three.register.digit [2, 3, 6, 7]).withTail 1).under [operandSize]
  | 0x7C | 0x7D | 0xD0 => three.under [operandSize, repne]
  | 0x7E => two.l0.under [operandSize, rep]
  | 0x90 => two.l0.under packed
  | 0x91 => two.l0.memory.under packed
  | 0x92 | 0x93 => two.w0.l0.register.under [none, operandSize, repne]
  | 0xAE => (two.l0.memory.digit [2, 3]).under [none]
  | 0xC2 => (three.withTail 1).under all
  | 0xC4 => (three.l0.withTail 1).under [operandSize]
  | 0xC5 => (two.l0.register.withTail 1).under [operandSize]
  | 0xC6 => (three.withTail 1).under packed
  | 0xD6 => two.l0.under [operandSize]
  | 0xD7 => two.register.under [operandSize]
  | 0xE6 => two.under [operandSize, rep, repne]
  | 0xE7 => two.memory.under [operandSize]
  | 0xF0 => two.memory.under [repne]
  | 0xF7 => two.l0.register.under [operandSize]
  | _ =>
    if (0x60 ≤ b ∧ b ≤ 0x6D) ∨ (0x74 ≤ b ∧ b ≤ 0x76) ∨ (0xD1 ≤ b ∧ b ≤ 0xFE) then
      three.under [operandSize]
    else []

def shortMap2 (b : Nat) : List ShortForm :=
  match b with
  | 0x0C | 0x0D | 0x46 => three.w0.under [operandSize]
  | 0x0E | 0x0F | 0x13 | 0x18 | 0x58 | 0x59 | 0x78 | 0x79 => two.w0.under [operandSize]
  | 0x16 | 0x36 => three.w0.l1.under [operandSize]
  | 0x19 => two.w0.l1.under [operandSize]
  | 0x1A | 0x5A => two.w0.l1.memory.under [operandSize]
  | 0x17 | 0x1C | 0x1D | 0x1E => two.under [operandSize]
  | 0x2A => two.memory.under [operandSize]
  | 0x2C | 0x2D | 0x2E | 0x2F => three.w0.memory.under [operandSize]
  | 0x41 | 0xDB => two.l0.under [operandSize]
  | 0x50 | 0x51 => three.w0.under all
  | 0x52 | 0x53 | 0xCF => three.w0.under [operandSize]
  | 0x72 => two.w0.under [rep]
  | 0x8C | 0x8E => three.memory.under [operandSize]
  | 0x90 | 0x91 | 0x92 | 0x93 =>
    { three.memory with indexed := true }.under [operandSize]
  | 0xB0 => two.w0.memory.under all
  | 0xB1 => two.w0.memory.under [operandSize, rep]
  | 0xB4 | 0xB5 => three.w1.under [operandSize]
  | 0xCB => three.w0.l1.register.under [repne]
  | 0xCC | 0xCD => two.w0.l1.register.under [repne]
  | 0xD2 | 0xD3 => three.w0.under [none, operandSize, rep]
  | 0xDA => three.w0.l0.under packed ++ three.w0.under scalar
  | 0xF2 => three.l0.under [none]
  | 0xF3 => (three.l0.digit [1, 2, 3]).under [none]
  | 0xF5 => three.l0.under [none, rep, repne]
  | 0xF6 => three.l0.under [repne]
  | 0xF7 => three.l0.under all
  | _ =>
    if (0x20 ≤ b ∧ b ≤ 0x25) ∨ (0x30 ≤ b ∧ b ≤ 0x35) then two.under [operandSize]
    else if b ≤ 0x0B ∨ b = 0x28 ∨ b = 0x29 ∨ b = 0x2B ∨ (0x37 ≤ b ∧ b ≤ 0x40) ∨ b = 0x45 ∨
        b = 0x47 ∨ (0x96 ≤ b ∧ b ≤ 0x9F) ∨ (0xA6 ≤ b ∧ b ≤ 0xAF) ∨ (0xB6 ≤ b ∧ b ≤ 0xBF) ∨
        (0xDC ≤ b ∧ b ≤ 0xDF) then three.under [operandSize]
    else []

/-- The forms of map 3 before its immediate byte. -/
def shortMap3Forms (b : Nat) : List ShortForm :=
  match b with
  | 0x00 | 0x01 => two.w1.l1.under [operandSize]
  | 0x02 | 0x4A | 0x4B | 0x4C => three.w0.under [operandSize]
  | 0x04 | 0x05 | 0x1D => two.w0.under [operandSize]
  | 0x06 | 0x18 | 0x38 | 0x46 => three.w0.l1.under [operandSize]
  | 0x08 | 0x09 => two.under [operandSize]
  | 0x14 | 0x15 | 0x16 | 0x17 | 0x60 | 0x61 | 0x62 | 0x63 | 0xDF => two.l0.under [operandSize]
  | 0x19 | 0x39 => two.w0.l1.under [operandSize]
  | 0x20 | 0x21 | 0x22 | 0x41 => three.l0.under [operandSize]
  | 0x30 | 0x31 | 0x32 | 0x33 => two.l0.register.under [operandSize]
  | 0xCE | 0xCF => three.w1.under [operandSize]
  | 0xDE => three.w0.l0.under [operandSize]
  | 0xF0 => two.l0.under [repne]
  | _ =>
    if (0x0A ≤ b ∧ b ≤ 0x0F) ∨ b = 0x40 ∨ b = 0x42 ∨ b = 0x44 ∨ b = 0x48 ∨ b = 0x49 ∨
        (0x5C ≤ b ∧ b ≤ 0x5F) ∨ (0x68 ≤ b ∧ b ≤ 0x6F) ∨ (0x78 ≤ b ∧ b ≤ 0x7F) then
      three.under [operandSize]
    else []

def shortMap3 (b : Nat) : List ShortForm := (shortMap3Forms b).map (·.withTail 1)

/-- The forms of map 8 before its immediate byte. -/
def shortMap8Forms (b : Nat) : List ShortForm :=
  match b with
  | 0x85 | 0x86 | 0x87 | 0x8E | 0x8F | 0x95 | 0x96 | 0x97 | 0x9E | 0x9F | 0xA6 | 0xB6
  | 0xCC | 0xCD | 0xCE | 0xCF | 0xEC | 0xED | 0xEE | 0xEF => [three.w0.l0]
  | 0xA2 => [three]
  | 0xA3 => [three.l0]
  | 0xC0 | 0xC1 | 0xC2 | 0xC3 => [two.w0.l0]
  | _ => []

def shortMap8 (b : Nat) : List ShortForm := (shortMap8Forms b).map (·.withTail 1)

def shortMap9 (b : Nat) : List ShortForm :=
  match b with
  | 0x01 => [three.l0.digit [1, 2, 3, 4, 5, 6, 7]]
  | 0x02 => [three.l0.digit [1, 6]]
  | 0x12 => [two.l0.register.digit [0, 1]]
  | 0x80 | 0x81 => [two.w0]
  | 0x82 | 0x83 | 0xC1 | 0xC2 | 0xC3 | 0xC6 | 0xC7 | 0xCB | 0xD1 | 0xD2 | 0xD3 | 0xD6 | 0xD7
  | 0xDB | 0xE1 | 0xE2 | 0xE3 => [two.w0.l0]
  | _ => if 0x90 ≤ b ∧ b ≤ 0x9B then [three.l0] else []

/-- Map 10, whose immediates have four bytes. -/
def shortMap10 (b : Nat) : List ShortForm :=
  match b with
  | 0x10 => [two.l0.withTail 4]
  | 0x12 => [(three.l0.digit [0, 1]).withTail 4]
  | _ => []

/-- The map of a number, if there is one; map 0 is empty. -/
def shortMap (extended : Bool) (n : Nat) : Option (Nat → List ShortForm) :=
  match extended, n with
  | false, 0 => some fun _ => []
  | false, 1 => some shortMap1
  | false, 2 => some shortMap2
  | false, 3 => some shortMap3
  | true, 8 => some shortMap8
  | true, 9 => some shortMap9
  | true, 10 => some shortMap10
  | _, _ => Option.none

end Ia32.Encoding
