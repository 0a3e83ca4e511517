/-
  Opcodes of vector operations.  None of them is carried out; the maps tell which exist.

  Main definitions:
  - `Variants` : the variants of an opcode that the mandatory byte selects
  - `lowerVariants`, `upperVariants` : the vector opcodes of the two-byte map
  - `thirdMapForm`, `fourthMapForm` : the opcodes after `0F 38` and `0F 3A`
-/
import Ia32.Encoding.Ending

namespace Ia32.Encoding

/-- The variants without a mandatory byte and with `66`, `F3` and `F2`, and the number of bytes
after the address. -/
structure Variants where
  plain : Shape
  p66 : Shape
  pF3 : Shape
  pF2 : Shape
  tail : Nat := 0

namespace Variants

def shape (v : Variants) : Mandatory → Shape
  | .none => v.plain
  | .operandSize => v.p66
  | .rep => v.pF3
  | .repne => v.pF2

/-- Operands of the wrong shape have no address, but the bytes after it are looked for. -/
def form (v : Variants) (p : Mandatory) (m : ModRm) : Form :=
  let s := v.shape p
  if s.admits m then .foreignPlace v.tail
  else if s = .absent then .invalid
  else .lacking v.tail

def all : Variants := ⟨.any, .any, .any, .any, 0⟩
def both : Variants := ⟨.any, .any, .absent, .absent, 0⟩
def bothInMemory : Variants := ⟨.memory, .memory, .absent, .absent, 0⟩
def bothInRegister : Variants := ⟨.register, .register, .absent, .absent, 0⟩
def only66 : Variants := ⟨.absent, .any, .absent, .absent, 0⟩
def none : Variants := ⟨.absent, .absent, .absent, .absent, 0⟩

end Variants

open Shape in
/-- The vector opcodes among `0F 10` to `0F 7F`. -/
def lowerVariants (b : Nat) : Variants :=
  match b with
  | 0x10 | 0x11 | 0x2A | 0x2C | 0x2D | 0x51 | 0x58 | 0x59 | 0x5A | 0x5C | 0x5D | 0x5E | 0x5F =>
    .all
  | 0x12 => ⟨any, memory, any, any, 0⟩
  | 0x16 => ⟨any, memory, any, absent, 0⟩
  | 0x13 | 0x17 => .bothInMemory
  | 0x2B => ⟨memory, memory, memory, memory, 0⟩
  | 0x14 | 0x15 | 0x28 | 0x29 | 0x2E | 0x2F | 0x54 | 0x55 | 0x56 | 0x57 | 0x6E | 0x74 | 0x75
  | 0x76 => .both
  | 0x50 => .bothInRegister
  | 0x52 | 0x53 => ⟨any, absent, any, absent, 0⟩
  | 0x5B | 0x6F | 0x7E | 0x7F => ⟨any, any, any, absent, 0⟩
  | 0x6C | 0x6D => .only66
  | 0x70 => ⟨any, any, any, any, 1⟩
  | 0x78 => ⟨any, absent, absent, absent, 0⟩
  | 0x79 => ⟨any, register, absent, register, 0⟩
  | 0x7C | 0x7D => ⟨absent, any, absent, any, 0⟩
  | _ => if 0x60 ≤ b ∧ b ≤ 0x6B then .both else .none

open Shape in
/-- The vector opcodes from `0F C2` on. -/
def upperVariants (b : Nat) : Variants :=
  match b with
  | 0xC2 => ⟨any, any, any, any, 1⟩
  | 0xC3 => ⟨memory, absent, absent, absent, 0⟩
  | 0xC4 | 0xC6 => ⟨any, any, absent, absent, 1⟩
  | 0xC5 => ⟨register, register, absent, absent, 1⟩
  | 0xD0 => ⟨absent, any, absent, any, 0⟩
  | 0xD6 => ⟨absent, any, register, register, 0⟩
  | 0xD7 | 0xF7 => .bothInRegister
  | 0xE6 => ⟨absent, any, any, any, 0⟩
  | 0xE7 => .bothInMemory
  | 0xF0 => ⟨absent, absent, absent, memory, 0⟩
  | _ => if 0xD1 ≤ b ∧ b ≤ 0xFE then .both else .none

/-- The shifts by an immediate at `0F 71` to `0F 73`. -/
def vectorShiftForm (b : Nat) (p : Mandatory) (m : ModRm) : Form :=
  let shared := match b with
    | 0x73 => [2, 6]
    | _ => [2, 4, 6]
  let ok := match p with
    | .none => shared.contains m.reg
    | .operandSize => shared.contains m.reg || (b == 0x73 && [3, 7].contains m.reg)
    | _ => false
  if !ok then .invalid
  else if m.isRegister then .foreignPlace 1
  else .lacking 1

/-- The bit-field moves at `0F 78`, with two immediate bytes. -/
def bitFieldForm (p : Mandatory) (m : ModRm) : Form :=
  match p with
  | .none => .foreignPlace 0
  | .operandSize =>
    if m.reg != 0 then .invalid
    else if m.isRegister then .foreignPlace 2
    else .lacking 2
  | .repne => if m.isRegister then .foreignPlace 2 else .lacking 2
  | .rep => .invalid

open Shape in
/-- The opcodes after `0F 38`. -/
def thirdMapVariants (b : Nat) : Variants :=
  match b with
  | 0x10 | 0x14 | 0x15 | 0x17 | 0xCF | 0xDB => .only66
  | 0x1C | 0x1D | 0x1E => .both
  | 0x2A => ⟨absent, memory, absent, absent, 0⟩
  | 0x80 | 0x81 | 0x82 => ⟨absent, memory, absent, absent, 0⟩
  | 0xDC => ⟨absent, any, any, absent, 0⟩
  | 0xDD | 0xDE | 0xDF => ⟨absent, any, memory, absent, 0⟩
  | 0xF0 | 0xF1 => ⟨memory, memory, absent, any, 0⟩
  | 0xF5 => ⟨absent, memory, absent, absent, 0⟩
  | 0xF6 => ⟨memory, any, any, absent, 0⟩
  | 0xF8 => ⟨absent, memory, memory, memory, 0⟩
  | 0xF9 => ⟨memory, absent, absent, absent, 0⟩
  | 0xFA | 0xFB => ⟨absent, absent, register, absent, 0⟩
  | 0xFC => ⟨memory, memory, memory, memory, 0⟩
  | _ =>
    if b ≤ 0x0B then .both
    else if (0x20 ≤ b ∧ b ≤ 0x25) ∨ (0x28 ≤ b ∧ b ≤ 0x2B) ∨ (0x30 ≤ b ∧ b ≤ 0x35) ∨
        (0x37 ≤ b ∧ b ≤ 0x41) then .only66
    else if 0xC8 ≤ b ∧ b ≤ 0xCD then ⟨any, absent, absent, absent, 0⟩
    else .none

/-- The form of an opcode after `0F 38`.  One of them tells operations apart by the register
field. -/
def thirdMapForm (b : Nat) (p : Mandatory) (m : ModRm) : Form :=
  if b = 0xD8 then
    if p = .rep ∧ m.reg < 4 ∧ !m.isRegister then .foreignPlace 0 else .invalid
  else (thirdMapVariants b).form p m

open Shape in
/-- The opcodes after `0F 3A`, all with an immediate byte. -/
def fourthMapVariants (b : Nat) : Variants :=
  match b with
  | 0x0F => ⟨any, any, absent, absent, 1⟩
  | 0xCC => ⟨any, absent, absent, absent, 1⟩
  | 0x44 | 0xCE | 0xCF | 0xDF => ⟨absent, any, absent, absent, 1⟩
  | _ =>
    if (0x08 ≤ b ∧ b ≤ 0x0E) ∨ (0x14 ≤ b ∧ b ≤ 0x17) ∨ (0x20 ≤ b ∧ b ≤ 0x22) ∨
        (0x40 ≤ b ∧ b ≤ 0x42) ∨ (0x60 ≤ b ∧ b ≤ 0x63) then ⟨absent, any, absent, absent, 1⟩
    else .none

/-- The form of an opcode after `0F 3A`.  One of them has a register form alone. -/
def fourthMapForm (b : Nat) (p : Mandatory) (m : ModRm) : Form :=
  if b = 0xF0 then
    if p = .rep ∧ m.reg = 0 ∧ m.isRegister then .foreignPlace 1 else .invalid
  else (fourthMapVariants b).form p m

/-- The last bytes of the packed floating-point operations after `0F 0F`. -/
def packedFloatSuffixes : List Nat :=
  [0x0C, 0x0D, 0x1C, 0x1D, 0x8A, 0x8E, 0x90, 0x94, 0x96, 0x97, 0x9A, 0x9E, 0xA0,
   0xA4, 0xA6, 0xA7, 0xAA, 0xAE, 0xB0, 0xB4, 0xB6, 0xB7, 0xBB, 0xBF]

end Ia32.Encoding
