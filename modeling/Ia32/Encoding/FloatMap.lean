/-
  The floating-point opcodes.  None of them is carried out; the map tells which exist.
-/
import Ia32.Encoding.Form

namespace Ia32.Encoding

/-- The memory forms that exist for opcode `b`. -/
def floatInMemory (b reg : Nat) : Bool :=
  match b with
  | 0xD9 => reg != 1
  | 0xDB => reg != 4 && reg != 6
  | 0xDD => reg != 5
  | _ => true

/-- The register forms that exist for opcode `b`; `n` is the second byte less `C0`. -/
def floatInRegister (b n : Nat) : Bool :=
  match b with
  | 0xD9 => !(0x11 ≤ n && n ≤ 0x17) && !([0x22, 0x23, 0x26, 0x27, 0x2F].contains n)
  | 0xDA => n < 0x20 || n == 0x29
  | 0xDB => n < 0x25 || (0x28 ≤ n && n < 0x38)
  | 0xDD => n < 0x30
  | 0xDE => !(0x18 ≤ n && n < 0x20) || n == 0x19
  | 0xDF => n < 0x21 || (0x28 ≤ n && n < 0x38)
  | _ => true

/-- Places in the map that only some older units fill; one more byte is looked for there. -/
def floatVacant (b n : Nat) : Bool :=
  match b with
  | 0xD9 => n == 0x26
  | 0xDB => n == 0x25 || n == 0x3C
  | 0xDD => n == 0x3C
  | 0xDE => 0x18 ≤ n && n ≤ 0x1E && n != 0x19
  | 0xDF => n == 0x21 || n == 0x22 || n == 0x3C
  | _ => false

def floatForm (b : Nat) (m : ModRm) : Form :=
  if m.isRegister then
    let n := m.byte.toNat - 0xC0
    if floatInRegister b n then .foreignOp
    else if floatVacant b n then .lacking 1
    else .invalid
  else if floatInMemory b m.reg then .foreignPlace 0
  else .invalid

end Ia32.Encoding
