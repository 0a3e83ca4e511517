/-
  The two-byte opcode map, with operands of width `v` where the operand size decides and
  variants selected by the mandatory byte `p`.

  Main definitions:
  - `secondaryEntry` : the entry of the byte after `0F`
-/
import Ia32.Encoding.PrimaryMap
import Ia32.Encoding.VectorMap

namespace Ia32.Encoding

open OperandForm

/-- The conditional stores of a byte, in the order of their encoding. -/
def setOp (n : Nat) : Mnemonic :=
  match n % 16 with
  | 0x0 => .seto
  | 0x1 => .setno
  | 0x2 => .setb
  | 0x3 => .setae
  | 0x4 => .sete
  | 0x5 => .setne
  | 0x6 => .setbe
  | 0x7 => .seta
  | 0x8 => .sets
  | 0x9 => .setns
  | 0xA => .setp
  | 0xB => .setnp
  | 0xC => .setl
  | 0xD => .setge
  | 0xE => .setle
  | _ => .setg

def Entry.variants (v : Variants) (p : Mandatory) : Entry := .selected (v.form p)

/-- The mandatory bytes with which the operation at a register form of `0F 01` exists; none of
them is carried out. -/
def systemVariants (b : Nat) : List Mandatory :=
  match b with
  | 0xD9 | 0xE8 => [.none, .rep, .repne]
  | 0xE9 => [.repne]
  | 0xEA => [.rep]
  | 0xFA => [.none, .rep]
  | 0xFF => [.none, .repne]
  | 0xF9 | 0xFC => Mandatory.all
  | 0xCF | 0xD0 | 0xD1 | 0xEE | 0xEF | 0xFB | 0xFD | 0xFE => [.none]
  | _ =>
    if (0xC0 ≤ b ∧ b ≤ 0xC6) ∨ (0xC8 ≤ b ∧ b ≤ 0xCB) ∨ (0xD4 ≤ b ∧ b ≤ 0xD7) then [.none]
    else if 0xD8 ≤ b ∧ b ≤ 0xDF then Mandatory.all
    else []

/-- The operations on the registers of the protection system, and on the interrupt tables. -/
def systemForm (v : Width) (p : Mandatory) (m : ModRm) : Form :=
  match m.reg with
  | 4 => .op .smsw [placeOfWord v]
  | 6 => .op .lmsw [placeOfWord v]
  | r =>
    if m.isRegister then
      if m.byte == 0xF8 then .lacking 1
      else if (systemVariants m.byte.toNat).contains p then .foreignOp
      else .invalid
    else match r with
      | 0 => .op .sgdt [table]
      | 1 => .op .sidt [table]
      | 2 => .op .lgdt [table]
      | 3 => .op .lidt [table]
      | 5 => if p = .rep then .foreignPlace 0 else .invalid
      | _ => .foreignPlace 0

/-- `MOV` between a general register and a control register; the byte always selects
registers. -/
def controlForm (load : Bool) (m : ModRm) : Form :=
  if m.reg = 1 ∨ 5 ≤ m.reg then .invalid
  else
    let c := named (.cr m.reg)
    let r := placeRegister .dword
    .op .mov (if load then [c, r] else [r, c])

/-- `MOV` between a general register and a debug register. -/
def debugForm (load : Bool) (m : ModRm) : Form :=
  let c := named (.dr m.reg)
  let r := placeRegister .dword
  .op .mov (if load then [c, r] else [r, c])

/-- The bit operations with an immediate index. -/
def bitGroup (v : Width) (m : ModRm) : Form :=
  let xs := [place v, immediate .byte]
  match m.reg with
  | 4 => .op .bt xs
  | 5 => .locked .bts xs
  | 6 => .locked .btr xs
  | 7 => .locked .btc xs
  | _ => .invalid

/-- The saves and restores of state, and the fences.  One of them cannot have the size byte
beside its mandatory one. -/
def stateForm (sized : Bool) (p : Mandatory) (m : ModRm) : Form :=
  let ok := match p, m.isRegister with
    | .none, false => true
    | .none, true => 5 ≤ m.reg
    | .operandSize, false => m.reg == 6 || m.reg == 7
    | .operandSize, true => m.reg == 6
    | .rep, false => (m.reg == 4 && !sized) || m.reg == 6
    | .rep, true => (m.reg == 4 && !sized) || m.reg == 5 || m.reg == 6
    | .repne, false => false
    | .repne, true => m.reg == 6
  if ok then .foreignPlace 0 else .invalid

/-- The wide comparison, which may be locked, and what shares its opcode. -/
def exchangeForm (p : Mandatory) (m : ModRm) : Form :=
  if m.isRegister then
    let ok := match p with
      | .none | .operandSize => m.reg == 6 || m.reg == 7
      | .rep => m.reg == 7
      | .repne => false
    if ok then .foreignOp else .invalid
  else if m.reg = 1 then .foreign true 0 true
  else
    let ok := match p with
      | .none => 3 ≤ m.reg
      | .operandSize | .rep => m.reg == 6
      | .repne => false
    if ok && m.reg != 2 then .foreignPlace 0 else .invalid

/-- Operations of the cryptographic unit, by opcode.  The first needs 32-bit addresses. -/
def cipherForm (b : Nat) (a : AddressSize) (p : Mandatory) (m : ModRm) : Form :=
  let ok := match p with
    | .rep => b == 0xA7 || m.reg != 0 || a == .dword
    | .none => b == 0xA7 && m.reg == 0
    | _ => false
  if m.isRegister && ok then .foreignOp else .invalid

/-- A place and, on success, an exchange with it: these may be locked. -/
def lockedForeign : Entry := .selected fun _ => .foreign true 0 true

def secondaryRow0 (v : Width) (p : Mandatory) (b : Nat) : Entry :=
  match b with
  | 0x0 => .selected fun m => if m.reg < 6 then .foreignPlace 0 else .invalid
  | 0x1 => .selected (systemForm v p)
  | 0x2 | 0x3 | 0xD => .foreignPlace 0
  | 0x5 | 0x6 | 0x7 | 0x8 | 0x9 | 0xB | 0xE => .foreignOp
  | _ => .invalid

def secondaryRow2 (p : Mandatory) (b : Nat) : Entry :=
  match b with
  | 0x20 => .selected (controlForm false)
  | 0x21 => .selected (debugForm false)
  | 0x22 => .selected (controlForm true)
  | 0x23 => .selected (debugForm true)
  | 0x24 | 0x25 | 0x26 | 0x27 => .invalid
  | _ => .variants (lowerVariants b) p

def secondaryRow7 (p : Mandatory) (b : Nat) : Entry :=
  match b with
  | 0x71 | 0x72 | 0x73 => .selected (vectorShiftForm b p)
  | 0x77 => .fixed (if p = .none then .foreignOp else .invalid)
  | 0x78 => .selected (bitFieldForm p)
  | _ => .variants (lowerVariants b) p

/-- An operation that `F3` turns into one outside the set. -/
def unlessRep (p : Mandatory) (e : Entry) : Entry := if p = .rep then .foreignPlace 0 else e

def secondaryRowA (v : Width) (a : AddressSize) (sized : Bool) (p : Mandatory) (b : Nat) : Entry :=
  match b with
  | 0xA0 => .op .push [named .fs]
  | 0xA1 => .op .pop [named .fs]
  | 0xA2 | 0xAA => .foreignOp
  | 0xA3 => .placed .bt [place v, selected v]
  | 0xA4 | 0xAC => .foreignPlace 1
  | 0xA5 | 0xAD => .foreignPlace 0
  | 0xA6 | 0xA7 => .selected (cipherForm b a p)
  | 0xA8 => .op .push [named .gs]
  | 0xA9 => .op .pop [named .gs]
  | 0xAB => .lockable .bts [place v, selected v]
  | 0xAE => .selected (stateForm sized p)
  | _ => .placed .imul [selected v, place v]

def loadFarEntry (v : Width) (o : Mnemonic) : Entry := .inMemory o [selected v, pointer v]

def secondaryRowB (v : Width) (p : Mandatory) (b : Nat) : Entry :=
  match b with
  | 0xB0 | 0xB1 => lockedForeign
  | 0xB2 => loadFarEntry v .lss
  | 0xB3 => .lockable .btr [place v, selected v]
  | 0xB4 => loadFarEntry v .lfs
  | 0xB5 => loadFarEntry v .lgs
  | 0xB6 => .placed .movzx [selected v, place .byte]
  | 0xB7 => .placed .movzx [selected v, place .word]
  | 0xB8 => if p = .rep then .foreignPlace 0 else .invalid
  | 0xB9 => .foreignPlace 0
  | 0xBA => .selected (bitGroup v)
  | 0xBB => .lockable .btc [place v, selected v]
  | 0xBC => unlessRep p (.placed .bsf [selected v, place v])
  | 0xBD => unlessRep p (.placed .bsr [selected v, place v])
  | 0xBE => .placed .movsx [selected v, place .byte]
  | _ => .placed .movsx [selected v, place .word]

def secondaryRowC (p : Mandatory) (b : Nat) : Entry :=
  match b with
  | 0xC0 | 0xC1 => lockedForeign
  | 0xC7 => .selected (exchangeForm p)
  | _ => if 0xC8 ≤ b then .foreignOp else .variants (upperVariants b) p

/-- The entry of the byte after `0F`, for operands of width `v` and addresses of size `a`. -/
def secondaryEntry (v : Width) (a : AddressSize) (q : PrefixSet) (op : UInt8) : Entry :=
  let p := Mandatory.ofPrefixes q
  let b := op.toNat
  match b / 16 with
  | 0x0 => secondaryRow0 v p b
  | 0x1 =>
    if b < 0x18 then .variants (lowerVariants b) p
    else .selected fun m =>
      if b = 0x1F ∧ m.reg = 0 then .op .nop [place v] else .foreignPlace 0
  | 0x2 => secondaryRow2 p b
  | 0x3 =>
    if b ≤ 0x35 then .foreignOp
    else if b = 0x37 then .fixed (if p = .none then .foreignOp else .invalid)
    else .invalid
  | 0x4 => .foreignPlace 0
  | 0x5 | 0x6 => .variants (lowerVariants b) p
  | 0x7 => secondaryRow7 p b
  | 0x8 => .op (jumpOp b) [distance v v]
  | 0x9 => .placed (setOp b) [place .byte]
  | 0xA => secondaryRowA v a q.operandSize p b
  | 0xB => secondaryRowB v p b
  | 0xC => secondaryRowC p b
  | _ => if b = 0xFF then .foreignPlace 0 else .variants (upperVariants b) p

end Ia32.Encoding
