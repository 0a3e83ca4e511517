/-
  How opcodes stand for instructions: the forms of operands, and the choice that the byte after
  the opcode makes.

  Main definitions:
  - `ModRm` : the byte that selects a register and a register or a place in memory
  - `OperandForm` : where the encoding keeps an operand
  - `Form` : what an opcode stands for
  - `VectorKind` : the vector encodings, of which opcodes of the older maps are the first byte
  - `Entry` : an opcode map's entry
-/
import Ia32.Encoding.Reader

namespace Ia32.Encoding

/-- The fields of the byte after an opcode. -/
structure ModRm where
  byte : UInt8

namespace ModRm

def mod (m : ModRm) : Nat := m.byte.toNat / 64
def reg (m : ModRm) : Nat := m.byte.toNat / 8 % 8
def rm (m : ModRm) : Nat := m.byte.toNat % 8

/-- The byte selects two registers and no memory. -/
def isRegister (m : ModRm) : Bool := m.mod == 3

end ModRm

/-- The general register of width `w` with number `n`, modulo eight. -/
def registerName (n : Nat) (w : Width) : RegisterName :=
  match w with
  | .byte => match n % 8 with
    | 0 => .al | 1 => .cl | 2 => .dl | 3 => .bl | 4 => .ah | 5 => .ch | 6 => .dh | _ => .bh
  | .word => match n % 8 with
    | 0 => .ax | 1 => .cx | 2 => .dx | 3 => .bx | 4 => .sp | 5 => .bp | 6 => .si | _ => .di
  | .dword => match n % 8 with
    | 0 => .eax | 1 => .ecx | 2 => .edx | 3 => .ebx | 4 => .esp | 5 => .ebp | 6 => .esi
    | _ => .edi

def segmentName : SegmentName → RegisterName
  | .es => .es | .cs => .cs | .ss => .ss | .ds => .ds | .fs => .fs | .gs => .gs

inductive OperandForm
  /-- A general register or memory of width `w`. -/
  | place (w : Width)
  /-- A general register of width `w` or a word in memory. -/
  | placeOfWord (w : Width)
  /-- A general register selected like a place, but never memory. -/
  | placeRegister (w : Width)
  /-- The address of a place in memory, whatever is there. -/
  | address
  /-- A far pointer in memory with an offset of width `w`. -/
  | pointer (w : Width)
  /-- The base and the limit of a table, in memory. -/
  | table
  /-- The general register that the register field selects. -/
  | selected (w : Width)
  /-- The general register with a fixed number. -/
  | coded (n : Nat) (w : Width)
  /-- A register of another file. -/
  | named (r : RegisterName)
  /-- Memory at an absolute offset. -/
  | offset (w : Width)
  /-- The byte of a table that AL selects. -/
  | translation
  /-- The elements of strings. -/
  | source
  | destination
  /-- An immediate of width `w`. -/
  | immediate (w : Width)
  /-- An immediate byte behind another immediate. -/
  | second
  /-- An immediate byte, extended with its sign to width `w`. -/
  | extended (w : Width)
  /-- The constant one. -/
  | one
  /-- A branch distance of width `d`, for targets of width `w`. -/
  | distance (d w : Width)
  /-- A far target: an offset of width `w` and a selector. -/
  | far (w : Width)

/-- The operand is a place, which needs the bytes of an address if it is memory. -/
def OperandForm.isPlace : OperandForm → Bool
  | place _ | placeOfWord _ | address | pointer _ | table => true
  | _ => false

/-- The vector encodings, which begin with different bytes. -/
inductive VectorKind
  | twoByte | threeByte | fourByte | extended
  deriving DecidableEq, Repr

/-- What an opcode stands for. -/
inductive Form
  /-- A mnemonic with operands.  `lockable` allows the lock byte if the first operand is in
  memory. -/
  | known (m : Mnemonic) (operands : List OperandForm) (lockable : Bool)
  /-- An instruction outside the set, with an address if `addressed`, and `tail` bytes. -/
  | foreign (addressed : Bool) (tail : Nat) (lockable : Bool)
  /-- No instruction; an address, if `addressed`, and `tail` bytes are looked for. -/
  | refused (addressed : Bool) (tail : Nat)
  /-- The byte is part of a vector encoding. -/
  | vector (kind : VectorKind)

/-- An opcode map's entry: `selected` reads the byte after the opcode first. -/
inductive Entry
  | fixed (f : Form)
  | selected (f : ModRm → Form)

/-- The byte among the legacy ones that selects a variant of a vector opcode. -/
inductive Mandatory
  | none | operandSize | rep | repne
  deriving DecidableEq, Repr

namespace Mandatory

def ofPrefixes (p : PrefixSet) : Mandatory :=
  match p.rep with
  | some .rep => rep
  | some .repne => repne
  | .none => if p.operandSize then operandSize else none

/-- The mandatory byte that two bits of a vector encoding stand for. -/
def ofField (p : Nat) : Mandatory :=
  match p % 4 with
  | 0 => none
  | 1 => operandSize
  | 2 => rep
  | _ => repne

/-- The variants for packed elements of either size. -/
def packed : List Mandatory := [none, operandSize]

/-- The variants for single elements of either size. -/
def scalar : List Mandatory := [rep, repne]

def all : List Mandatory := [none, operandSize, rep, repne]

end Mandatory

/-! ## Shorthands for the opcode maps -/

namespace Form

def op (m : Mnemonic) (xs : List OperandForm) : Form := known m xs false

/-- The same, with the lock byte allowed. -/
def locked (m : Mnemonic) (xs : List OperandForm) : Form := known m xs true

def invalid : Form := refused false 0

/-- No instruction, but `n` further bytes are looked for. -/
def lacking (n : Nat) : Form := refused false n

/-- No instruction, but an address is looked for. -/
def invalidPlace : Form := refused true 0

/-- An instruction outside the set that takes no further bytes. -/
def foreignOp : Form := foreign false 0 false

/-- An instruction outside the set that takes an address and `n` further bytes. -/
def foreignPlace (n : Nat) : Form := foreign true n false

end Form

namespace Entry

def op (m : Mnemonic) (xs : List OperandForm) : Entry := fixed (.op m xs)

/-- A mnemonic whose operands include a place. -/
def placed (m : Mnemonic) (xs : List OperandForm) : Entry := selected fun _ => .op m xs

/-- The same, with the lock byte allowed. -/
def lockable (m : Mnemonic) (xs : List OperandForm) : Entry := selected fun _ => .locked m xs

/-- A mnemonic whose place is memory. -/
def inMemory (m : Mnemonic) (xs : List OperandForm) : Entry :=
  selected fun n => if n.isRegister then .invalid else .op m xs

/-- No instruction; the byte after the opcode is looked for. -/
def invalid : Entry := selected fun _ => .invalid

def foreignOp : Entry := fixed .foreignOp

def foreignPlace (n : Nat) : Entry := selected fun _ => .foreignPlace n

end Entry

end Ia32.Encoding
