/-
  The one-byte opcode map, with operands of width `v` where the operand size decides.

  Main definitions:
  - `primaryEntry` : the entry of an opcode byte
  - `binaryOp`, `shiftOp`, `jumpOp` : mnemonics chosen by the low bits of an opcode
  - `unaryGroup`, `stepGroup`, `moveGroup` : forms chosen by the register field
-/
import Ia32.Encoding.Form
import Ia32.Encoding.FloatMap

namespace Ia32.Encoding

open OperandForm

/-- The two-operand operations, in the order of their encoding. -/
def binaryOp (n : Nat) : Mnemonic :=
  match n with
  | 0 => .add
  | 1 => .or
  | 2 => .adc
  | 3 => .sbb
  | 4 => .and
  | 5 => .sub
  | 6 => .xor
  | _ => .cmp

/-- The shifts and rotates, in the order of their encoding. -/
def shiftOp (n : Nat) : Mnemonic :=
  match n with
  | 0 => .rol
  | 1 => .ror
  | 2 => .rcl
  | 3 => .rcr
  | 4 => .shl
  | 5 => .shr
  | 6 => .sal
  | _ => .sar

/-- The conditional jumps, in the order of their encoding. -/
def jumpOp (n : Nat) : Mnemonic :=
  match n % 16 with
  | 0x0 => .jo
  | 0x1 => .jno
  | 0x2 => .jb
  | 0x3 => .jae
  | 0x4 => .je
  | 0x5 => .jne
  | 0x6 => .jbe
  | 0x7 => .ja
  | 0x8 => .js
  | 0x9 => .jns
  | 0xA => .jp
  | 0xB => .jnp
  | 0xC => .jl
  | 0xD => .jge
  | 0xE => .jle
  | _ => .jg

/-- The mnemonics of a string operation, by the width of the elements. -/
def stringOp (w : Width) (b s d : Mnemonic) : Mnemonic :=
  match w with
  | .byte => b
  | .word => s
  | .dword => d

/-- Mnemonics that differ for words and doublewords. -/
def sizedOp (v : Width) (s d : Mnemonic) : Mnemonic := if v = .dword then d else s

def accumulator (w : Width) : OperandForm := coded 0 w

/-- The register that the low three bits of an opcode name. -/
def inOpcode (b : Nat) (w : Width) : OperandForm := coded b w

def segmentRegister (s : SegmentName) : OperandForm := named (segmentName s)

/-- A two-operand operation that stores its result unless it is the comparison. -/
def binaryForm (n : Nat) (xs : List OperandForm) : Form := .known (binaryOp n) xs (n != 7)

/-- The columns of the two-operand operations. -/
def binaryEntry (v : Width) (n column : Nat) : Entry :=
  match column with
  | 0 => .selected fun _ => binaryForm n [place .byte, selected .byte]
  | 1 => .selected fun _ => binaryForm n [place v, selected v]
  | 2 => .placed (binaryOp n) [selected .byte, place .byte]
  | 3 => .placed (binaryOp n) [selected v, place v]
  | 4 => .op (binaryOp n) [accumulator .byte, immediate .byte]
  | _ => .op (binaryOp n) [accumulator v, immediate v]

/-- Columns 6 and 7 of the rows below `40`. -/
def cornerEntry (b : Nat) : Entry :=
  match b with
  | 0x06 => .op .push [segmentRegister .es]
  | 0x07 => .op .pop [segmentRegister .es]
  | 0x0E => .op .push [segmentRegister .cs]
  | 0x16 => .op .push [segmentRegister .ss]
  | 0x17 => .op .pop [segmentRegister .ss]
  | 0x1E => .op .push [segmentRegister .ds]
  | 0x1F => .op .pop [segmentRegister .ds]
  | 0x27 => .op .daa []
  | 0x2F => .op .das []
  | 0x37 => .op .aaa []
  | 0x3F => .op .aas []
  | _ => .invalid

/-- Width of the operands of an opcode whose low bit tells bytes from the rest. -/
def lowBitWidth (v : Width) (b : Nat) : Width := if b % 2 = 0 then .byte else v

def row6 (v : Width) (b : Nat) : Entry :=
  let w := lowBitWidth v b
  match b % 16 with
  | 0x0 => .op (sizedOp v .pusha .pushad) []
  | 0x1 => .op (sizedOp v .popa .popad) []
  | 0x2 => .selected fun m => if m.isRegister then .vector .fourByte else .foreignPlace 0
  | 0x3 => .foreignPlace 0
  | 0x8 => .op .push [immediate v]
  | 0x9 => .placed .imul [selected v, place v, immediate v]
  | 0xA => .op .push [extended v]
  | 0xB => .placed .imul [selected v, place v, extended v]
  | 0xC | 0xD => .op (stringOp w .insb .insw .insd) [destination, coded 2 .word]
  | 0xE | 0xF => .op (stringOp w .outsb .outsw .outsd) [coded 2 .word, source]
  | _ => .invalid

def row8 (v : Width) (b : Nat) : Entry :=
  let w := lowBitWidth v b
  match b % 16 with
  | 0x0 | 0x2 => .selected fun m => binaryForm m.reg [place .byte, immediate .byte]
  | 0x1 => .selected fun m => binaryForm m.reg [place v, immediate v]
  | 0x3 => .selected fun m => binaryForm m.reg [place v, extended v]
  | 0x4 | 0x5 => .placed .test [place w, selected w]
  | 0x6 | 0x7 => .lockable .xchg [place w, selected w]
  | 0x8 | 0x9 => .placed .mov [place w, selected w]
  | 0xA | 0xB => .placed .mov [selected w, place w]
  | 0xC => .selected fun m =>
    match SegmentName.ofCode? m.reg with
    | some s => .op .mov [placeOfWord v, segmentRegister s]
    | none => .invalidPlace
  | 0xD => .inMemory .lea [selected v, address]
  | 0xE => .selected fun m =>
    match SegmentName.ofCode? m.reg with
    | some .cs | none => .invalidPlace
    | some s => .op .mov [segmentRegister s, placeOfWord v]
  | _ => .selected fun m =>
    if 8 ≤ m.byte.toNat % 32 then .vector .extended
    else if m.reg = 0 then .op .pop [place v]
    else .invalid

def row9 (v : Width) (p : Mandatory) (b : Nat) : Entry :=
  match b % 16 with
  | 0x0 => .op (if p = .rep then .pause else .nop) []
  | 0x8 => .op (sizedOp v .cbw .cwde) []
  | 0x9 => .op (sizedOp v .cwd .cdq) []
  | 0xA => .op .call [far v]
  | 0xB => .op .wait []
  | 0xC => .op (sizedOp v .pushf .pushfd) []
  | 0xD => .op (sizedOp v .popf .popfd) []
  | 0xE => .op .sahf []
  | 0xF => .op .lahf []
  | _ => .op .xchg [inOpcode b v, accumulator v]

def rowA (v : Width) (b : Nat) : Entry :=
  let w := lowBitWidth v b
  match b % 16 with
  | 0x0 | 0x1 => .op .mov [accumulator w, offset w]
  | 0x2 | 0x3 => .op .mov [offset w, accumulator w]
  | 0x4 | 0x5 => .op (stringOp w .movsb .movsw .movsd) [destination, source]
  | 0x6 | 0x7 => .op (stringOp w .cmpsb .cmpsw .cmpsd) [source, destination]
  | 0x8 | 0x9 => .op .test [accumulator w, immediate w]
  | 0xA | 0xB => .op (stringOp w .stosb .stosw .stosd) [destination, accumulator w]
  | 0xC | 0xD => .op (stringOp w .lodsb .lodsw .lodsd) [accumulator w, source]
  | _ => .op (stringOp w .scasb .scasw .scasd) [accumulator w, destination]

/-- `MOV` of an immediate; the last place of the group begins a transaction instead. -/
def moveGroup (w : Width) (m : ModRm) : Form :=
  if m.reg = 0 then .op .mov [place w, immediate w]
  else if m.byte == 0xF8 then .foreign false w.bytes false
  else .invalid

/-- A far pointer is loaded from memory; the register forms begin vector encodings. -/
def farLoad (v : Width) (o : Mnemonic) (kind : VectorKind) : Entry :=
  .selected fun m => if m.isRegister then .vector kind else .op o [selected v, pointer v]

def rowC (v : Width) (b : Nat) : Entry :=
  let w := lowBitWidth v b
  match b % 16 with
  | 0x0 | 0x1 => .selected fun m => .op (shiftOp m.reg) [place w, immediate .byte]
  | 0x2 => .op .ret [immediate .word]
  | 0x3 => .op .ret []
  | 0x4 => farLoad v .les .threeByte
  | 0x5 => farLoad v .lds .twoByte
  | 0x6 | 0x7 => .selected (moveGroup w)
  | 0x8 => .op .enter [immediate .word, second]
  | 0x9 => .op .leave []
  | 0xA => .op .retf [immediate .word]
  | 0xB => .op .retf []
  | 0xC => .op .int3 []
  | 0xD => .op .int [immediate .byte]
  | 0xE => .op .into []
  | _ => .op (sizedOp v .iret .iretd) []

def rowD (v : Width) (b : Nat) : Entry :=
  let w := lowBitWidth v b
  match b % 16 with
  | 0x0 | 0x1 => .selected fun m => .op (shiftOp m.reg) [place w, one]
  | 0x2 | 0x3 => .selected fun m => .op (shiftOp m.reg) [place w, coded 1 .byte]
  | 0x4 => .op .aam [immediate .byte]
  | 0x5 => .op .aad [immediate .byte]
  | 0x6 => .foreignOp
  | 0x7 => .op .xlatb [translation]
  | _ => .selected (floatForm b)

def rowE (v : Width) (a : AddressSize) (b : Nat) : Entry :=
  let w := lowBitWidth v b
  let portNumber := coded 2 .word
  match b % 16 with
  | 0x0 => .op .loopne [distance .byte v]
  | 0x1 => .op .loope [distance .byte v]
  | 0x2 => .op .loop [distance .byte v]
  | 0x3 => .op (if a = .dword then .jecxz else .jcxz) [distance .byte v]
  | 0x4 | 0x5 => .op .input [accumulator w, immediate .byte]
  | 0x6 | 0x7 => .op .output [immediate .byte, accumulator w]
  | 0x8 => .op .call [distance v v]
  | 0x9 => .op .jmp [distance v v]
  | 0xA => .op .jmp [far v]
  | 0xB => .op .jmp [distance .byte v]
  | 0xC | 0xD => .op .input [accumulator w, portNumber]
  | _ => .op .output [portNumber, accumulator w]

def unaryGroup (w : Width) (m : ModRm) : Form :=
  match m.reg with
  | 0 | 1 => .op .test [place w, immediate w]
  | 2 => .locked .not [place w]
  | 3 => .locked .neg [place w]
  | 4 => .op .mul [place w]
  | 5 => .op .imul [place w]
  | 6 => .op .div [place w]
  | _ => .op .idiv [place w]

/-- A far target is taken from memory only. -/
def farTarget (w : Width) (m : ModRm) (o : Mnemonic) : Form :=
  if m.isRegister then .invalid else .op o [pointer w]

def stepGroup (w : Width) (m : ModRm) : Form :=
  match m.reg with
  | 0 => .locked .inc [place w]
  | 1 => .locked .dec [place w]
  | 2 => .op .call [place w]
  | 3 => farTarget w m .call
  | 4 => .op .jmp [place w]
  | 5 => farTarget w m .jmp
  | 6 => .op .push [place w]
  | _ => .invalid

/-- On bytes only the first two operations of the group exist. -/
def byteStepGroup (m : ModRm) : Form :=
  if m.reg ≤ 1 then stepGroup .byte m else .invalid

def rowF (v : Width) (b : Nat) : Entry :=
  match b % 16 with
  | 0x1 => .foreignOp
  | 0x4 => .op .hlt []
  | 0x5 => .op .cmc []
  | 0x6 => .selected (unaryGroup .byte)
  | 0x7 => .selected (unaryGroup v)
  | 0x8 => .op .clc []
  | 0x9 => .op .stc []
  | 0xA => .op .cli []
  | 0xB => .op .sti []
  | 0xC => .op .cld []
  | 0xD => .op .std []
  | 0xE => .selected byteStepGroup
  | 0xF => .selected (stepGroup v)
  | _ => .invalid

/-- The entry of an opcode byte, for operands of width `v` and addresses of size `a`. -/
def primaryEntry (v : Width) (a : AddressSize) (p : Mandatory) (op : UInt8) : Entry :=
  let b := op.toNat
  match b / 16 with
  | 0x0 | 0x1 | 0x2 | 0x3 =>
    if b % 8 < 6 then binaryEntry v (b / 8) (b % 8) else cornerEntry b
  | 0x4 => .op (if b % 16 < 8 then .inc else .dec) [inOpcode b v]
  | 0x5 => .op (if b % 16 < 8 then .push else .pop) [inOpcode b v]
  | 0x6 => row6 v b
  | 0x7 => .op (jumpOp b) [distance .byte v]
  | 0x8 => row8 v b
  | 0x9 => row9 v p b
  | 0xA => rowA v b
  | 0xB =>
    let w := if b % 16 < 8 then .byte else v
    .op .mov [inOpcode b w, immediate w]
  | 0xC => rowC v b
  | 0xD => rowD v b
  | 0xE => rowE v a b
  | _ => rowF v b

end Ia32.Encoding
