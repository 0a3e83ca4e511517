/-
  What a disassembler gives for the bytes of an instruction.

  To tell instructions apart and to take their operands off the bytes is the business of a
  disassembler.  None is fixed here: decoding takes one as a parameter, and starts from the
  mnemonic and the operands that it gives.

  Main definitions:
  - `Mnemonic`, `RegisterName` : names that a disassembler uses
  - `RawOperand`, `RawPlace` : operands, by the way they are encoded
  - `RawInstruction` : a mnemonic with its operands
  - `RawInstruction.relocate` : the instruction with near targets somewhere else
  - `Disassembler` : gives the instruction in front of a byte string, with its length
-/
import Ia32.Instruction

namespace Ia32

/-- The mnemonics that are told apart; all others are `other`. -/
inductive Mnemonic
  | add | adc | sub | sbb | cmp | inc | dec | neg | mul | imul | div | idiv
  | cbw | cwde | cwd | cdq
  | daa | das | aaa | aas | aam | aad
  | and | or | xor | not | test
  | shl | sal | shr | sar | rol | ror | rcl | rcr
  | seto | setno | setb | setae | sete | setne | setbe | seta
  | sets | setns | setp | setnp | setl | setge | setle | setg
  | bt | bts | btr | btc | bsf | bsr
  | mov | movzx | movsx | xchg | lea | push | pop
  | pusha | pushad | popa | popad | pushf | pushfd | popf | popfd | lahf | sahf
  | lds | les | lfs | lgs | lss | xlatb
  | jmp | call
  | jo | jno | jb | jae | je | jne | jbe | ja | js | jns | jp | jnp | jl | jge | jle | jg
  | jcxz | jecxz | loop | loope | loopne
  | ret | retf | int | int3 | into | iret | iretd | enter | leave
  | movsb | movsw | movsd | cmpsb | cmpsw | cmpsd | stosb | stosw | stosd
  | lodsb | lodsw | lodsd | scasb | scasw | scasd | insb | insw | insd | outsb | outsw | outsd
  | input | output
  | clc | stc | cmc | cld | std | cli | sti
  | hlt | nop | wait | pause | lgdt | lidt | sgdt | sidt | lmsw | smsw
  | other
  deriving DecidableEq, Repr

/-- The registers by name, `absent` where an address has none.  Control and debug registers are
numbered; what belongs to no file of the integer instruction set is `other`. -/
inductive RegisterName
  | absent
  | al | cl | dl | bl | ah | ch | dh | bh
  | ax | cx | dx | bx | sp | bp | si | di
  | eax | ecx | edx | ebx | esp | ebp | esi | edi
  | es | cs | ss | ds | fs | gs
  | cr (n : Nat)
  | dr (n : Nat)
  | other
  deriving DecidableEq, Repr

/-- What is at a place in memory: some bytes, or a far pointer with an offset of 16 or 32 bits. -/
inductive PlaceSize
  | bytes (n : Nat)
  | farPointer16 | farPointer32
  deriving DecidableEq, Repr

/-- A far pointer is an offset with a selector behind it. -/
def PlaceSize.count : PlaceSize → Nat
  | bytes n => n
  | farPointer16 => 4
  | farPointer32 => 6

/-- The place `[base + index * scale + displacement]`. -/
structure RawPlace where
  base : RegisterName := .absent
  index : RegisterName := .absent
  scale : UInt8 := 1
  displacement : UInt32
  size : PlaceSize
  deriving DecidableEq, Repr

/-- An operand, by the way it is encoded. -/
inductive RawOperand
  | register (r : RegisterName)
  /-- A near target in the code segment. -/
  | near16 (target : UInt16)
  | near32 (target : UInt32)
  /-- A far target. -/
  | far16 (offset selector : UInt16)
  | far32 (offset : UInt32) (selector : UInt16)
  | immediate8 (v : UInt8)
  /-- An immediate byte behind another immediate. -/
  | second8 (v : UInt8)
  | immediate16 (v : UInt16)
  | immediate32 (v : UInt32)
  /-- An immediate byte, extended with its sign. -/
  | extended16 (v : UInt16)
  | extended32 (v : UInt32)
  | memory (p : RawPlace)
  /-- The elements of strings, at SI and at DI. -/
  | source (a : AddressSize)
  | destination (a : AddressSize)
  | other
  deriving DecidableEq, Repr

/-- The operand with a near target moved by `a`, modulo its size. -/
def RawOperand.relocate (a : UInt32) : RawOperand → RawOperand
  | near16 t => near16 (a.toUInt16 + t)
  | near32 t => near32 (a + t)
  | x => x

structure RawInstruction where
  mnemonic : Mnemonic
  operands : List RawOperand
  deriving DecidableEq, Repr

/-- The instruction with its near targets moved by `a`. -/
def RawInstruction.relocate (a : UInt32) (r : RawInstruction) : RawInstruction :=
  { r with operands := r.operands.map (·.relocate a) }

/-- Why there is no instruction: its bytes end too early, or they stand for none. -/
inductive Defect
  | ended | invalid
  deriving DecidableEq, Repr

/-- A disassembler, for code segments that are 32 bits wide or not.  It gives the instruction that
a byte string at offset `ip` begins with, and the number of its bytes. -/
abbrev Disassembler :=
  (wide : Bool) → (bytes : List UInt8) → (ip : UInt32) → Except Defect (RawInstruction × Nat)

end Ia32
