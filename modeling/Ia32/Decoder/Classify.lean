/-
  The operation that a mnemonic stands for.

  Main definitions:
  - `RawInstruction.isFarPointer`, `RawInstruction.isStringForm` : what operands tell of a mnemonic
    with several meanings
  - `Mnemonic.operation?` : the operation, if it belongs to the integer instruction set
  - `Mnemonic.elementWidth` : the width of the elements of a string
-/
import Ia32.Decoder.Disassembly

namespace Ia32

namespace RawOperand

/-- The operand is a far target, or the place of one in memory. -/
def isFarPointer : RawOperand → Bool
  | far16 _ _ | far32 _ _ => true
  | memory p => p.size == .farPointer16 || p.size == .farPointer32
  | _ => false

/-- The operand is an element of a string. -/
def isElement : RawOperand → Bool
  | source _ | destination _ => true
  | _ => false

end RawOperand

namespace RawInstruction

def isFarPointer (r : RawInstruction) : Bool := r.operands.head?.any (·.isFarPointer)

def isStringForm (r : RawInstruction) : Bool := r.operands.any (·.isElement)

end RawInstruction

namespace Mnemonic

/-- The operation, if it is one that is carried out.  Far targets tell two kinds of jumps and calls
apart, and elements of strings two operations of vector units. -/
def operation? (far string : Bool) : Mnemonic → Option Operation
  | add => some (.arithmetic .add)
  | adc => some (.arithmetic .adc)
  | sub => some (.arithmetic .sub)
  | sbb => some (.arithmetic .sbb)
  | cmp => some (.arithmetic .cmp)
  | inc => some (.arithmetic .inc)
  | dec => some (.arithmetic .dec)
  | neg => some (.arithmetic .neg)
  | mul => some (.arithmetic .mul)
  | imul => some (.arithmetic .imul)
  | div => some (.arithmetic .div)
  | idiv => some (.arithmetic .idiv)
  | cbw | cwde => some (.arithmetic .cbw)
  | cwd | cdq => some (.arithmetic .cwd)
  | daa => some (.decimal .daa)
  | das => some (.decimal .das)
  | aaa => some (.decimal .aaa)
  | aas => some (.decimal .aas)
  | aam => some (.decimal .aam)
  | aad => some (.decimal .aad)
  | and => some (.logic .and)
  | or => some (.logic .or)
  | xor => some (.logic .xor)
  | not => some (.logic .not)
  | test => some (.logic .test)
  | shl | sal => some (.shiftRotate (.shift .left))
  | shr => some (.shiftRotate (.shift .right))
  | sar => some (.shiftRotate (.shift .signedRight))
  | rol => some (.shiftRotate (.rotate .left))
  | ror => some (.shiftRotate (.rotate .right))
  | rcl => some (.shiftRotate (.rotate .carryLeft))
  | rcr => some (.shiftRotate (.rotate .carryRight))
  | seto => some (.bitByte (.setcc .overflow))
  | setno => some (.bitByte (.setcc .notOverflow))
  | setb => some (.bitByte (.setcc .below))
  | setae => some (.bitByte (.setcc .aboveEqual))
  | sete => some (.bitByte (.setcc .equal))
  | setne => some (.bitByte (.setcc .notEqual))
  | setbe => some (.bitByte (.setcc .belowEqual))
  | seta => some (.bitByte (.setcc .above))
  | sets => some (.bitByte (.setcc .sign))
  | setns => some (.bitByte (.setcc .notSign))
  | setp => some (.bitByte (.setcc .parity))
  | setnp => some (.bitByte (.setcc .notParity))
  | setl => some (.bitByte (.setcc .less))
  | setge => some (.bitByte (.setcc .greaterEqual))
  | setle => some (.bitByte (.setcc .lessEqual))
  | setg => some (.bitByte (.setcc .greater))
  | bt => some (.bitByte (.bitTest .keep))
  | bts => some (.bitByte (.bitTest .set))
  | btr => some (.bitByte (.bitTest .reset))
  | btc => some (.bitByte (.bitTest .complement))
  | bsf => some (.bitByte .scanForward)
  | bsr => some (.bitByte .scanReverse)
  | mov => some (.transfer .mov)
  | movzx => some (.transfer .movzx)
  | movsx => some (.transfer .movsx)
  | xchg => some (.transfer .xchg)
  | lea => some (.transfer .lea)
  | push => some (.transfer .push)
  | pop => some (.transfer .pop)
  | pusha | pushad => some (.transfer .pusha)
  | popa | popad => some (.transfer .popa)
  | pushf | pushfd => some (.transfer .pushf)
  | popf | popfd => some (.transfer .popf)
  | lahf => some (.transfer .lahf)
  | sahf => some (.transfer .sahf)
  | lds => some (.transfer (.loadFar .ds))
  | les => some (.transfer (.loadFar .es))
  | lfs => some (.transfer (.loadFar .fs))
  | lgs => some (.transfer (.loadFar .gs))
  | lss => some (.transfer (.loadFar .ss))
  | xlatb => some (.transfer .xlat)
  | jmp => some (.branch (if far then .jmpFar else .jmp))
  | call => some (.branch (if far then .callFar else .call))
  | jo => some (.branch (.jcc .overflow))
  | jno => some (.branch (.jcc .notOverflow))
  | jb => some (.branch (.jcc .below))
  | jae => some (.branch (.jcc .aboveEqual))
  | je => some (.branch (.jcc .equal))
  | jne => some (.branch (.jcc .notEqual))
  | jbe => some (.branch (.jcc .belowEqual))
  | ja => some (.branch (.jcc .above))
  | js => some (.branch (.jcc .sign))
  | jns => some (.branch (.jcc .notSign))
  | jp => some (.branch (.jcc .parity))
  | jnp => some (.branch (.jcc .notParity))
  | jl => some (.branch (.jcc .less))
  | jge => some (.branch (.jcc .greaterEqual))
  | jle => some (.branch (.jcc .lessEqual))
  | jg => some (.branch (.jcc .greater))
  | jcxz | jecxz => some (.branch .jcxz)
  | loop => some (.branch (.loop .always))
  | loope => some (.branch (.loop .whileEqual))
  | loopne => some (.branch (.loop .whileNotEqual))
  | ret => some (.branch .ret)
  | retf => some (.branch .retFar)
  | int => some (.branch .int)
  | int3 => some (.branch .int3)
  | into => some (.branch .into)
  | iret | iretd => some (.branch .iret)
  | enter => some (.branch .enter)
  | leave => some (.branch .leave)
  | movsb | movsw | movsd => if string then some (.string .movs) else none
  | cmpsb | cmpsw | cmpsd => if string then some (.string .cmps) else none
  | stosb | stosw | stosd => some (.string .stos)
  | lodsb | lodsw | lodsd => some (.string .lods)
  | scasb | scasw | scasd => some (.string .scas)
  | insb | insw | insd => some (.string .ins)
  | outsb | outsw | outsd => some (.string .outs)
  | input => some (.port .input)
  | output => some (.port .output)
  | clc => some (.flag .clc)
  | stc => some (.flag .stc)
  | cmc => some (.flag .cmc)
  | cld => some (.flag .cld)
  | std => some (.flag .std)
  | cli => some (.flag .cli)
  | sti => some (.flag .sti)
  | hlt => some (.system .hlt)
  | nop | wait | pause => some (.system .nop)
  | lgdt => some (.system .lgdt)
  | lidt => some (.system .lidt)
  | sgdt => some (.system .sgdt)
  | sidt => some (.system .sidt)
  | lmsw => some (.system .lmsw)
  | smsw => some (.system .smsw)
  | other => none

/-- The width of the elements of a string, which the mnemonics of string operations tell. -/
def elementWidth : Mnemonic → Width
  | movsb | cmpsb | stosb | lodsb | scasb | insb | outsb => .byte
  | movsw | cmpsw | stosw | lodsw | scasw | insw | outsw => .word
  | _ => .dword

end Mnemonic

/-- The operation that an instruction stands for. -/
def RawInstruction.operation? (r : RawInstruction) : Option Operation :=
  r.mnemonic.operation? r.isFarPointer r.isStringForm

end Ia32
