/-
  The operations of the integer instruction set, grouped by the unit that performs them.

  Main definitions:
  - `ArithmeticOp` … `SystemOp` : the operations of each unit
  - `Operation` : any operation; `Operation.unit` is the unit that performs it
-/
import Ia32.Alu.Shift
import Ia32.Flags
import Ia32.Register

namespace Ia32

inductive ArithmeticOp
  | add | adc | sub | sbb | cmp | inc | dec | neg | mul | imul | div | idiv | cbw | cwd
  deriving DecidableEq, Repr

inductive DecimalOp
  | daa | das | aaa | aas | aam | aad
  deriving DecidableEq, Repr

inductive LogicOp
  | and | or | xor | not | test
  deriving DecidableEq, Repr

inductive ShiftRotateOp
  | shift (k : Alu.Shift)
  | rotate (k : Alu.Rotate)
  deriving DecidableEq, Repr

/-- What becomes of a bit after it has been copied to the carry flag. -/
inductive BitUpdate
  | keep | set | reset | complement
  deriving DecidableEq, Repr

inductive BitByteOp
  | setcc (c : Condition)
  | bitTest (u : BitUpdate)
  | scanForward | scanReverse
  deriving DecidableEq, Repr

/-- `loadFar s` loads a far pointer into the segment register `s` and a general register. -/
inductive TransferOp
  | mov | movzx | movsx | xchg | lea | push | pop | pusha | popa | pushf | popf | lahf | sahf
  | loadFar (s : SegmentName)
  | xlat
  deriving DecidableEq, Repr

/-- Which zero flag, if any, a counting loop also asks for. -/
inductive LoopTest
  | always | whileEqual | whileNotEqual
  deriving DecidableEq, Repr

inductive BranchOp
  | jmp | jmpFar
  | jcc (c : Condition)
  | jcxz
  | loop (t : LoopTest)
  | call | callFar | ret | retFar | int | int3 | into | iret | enter | leave
  deriving DecidableEq, Repr

inductive StringOp
  | movs | cmps | stos | lods | scas | ins | outs
  deriving DecidableEq, Repr

inductive PortOp
  | input | output
  deriving DecidableEq, Repr

inductive FlagOp
  | clc | stc | cmc | cld | std | cli | sti
  deriving DecidableEq, Repr

inductive SystemOp
  | hlt | nop | lgdt | lidt | sgdt | sidt | lmsw | smsw
  deriving DecidableEq, Repr

/-- The units that perform operations. -/
inductive ExecutionUnit
  | branch | arithmetic | decimal | logic | shiftRotate | bitByte | transfer | string | port
  | flag | system
  deriving DecidableEq, Repr

inductive Operation
  | branch (o : BranchOp)
  | arithmetic (o : ArithmeticOp)
  | decimal (o : DecimalOp)
  | logic (o : LogicOp)
  | shiftRotate (o : ShiftRotateOp)
  | bitByte (o : BitByteOp)
  | transfer (o : TransferOp)
  | string (o : StringOp)
  | port (o : PortOp)
  | flag (o : FlagOp)
  | system (o : SystemOp)
  deriving DecidableEq, Repr

def Operation.unit : Operation → ExecutionUnit
  | branch _ => .branch
  | arithmetic _ => .arithmetic
  | decimal _ => .decimal
  | logic _ => .logic
  | shiftRotate _ => .shiftRotate
  | bitByte _ => .bitByte
  | transfer _ => .transfer
  | string _ => .string
  | port _ => .port
  | flag _ => .flag
  | system _ => .system

end Ia32
