/-
  The faults that end a cycle, their texts and the vectors they are delivered through.

  Main definitions:
  - `Violation` : the rules behind general-protection faults
  - `Fault`, `Fault.message`, `Fault.vector?`
-/
import Ia32.Text.Hex

namespace Ia32

/-- The rule that a general-protection fault reports as broken. -/
inductive Violation
  | fetchLimit | nullSelector | descriptorType | localTable | tableLimit
  | farNull | farType | farLimit | nearLimit
  | vectorTableLimit | gateTableLimit | gateType
  deriving DecidableEq, Repr

def Violation.text : Violation → String
  | fetchLimit => "instruction fetch beyond CS limit"
  | nullSelector => "null selector"
  | descriptorType => "descriptor type not valid for segment"
  | localTable => "local descriptor tables are not supported"
  | tableLimit => "selector beyond GDT limit"
  | farNull => "far transfer through null selector"
  | farType => "far transfer target is not a code segment"
  | farLimit => "far transfer beyond CS limit"
  | nearLimit => "near transfer beyond CS limit"
  | vectorTableLimit => "vector beyond IVT limit"
  | gateTableLimit => "vector beyond IDT limit"
  | gateType => "unsupported IDT gate type"

/-- A fault raised while a cycle runs. -/
inductive Fault
  | divideError
  | invalidOpcode
  | segmentNotPresent (selector : UInt16)
  | generalProtection (selector : UInt16) (rule : Violation)
  | haltWithInterruptsDisabled
  deriving DecidableEq, Repr

namespace Fault

def message : Fault → String
  | divideError => "#DE divide error"
  | invalidOpcode => "#UD invalid opcode"
  | segmentNotPresent s => "#NP segment not present (selector " ++ Text.hex0x s.toNat 4 ++ ")"
  | generalProtection s r =>
    "#GP general protection fault (selector " ++ Text.hex0x s.toNat 4 ++ "): " ++ r.text
  | haltWithInterruptsDisabled => "HLT executed with interrupts disabled"

/-- The vector a guest handles the fault through; halting for good has none. -/
def vector? : Fault → Option UInt8
  | divideError => some 0
  | invalidOpcode => some 6
  | segmentNotPresent _ => some 11
  | generalProtection _ _ => some 13
  | haltWithInterruptsDisabled => none

end Fault

end Ia32
