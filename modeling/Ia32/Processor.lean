/-
  The cycle of the processor: a latched interrupt first, nothing while halted, otherwise one
  instruction.

  Main definitions:
  - `System.fetchBy`, `System.fetch` : the instruction at CS:EIP, by any disassembler or by the
    opcode maps
  - `System.resetCpu` : back to the power-on registers
  - `Exec.execute` : carry out an instruction and move on; after a fault EIP still points at it
  - `Exec.cycle`, `Exec.stepBy`, `Exec.step` : a cycle with a given instruction, or with the one
    that is fetched
  - `Exec.deliverFault` : enter the guest's handler of a fault

  Main statements:
  - `Exec.run_execute` : an instruction by what performing it has come to
-/
import Ia32.Encoding.Decode
import Ia32.Execute.Dispatch

namespace Ia32

/-- How a cycle ended: past the instruction, at a place that it chose, at a halt; or without an
instruction, because the processor was halted or because an interrupt was delivered. -/
inductive CycleExit
  | retired | branched | halted | idle
  | interrupted (v : UInt8)
  deriving DecidableEq, Repr

/-- The instruction at CS:EIP; only its first byte is held against the limit. -/
def System.fetchBy {δ : Type} (d : Disassembler) (s : System δ) : Except Fault Instruction := do
  let a ← s.cpu.codeAddress s.cpu.eip
  let bytes := s.ram.readBytes a.toUInt64 maxInstructionLength
  match Instruction.decodeBy d bytes s.cpu.segments.cs.descriptor.wide s.cpu.eip with
  | .ok i => return i
  | .error _ => throw .invalidOpcode

def System.fetch {δ : Type} (s : System δ) : Except Fault Instruction :=
  s.fetchBy Encoding.disassemble

/-- Back to the power-on registers; what is latched is dropped. -/
def System.resetCpu {δ : Type} (s : System δ) : System δ :=
  { s with cpu := Cpu.reset, io.latch := none }

/-- The offset behind an instruction of the given length at EIP. -/
def Cpu.nextOffset (c : Cpu) (length : UInt8) : UInt32 := (c.eip + length.toUInt32) &&& c.ipMask

namespace Exec

variable {δ : Type}

def execute (i : Instruction) : Exec δ CycleExit := do
  let next ← gets (·.cpu.nextOffset i.length)
  match ← i.perform next with
  | .next => do
    modifyCpu fun c => { c with eip := next }
    return .retired
  | .branch => return .branched
  | .halt => do
    modifyCpu fun c => { c with eip := next, halted := true }
    return .halted

/-- How an instruction ends, by what performing it has come to. -/
theorem run_execute (i : Instruction) (s : System δ) :
    (execute i).run s = match (i.perform (s.cpu.nextOffset i.length)).run s with
      | .ok .next t =>
          .ok .retired (t.modifyCpu fun c => { c with eip := s.cpu.nextOffset i.length })
      | .ok .branch t => .ok .branched t
      | .ok .halt t => .ok .halted
          (t.modifyCpu fun c => { c with eip := s.cpu.nextOffset i.length, halted := true })
      | .error f t => .error f t := by
  have hnext : (gets fun s : System δ => s.cpu.nextOffset i.length : Exec δ UInt32).run s =
      .ok (s.cpu.nextOffset i.length) s := rfl
  rw [execute, EStateM.run_bind, hnext]
  dsimp only
  rw [EStateM.run_bind]
  cases (i.perform (s.cpu.nextOffset i.length)).run s with
  | ok o t => cases o <;> rfl
  | error f t => rfl

theorem run_execute_of_next {i : Instruction} {s t : System δ}
    (h : (i.perform (s.cpu.nextOffset i.length)).run s = .ok .next t) : (execute i).run s =
      .ok .retired (t.modifyCpu fun c => { c with eip := s.cpu.nextOffset i.length }) := by
  rw [run_execute, h]

/-- Deliver the latched interrupt, if there is one, and only then empty the latch. -/
def servicePending : Exec δ (Option UInt8) := do
  let s ← get
  match s.io.latch with
  | none => return none
  | some v => do
    deliver v s.cpu.eip
    modify fun s => { s with io.latch := (Latch.acknowledge s.io.latch v).2 }
    return some v

/-- A cycle in which `run` is what a processor does that is neither interrupted nor halted. -/
def cycleWith (run : Exec δ CycleExit) : Exec δ CycleExit := do
  match ← servicePending with
  | some v => return .interrupted v
  | none => if (← gets (·.cpu.halted)) then return .idle else run

def cycle (i : Instruction) : Exec δ CycleExit := cycleWith (execute i)

def stepBy (d : Disassembler) : Exec δ CycleExit := cycleWith do
  let i ← ofExcept (← gets (System.fetchBy d))
  execute i

def step : Exec δ CycleExit := stepBy Encoding.disassemble

/-- Enter the guest's handler of a fault, with the faulting instruction as the place to return
to; tells whether the fault has a vector. -/
def deliverFault (f : Fault) : Exec δ Bool :=
  match f.vector? with
  | none => return false
  | some v => do
    deliver v (← gets (·.cpu.eip))
    return true

end Exec

end Ia32
