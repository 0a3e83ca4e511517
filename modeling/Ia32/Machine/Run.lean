/-
  Running a machine for a number of cycles.

  Main definitions:
  - `Machine.step` : one cycle
  - `Machine.turn` : one cycle with its fault, if any, treated by the policy
  - `Machine.run` : turns until one ends the run, a breakpoint is reached, the gate closes, or
    the budget is used up
-/
import Ia32.Machine.Basic

namespace Ia32

/-- Why a run ended. -/
inductive RunExit
  | completed | halted | stopped
  | breakpoint (addr : UInt32)
  | exception (f : Fault)
  deriving DecidableEq, Repr

/-- How a run ended, and how many cycles it completed. -/
structure RunReport where
  exit : RunExit
  executed : Nat
  deriving DecidableEq, Repr

/-- What a turn means for the run: it counts and the run goes on, or the run ends and the turn
counts or not. -/
inductive Turn
  | proceed
  | finish (e : RunExit) (counted : Bool)
  deriving DecidableEq, Repr

/-- The meaning of a cycle that did not fault. -/
def CycleExit.turn : CycleExit → Turn
  | retired | branched | interrupted _ => .proceed
  | halted => .finish .halted true
  | idle => .finish .halted false

/-- Let the guest deal with a fault, if the policy says so and the fault has a vector; otherwise
a fault remains. -/
def Exec.absorb {δ : Type} (p : FaultPolicy) (f : Fault) : Exec δ Unit :=
  match p with
  | .stop => throw f
  | .deliver => do
    if (← deliverFault f) then return
    else throw f

namespace Machine

variable {δ : Type}

def step (m : Machine δ) : Except Fault CycleExit × Machine δ :=
  match Exec.step.run m.system with
  | .ok e s => (.ok e, { m with system := s })
  | .error f s => (.error f, { m with system := s })

def turn (m : Machine δ) : Turn × Machine δ :=
  match m.step with
  | (.ok e, m) => (e.turn, m)
  | (.error f, m) =>
    match (Exec.absorb m.config.faultPolicy f).run m.system with
    | .ok _ s => (.proceed, { m with system := s })
    | .error f s => (.finish (.exception f) false, { m with system := s })

/-- A run of at most `n` further cycles after `k` of them; only the very first cycle may start at
a breakpoint. -/
def runFrom (first : Bool) (k : Nat) : Nat → Machine δ → RunReport × Machine δ
  | 0, m => (⟨.completed, k⟩, m)
  | n + 1, m =>
    if !m.gateOpen then (⟨.stopped, k⟩, m)
    else if !first && m.atBreakpoint then (⟨.breakpoint m.currentAddress, k⟩, m)
    else match m.turn with
      | (.proceed, m) => runFrom false (k + 1) n m
      | (.finish e counted, m) => (⟨e, k + counted.toNat⟩, m)

/-- Run for at most `n` cycles. -/
def run (m : Machine δ) (n : Nat) : RunReport × Machine δ := runFrom true 0 n m

end Machine

end Ia32
