/-
  Halting: a processor stops at a halt instruction with interrupts enabled, and goes on when it
  enters a handler; in between, nothing happens.

  Main definitions:
  - `System.Halts`, `System.Wakes` : the two ways in which a processor stops and goes on
  - `System.HaltChange` : whether the processor is halted changes in these ways only

  Main statements:
  - `Cpu.kept_interruptible` : a halted processor has interrupts enabled
  - `Machine.haltChange_step`, `Machine.haltChange_turn` : what cycles and turns do about it
  - `Machine.step_of_idle`, `Machine.run_of_idle` : a halted machine with nothing latched
  - `Machine.halting`
-/
import Ia32.Proofs.Fetch
import Ia32.Proofs.Reachable
import Mathlib.Logic.Function.Iterate

namespace Ia32

variable {δ : Type}

open Exec

/-! ## Stopping and going on -/

/-- Faults neither stop the processor nor make it go on. -/
theorem FaultResidue.halted {s t : System δ} (h : FaultResidue s t) :
    t.cpu.halted = s.cpu.halted := by
  rcases h.cpu with e | e
  · rw [e]
  · rw [e]; rfl

namespace System

/-- A halt instruction is carried out in `s`, with interrupts enabled, and leads to `t`. -/
def Halts (s t : System δ) : Prop :=
  ∃ i, s.Begins i ∧ i.operation = .system .hlt ∧ s.cpu.flags.interrupt = true ∧
    (execute i).run s = .ok .halted t

/-- The handler of the latched interrupt is entered, or that of the fault which its delivery
raises. -/
inductive Wakes (s : System δ) : System δ → Prop
  | interrupted {v : UInt8} {w : System δ} (latch : s.io.latch = some v)
      (delivered : (deliver v s.cpu.eip).run s = .ok () w) : Wakes s { w with io.latch := none }
  | faulted {v v' : UInt8} {f : Fault} {u w : System δ} (latch : s.io.latch = some v)
      (refused : (deliver v s.cpu.eip).run s = .error f u) (vector : f.vector? = some v')
      (delivered : (deliver v' u.cpu.eip).run u = .ok () w) : Wakes s w

/-- If the processor is halted in one of `s` and `t` only, it has stopped or gone on. -/
structure HaltChange (s t : System δ) : Prop where
  halts : s.cpu.halted = false → t.cpu.halted = true → s.Halts t
  wakes : s.cpu.halted = true → t.cpu.halted = false → s.Wakes t

variable {s t : System δ} {e : CycleExit} {f : Fault}

theorem HaltChange.of_eq (h : t.cpu.halted = s.cpu.halted) : s.HaltChange t where
  halts hs ht := by rw [h, hs] at ht; cases ht
  wakes hs ht := by rw [h, hs] at ht; cases ht

/-- A halted processor faults only if an interrupt is latched that cannot be delivered. -/
theorem refused_of_halted (h : step.run s = .error f t) (hs : s.cpu.halted = true) :
    ∃ v, s.io.latch = some v ∧ (deliver v s.cpu.eip).run s = .error f t := by
  cases hlatch : s.io.latch with
  | none => rw [run_step_of_idle hlatch hs] at h; cases h
  | some v => exact ⟨v, rfl, refused_of_cycle hlatch h⟩

theorem haltChange_of_step (h : step.run s = .ok e t) : s.HaltChange t := by
  have hcycled := cycled_of_step h
  constructor
  case halts =>
    intro hs ht
    cases hcycled with
    | idle _ hhalted => rw [hs] at hhalted; cases hhalted
    | interrupted _ _ awake => exact absurd (awake.symm.trans ht) Bool.false_ne_true
    | retired begins kept =>
      exact absurd ((kept.halted.trans hs).symm.trans ht) Bool.false_ne_true
    | branched begins moved =>
      exact absurd (hs.symm.trans (moved.halted ht)) Bool.false_ne_true
    | @halted i begins hlt enabled =>
      rw [run_step_of_ready begins.latch begins.running, begins.fetch] at h
      exact ⟨i, begins, hlt, enabled, h⟩
  case wakes =>
    intro hs ht
    cases hlatch : s.io.latch with
    | none =>
      rw [run_step_of_idle hlatch hs] at h
      cases h
      exact absurd (ht.symm.trans hs) Bool.false_ne_true
    | some v =>
      obtain ⟨w, hd, -, rfl⟩ := delivered_of_cycle hlatch h
      exact .interrupted hlatch hd

end System

namespace Machine

variable {m : Machine δ}

theorem haltChange_step (m : Machine δ) : m.system.HaltChange m.step.2.system := by
  cases h : Exec.step.run m.system with
  | ok e t => rw [step_of_ok h]; exact System.haltChange_of_step h
  | error f t =>
    rw [step_of_error h]
    exact .of_eq (faultAtomic_step _ f t h).2.1.halted

/-- In a turn, the guest may enter its handler of a fault. -/
theorem haltChange_turn (m : Machine δ) : m.system.HaltChange m.turn.2.system := by
  cases h : Exec.step.run m.system with
  | ok e t => rw [turn_of_ok h]; exact System.haltChange_of_step h
  | error f t =>
    have hfault := (faultAtomic_step _ f t h).2.1
    rw [turn_of_error h]
    rcases run_absorb m.config.faultPolicy f t with e | ⟨v, -, hvector, e⟩
    · rw [e]
      exact .of_eq hfault.halted
    · rw [e]
      cases hd : (deliver v t.cpu.eip).run t with
      | error g u => exact .of_eq ((faultAtomic_deliver v _ t g u hd).2.1.halted.trans hfault.halted)
      | ok _ u =>
        refine ⟨fun _ hu => ?_, fun hs _ => ?_⟩
        · exact absurd ((awake_of_deliver hd).symm.trans hu) Bool.false_ne_true
        · obtain ⟨w, hlatch, hrefused⟩ := System.refused_of_halted h hs
          exact .faulted hlatch hrefused hvector hd

/-- One more cycle of a run. -/
theorem haltChange_run (m : Machine δ) (n : Nat) :
    (m.run n).2.system.HaltChange (m.run (n + 1)).2.system := by
  rcases m.run_succ n with e | e
  · rw [e]; exact .of_eq rfl
  · rw [e]; exact haltChange_turn _

/-! ## Halted machines -/

theorem step_of_idle (hlatch : m.system.io.latch = none) (hhalted : m.system.cpu.halted = true) :
    m.step = (.ok .idle, m) :=
  step_of_ok (run_step_of_idle hlatch hhalted)

theorem run_of_idle (hlatch : m.system.io.latch = none) (hhalted : m.system.cpu.halted = true)
    {n : Nat} (hn : 0 < n) (hgate : m.gateOpen = true) : m.run n = (⟨.halted, 0⟩, m) := by
  have hturn : m.turn = (.finish .halted false, m) := by rw [turn, step_of_idle hlatch hhalted]; rfl
  obtain ⟨k, rfl⟩ := Nat.exists_eq_succ_of_ne_zero (Nat.ne_of_gt hn)
  simp [run, runFrom, hgate, hturn]

end Machine

/-- A halted processor has interrupts enabled: the halt instruction asks for it, and nothing that
clears the interrupt flag is carried out while the processor is halted. -/
theorem Cpu.kept_interruptible : Kept δ fun c => c.halted = true → c.flags.interrupt = true where
  reset _ := Bool.noConfusion
  sampled _ h := h
  moved _ _ _ hawake _ ht := absurd (hawake.symm.trans ht) Bool.false_ne_true
  retired _ _ _ hbegins hkept _ ht :=
    absurd ((hkept.halted.trans hbegins.running).symm.trans ht) Bool.false_ne_true
  halted _ _ _ henabled _ _ := henabled

/-- **Halting.**  A reachable machine that is halted has interrupts enabled.  In cycles, and in runs
from one cycle to the next, the processor stops at a halt instruction only, and goes on only by
entering a handler; a reset makes it go on, too.  A halted machine with nothing latched stays as it
is in any number of cycles, and runs of it end at once. -/
theorem Machine.halting (m : Machine δ) :
    (m.Reachable → m.system.cpu.halted = true → m.system.cpu.flags.interrupt = true) ∧
    m.system.HaltChange m.step.2.system ∧
    (∀ n, (m.run n).2.system.HaltChange (m.run (n + 1)).2.system) ∧
    m.reset.system.cpu.halted = false ∧
    (m.system.cpu.halted = true → m.system.io.latch = none →
      (∀ k, ((fun x => x.step.2)^[k] m).step = (.ok .idle, m)) ∧
      ∀ n, 0 < n → m.gateOpen = true → m.run n = (⟨.halted, 0⟩, m)) := by
  refine ⟨Cpu.kept_interruptible.of_reachable, haltChange_step m, haltChange_run m, rfl,
    fun hhalted hlatch => ⟨fun k => ?_, fun n => run_of_idle hlatch hhalted⟩⟩
  have hstep := step_of_idle hlatch hhalted
  have hfixed : (fun x : Machine δ => x.step.2) m = m := by dsimp only; rw [hstep]
  rw [Function.iterate_fixed hfixed]
  exact hstep

/-- A machine with `sti` and `hlt` at its reset vector. -/
def Machine.resting : Machine Unit := reset {
  config := { memorySize := realModeSpan }
  system := ⟨Cpu.reset, (Ram.zeroed realModeSpan).writeBytes 0xFFFF0 [0xFB, 0xF4], Io.init ()⟩
  breakpoints := ∅
  gateOpen := true }

/-- After two cycles it rests. -/
theorem Machine.halting_resting :
    let m := (resting.run 2).2
    m.Reachable ∧ m.system.cpu.halted = true ∧ m.system.cpu.flags.interrupt = true ∧
      m.step = (.ok .idle, m) ∧ m.run 5 = (⟨.halted, 0⟩, m) := by
  obtain ⟨m, hm⟩ : ∃ m : Machine Unit, create? { memorySize := realModeSpan } () = .ok m := ⟨_, rfl⟩
  have hreachable : (resting.run 2).2.Reachable := by
    refine .run (.edit (.create hm) ?_) 2
    rw [cpu_of_create hm]
    rfl
  obtain ⟨hhalted, hlatch, hgate⟩ : (resting.run 2).2.system.cpu.halted = true ∧
      (resting.run 2).2.system.io.latch = none ∧ (resting.run 2).2.gateOpen = true := by
    decide +kernel
  obtain ⟨henabled, -, -, -, hidle⟩ := halting (resting.run 2).2
  obtain ⟨hsteps, hruns⟩ := hidle hhalted hlatch
  exact ⟨hreachable, hhalted, henabled hreachable hhalted, hsteps 0, hruns 5 (by decide) hgate⟩

end Ia32
