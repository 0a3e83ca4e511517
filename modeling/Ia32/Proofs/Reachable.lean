/-
  The machines that come out of a new one, and what holds of the registers in all of them.

  Memory, devices and the latch may change at any time, as may breakpoints, the gate and the fault
  policy; registers change in cycles and in resets only.

  Main definitions:
  - `Machine.Reachable`
  - `Cpu.Kept` : a property of the registers that no cycle and no reset breaks

  Main statements:
  - `Cpu.Kept.step`, `Cpu.Kept.turned`, `Cpu.Kept.run` : what is kept, whether cycles fault or not
  - `Cpu.Kept.of_reachable` : what is kept holds of every reachable machine
-/
import Ia32.Proofs.Turn

namespace Ia32

variable {δ : Type}

/-- The machines reached from new ones by cycles, runs, requests and resets, with arbitrary
changes in between to everything but the registers. -/
inductive Machine.Reachable : Machine δ → Prop
  | create {c : MachineConfig} {devices : δ} {m : Machine δ} (h : create? c devices = .ok m) :
      Reachable m
  | step {m : Machine δ} (h : Reachable m) : Reachable m.step.2
  | run {m : Machine δ} (h : Reachable m) (n : Nat) : Reachable (m.run n).2
  | request {m : Machine δ} (h : Reachable m) (v : UInt8) :
      Reachable { m with system.io := m.system.io.request v }
  | reset {m : Machine δ} (h : Reachable m) : Reachable m.reset
  | edit {m m' : Machine δ} (h : Reachable m) (hcpu : m'.system.cpu = m.system.cpu) : Reachable m'

/-- A new machine is at its reset vector. -/
theorem Machine.cpu_of_create {c : MachineConfig} {devices : δ} {m : Machine δ}
    (h : create? c devices = .ok m) : m.system.cpu =
      Cpu.reset.jump ⟨.realMode c.resetVector.segment true, c.resetVector.offset.toUInt32⟩ := by
  unfold create? at h
  split_ifs at h
  cases h
  rfl

/-- Property `P` of the registers is kept by all that cycles do, and holds after a reset. -/
structure Cpu.Kept (δ : Type) (P : Cpu → Prop) : Prop where
  reset : ∀ v : ResetVector, P (Cpu.reset.jump ⟨.realMode v.segment true, v.offset.toUInt32⟩)
  sampled : ∀ c, P c → P c.syncMode
  moved : ∀ s t : System δ, Transfer s t → t.cpu.halted = false → P s.cpu → P t.cpu
  retired : ∀ (s t : System δ) (i : Instruction), s.Begins i →
    Frame (fun k => i.touches k = true) s t → P s.cpu →
      P { t.cpu with eip := s.cpu.nextOffset i.length }
  halted : ∀ (s : System δ) (i : Instruction), s.Begins i → s.cpu.flags.interrupt = true →
    P s.cpu → P { s.cpu with eip := s.cpu.nextOffset i.length, halted := true }

namespace Cpu.Kept

variable {P : Cpu → Prop} (h : Kept δ P)

include h

theorem cycled {s t : System δ} {e : CycleExit} (hc : Cycled s e t) (hs : P s.cpu) : P t.cpu := by
  cases hc with
  | idle => exact hs
  | @interrupted v t _ moved awake => exact h.moved s t moved awake hs
  | retired begins kept => exact h.retired s _ _ begins kept hs
  | branched begins moved =>
    refine h.moved s t moved ?_ hs
    have hrunning := begins.running
    cases ht : t.cpu.halted with
    | false => rfl
    | true => rw [moved.halted ht] at hrunning; cases hrunning
  | halted begins _ enabled => exact h.halted s _ begins enabled hs

theorem residue {s t : System δ} (hr : FaultResidue s t) (hs : P s.cpu) : P t.cpu := by
  rcases hr.cpu with e | e
  · rw [e]; exact hs
  · rw [e]; exact h.sampled _ hs

theorem turned {s t : System δ} (ht : Turned s t) (hs : P s.cpu) : P t.cpu := by
  cases ht with
  | cycled hc => exact h.cycled hc hs
  | faulted hr => exact h.residue hr hs
  | refused hr hr' => exact h.residue hr' (h.residue hr hs)
  | @entered v u _ hr hd =>
    exact h.moved u t (Exec.transfers_deliver v _ u () t hd) (Exec.awake_of_deliver hd)
      (h.residue hr hs)

theorem step (m : Machine δ) (hm : P m.system.cpu) : P m.step.2.system.cpu :=
  h.turned m.turned_step hm

theorem run (m : Machine δ) (n : Nat) (hm : P m.system.cpu) : P (m.run n).2.system.cpu :=
  Machine.run_induction (P := fun m => P m.system.cpu) (fun m => h.turned m.turned_turn) hm n

/-- What is kept holds of every reachable machine. -/
theorem of_reachable {m : Machine δ} (hm : m.Reachable) : P m.system.cpu := by
  induction hm with
  | create hcreate => rw [Machine.cpu_of_create hcreate]; exact h.reset _
  | step _ ih => exact h.step _ ih
  | run _ n ih => exact h.run _ n ih
  | request _ v ih => exact ih
  | reset _ _ => exact h.reset _
  | edit _ hcpu ih => rw [hcpu]; exact ih

end Cpu.Kept

end Ia32
