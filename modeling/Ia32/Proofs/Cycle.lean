/-
  What one cycle can do.

  A cycle idles, enters a handler, or carries out the instruction that it fetches.  Each of these
  is described once, and what a run keeps is read off the description.

  Main definitions:
  - `Executed` : the ways in which an instruction is completed
  - `System.Begins` : a cycle carries out an instruction
  - `Cycled` : the ways in which a cycle ends without a fault

  Main statements:
  - `Exec.executed_of_run` : there are no other ways for an instruction to complete
  - `Exec.run_cycleWith_of_latched`, `Exec.delivered_of_cycle`, `Exec.refused_of_cycle` : a cycle
    that finds an interrupt latched
  - `System.cycled_of_step` : there are no other ways for a cycle to end
-/
import Ia32.Proofs.ControlFlow

namespace Ia32

variable {δ : Type} {i : Instruction}

/-! ## Outcomes -/

namespace Exec

variable {α β : Type}

/-- Whenever `x` answers, the answer is `b`. -/
def Answers (b : β) (x : Exec δ β) : Prop := ∀ s a t, x.run s = .ok a t → a = b

namespace Answers

theorem pure (b : β) : Answers b (pure b : Exec δ β) := by
  rintro s _ t ⟨⟩
  rfl

theorem bind (x : Exec δ α) {b : β} {g : α → Exec δ β} (hg : ∀ a, Answers b (g a)) :
    Answers b (x >>= g) := by
  intro s c t h
  rw [run_bind] at h
  cases e : x.run s with
  | ok a u => rw [e] at h; exact hg a u c t h
  | error f u => rw [e] at h; cases h

theorem andThen (x : Exec δ α) (b : β) : Answers b (x >>= fun _ => Pure.pure b) :=
  bind x fun _ => pure b

end Answers

end Exec

open Exec

theorem SystemOp.answers_next {o : SystemOp} (h : o ≠ .hlt) :
    Answers .next (o.perform i : Exec δ Outcome) := by
  cases o
  case hlt => exact absurd rfl h
  case nop => exact .pure _
  case lgdt => exact .bind _ fun t => .andThen _ _
  case lidt => exact .bind _ fun t => .andThen _ _
  case sgdt => exact .bind _ fun t => .andThen _ _
  case sidt => exact .bind _ fun t => .andThen _ _
  case lmsw => exact .bind _ fun v => .andThen _ _
  case smsw => exact .bind _ fun v => .andThen _ _

/-- An instruction that is not a halt and does not transfer control is followed by the next. -/
theorem Instruction.answers_next (h : i.WellFormed) (hunit : i.unit ≠ .branch)
    (hhlt : i.operation ≠ .system .hlt) (next : UInt32) :
    Answers .next (i.perform next : Exec δ Outcome) := by
  have hu := h.unit
  rw [perform, hu]
  cases ho : i.operation with
  | branch o => rw [hu, ho] at hunit; exact absurd rfl hunit
  | system o => exact o.answers_next fun e => hhlt (ho.trans (congrArg _ e))
  | arithmetic o => exact .andThen _ _
  | decimal o => exact .andThen _ _
  | logic o => exact .andThen _ _
  | shiftRotate o => exact .andThen _ _
  | bitByte o => exact .andThen _ _
  | transfer o => exact .andThen _ _
  | string o => exact .andThen _ _
  | port o => exact .andThen _ _
  | flag o => exact .andThen _ _

/-! ## Instructions -/

/-- How `i`, carried out in `s`, has been completed. -/
inductive Executed (i : Instruction) (s : System δ) : CycleExit → System δ → Prop
  | retired {t : System δ} (kept : Frame (fun k => i.touches k = true) s t) :
      Executed i s .retired (t.modifyCpu fun c => { c with eip := s.cpu.nextOffset i.length })
  | branched {t : System δ} (unit : i.unit = .branch) (moved : Transfer s t) :
      Executed i s .branched t
  | halted (hlt : i.operation = .system .hlt) (enabled : s.cpu.flags.interrupt = true) :
      Executed i s .halted
        (s.modifyCpu fun c => { c with eip := s.cpu.nextOffset i.length, halted := true })

theorem Operation.branch_of_unit {o : Operation} (h : o.unit = .branch) : ∃ b, o = .branch b := by
  cases o
  case branch b => exact ⟨b, rfl⟩
  all_goals exact ExecutionUnit.noConfusion h

theorem Exec.executed_of_run {s t : System δ} {e : CycleExit} (hwf : i.WellFormed)
    (h : (execute i).run s = .ok e t) : Executed i s e t := by
  rw [run_execute] at h
  by_cases hunit : i.unit = .branch
  · -- the branch unit answers what has happened
    obtain ⟨o, ho⟩ := Operation.branch_of_unit (hwf.unit.symm.trans hunit)
    have haccepts := hwf.accepts
    rw [ho] at haccepts
    rw [Instruction.perform_branch hunit ho] at h
    cases hrun : (o.perform i (s.cpu.nextOffset i.length) : Exec δ Outcome).run s with
    | error f u => rw [hrun] at h; cases h
    | ok a u =>
      rw [hrun] at h
      rcases o.moves _ haccepts s a u hrun with ⟨rfl, hu⟩ | ⟨rfl, hu⟩
      · cases h
        exact .retired (hu.mono fun _ => False.elim)
      · cases h
        exact .branched hunit hu
  · by_cases hhlt : i.operation = .system .hlt
    · have hperform : i.perform (s.cpu.nextOffset i.length) =
          (SystemOp.hlt.perform i : Exec δ Outcome) := by
        rw [Instruction.perform, hwf.unit, hhlt]
        rfl
      rw [hperform, SystemOp.perform, run_gets_bind] at h
      cases henabled : s.cpu.flags.interrupt with
      | true => rw [henabled] at h; cases h; exact .halted hhlt henabled
      | false => rw [henabled] at h; cases h
    · cases hrun : (i.perform (s.cpu.nextOffset i.length) : Exec δ Outcome).run s with
      | error f u => rw [hrun] at h; cases h
      | ok a u =>
        cases Instruction.answers_next hwf hunit hhlt _ s a u hrun
        rw [hrun] at h
        cases h
        exact .retired (Instruction.keeps_perform hwf hunit _ s _ u hrun)

/-! ## Cycles -/

/-- A cycle in `s` carries out `i`. -/
structure System.Begins (s : System δ) (i : Instruction) : Prop where
  latch : s.io.latch = none
  running : s.cpu.halted = false
  fetch : s.fetch = .ok i

theorem System.Begins.wellFormed {s : System δ} (h : s.Begins i) : i.WellFormed :=
  System.wellFormed_of_fetch h.fetch

/-- How a cycle in `s` has ended. -/
inductive Cycled (s : System δ) : CycleExit → System δ → Prop
  | idle (latch : s.io.latch = none) (halted : s.cpu.halted = true) : Cycled s .idle s
  | interrupted {v : UInt8} {t : System δ} (latch : s.io.latch = some v) (moved : Transfer s t)
      (awake : t.cpu.halted = false) : Cycled s (.interrupted v) { t with io.latch := none }
  | retired {i : Instruction} {t : System δ} (begins : s.Begins i)
      (kept : Frame (fun k => i.touches k = true) s t) :
      Cycled s .retired (t.modifyCpu fun c => { c with eip := s.cpu.nextOffset i.length })
  | branched {i : Instruction} {t : System δ} (begins : s.Begins i) (moved : Transfer s t) :
      Cycled s .branched t
  | halted {i : Instruction} (begins : s.Begins i) (hlt : i.operation = .system .hlt)
      (enabled : s.cpu.flags.interrupt = true) :
      Cycled s .halted
        (s.modifyCpu fun c => { c with eip := s.cpu.nextOffset i.length, halted := true })

theorem Exec.awake_of_deliver {v : UInt8} {returnEip : UInt32} {s t : System δ} {a : Unit}
    (h : (deliver v returnEip).run s = .ok a t) : t.cpu.halted = false := by
  rw [run_deliver] at h
  cases e : s.synced.gateFor v with
  | error f => rw [e] at h; cases h
  | ok g => rw [e] at h; cases h; rfl

/-- A cycle that finds an interrupt latched delivers it or faults; the latch is emptied only if it
has been delivered. -/
theorem Exec.run_cycleWith_of_latched {s : System δ} {v : UInt8} (h : s.io.latch = some v)
    (x : Exec δ CycleExit) :
    (cycleWith x).run s = match (deliver v s.cpu.eip).run s with
      | .ok _ t => .ok (.interrupted v) { t with io.latch := none }
      | .error f t => .error f t := by
  rw [run_cycleWith, h]
  dsimp only
  cases hd : (deliver v s.cpu.eip).run s with
  | error f t => rfl
  | ok a t =>
    have hlatch : (Latch.acknowledge t.io.latch v).2 = none := by
      rw [(transfers_deliver v s.cpu.eip s a t hd).io, h, Latch.acknowledge, if_pos rfl]
    dsimp only
    rw [hlatch]

theorem Exec.delivered_of_cycle {s t : System δ} {v : UInt8} {x : Exec δ CycleExit} {e : CycleExit}
    (hlatch : s.io.latch = some v) (h : (cycleWith x).run s = .ok e t) :
    ∃ u, (deliver v s.cpu.eip).run s = .ok () u ∧ e = .interrupted v ∧
      t = { u with io.latch := none } := by
  rw [run_cycleWith_of_latched hlatch] at h
  cases hd : (deliver v s.cpu.eip).run s with
  | ok a u => rw [hd] at h; cases h; exact ⟨u, rfl, rfl, rfl⟩
  | error f u => rw [hd] at h; cases h

theorem Exec.refused_of_cycle {s t : System δ} {v : UInt8} {x : Exec δ CycleExit} {f : Fault}
    (hlatch : s.io.latch = some v) (h : (cycleWith x).run s = .error f t) :
    (deliver v s.cpu.eip).run s = .error f t := by
  rw [run_cycleWith_of_latched hlatch] at h
  cases hd : (deliver v s.cpu.eip).run s with
  | ok a u => rw [hd] at h; cases h
  | error g u => rw [hd] at h; cases h; rfl

/-- A halted processor does nothing unless an interrupt is latched. -/
theorem Exec.run_step_of_idle {s : System δ} (hlatch : s.io.latch = none)
    (hhalted : s.cpu.halted = true) : step.run s = .ok .idle s := by
  rw [step, stepBy, run_cycleWith, hlatch]
  exact if_pos hhalted

theorem System.cycled_of_execute {s t : System δ} {e : CycleExit} (hi : s.Begins i)
    (h : (execute i).run s = .ok e t) : Cycled s e t := by
  cases executed_of_run hi.wellFormed h with
  | retired kept => exact .retired hi kept
  | branched _ moved => exact .branched hi moved
  | halted hlt enabled => exact .halted hi hlt enabled

/-- **The ways a cycle ends**, unless in a fault. -/
theorem System.cycled_of_step {s t : System δ} {e : CycleExit} (h : step.run s = .ok e t) :
    Cycled s e t := by
  cases hlatch : s.io.latch with
  | some v =>
    obtain ⟨u, hd, rfl, rfl⟩ := delivered_of_cycle hlatch h
    exact .interrupted hlatch (transfers_deliver v s.cpu.eip s () u hd) (awake_of_deliver hd)
  | none =>
    cases hhalted : s.cpu.halted with
    | true => rw [run_step_of_idle hlatch hhalted] at h; cases h; exact .idle hlatch hhalted
    | false =>
      rw [run_step_of_ready hlatch hhalted] at h
      cases hfetch : s.fetch with
      | error f => rw [hfetch] at h; cases h
      | ok i => rw [hfetch] at h; exact cycled_of_execute ⟨hlatch, hhalted, hfetch⟩ h

end Ia32
