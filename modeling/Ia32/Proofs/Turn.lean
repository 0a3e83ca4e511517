/-
  One turn of a run: a cycle, and what is done about its fault.

  Main definitions:
  - `Turned` : the ways in which a turn ends

  Main statements:
  - `Exec.run_absorb` : a fault remains, or the guest enters its handler
  - `Machine.turn_of_ok`, `Machine.turn_of_error` : a turn, by the cycle in it
  - `Machine.turned_step`, `Machine.turned_turn` : there are no other ways for a cycle or a turn to
    end
  - `Machine.run_succ`, `Machine.turn_of_completed` : one more cycle of budget is one more turn at
    most, and one if the run does not end
  - `Machine.run_induction` : what turns keep, runs keep
-/
import Ia32.Proofs.Cycle
import Ia32.Proofs.Run

namespace Ia32

variable {δ : Type}

namespace Exec

variable {f : Fault}

/-- The guest enters its handler of a fault that has a vector. -/
theorem run_absorb_of_vector {v : UInt8} (hv : f.vector? = some v) (s : System δ) :
    (absorb .deliver f).run s = (deliver v s.cpu.eip).run s := by
  simp only [absorb, deliverFault, hv, run_bind, run_gets]
  cases (deliver v s.cpu.eip).run s <;> rfl

/-- Other faults remain, and so do all faults if the policy is to stop. -/
theorem run_absorb (p : FaultPolicy) (f : Fault) (s : System δ) :
    (absorb p f).run s = .error f s ∨ ∃ v, p = .deliver ∧ f.vector? = some v ∧
      (absorb p f).run s = (deliver v s.cpu.eip).run s := by
  cases p with
  | stop => exact .inl rfl
  | deliver =>
    cases hv : f.vector? with
    | none => exact .inl (by simp [absorb, deliverFault, hv])
    | some v => exact .inr ⟨v, rfl, rfl, run_absorb_of_vector hv s⟩

end Exec

/-- How a turn in `s` has ended: as its cycle, or with a fault that remains, or with the attempt to
enter the handler of a fault. -/
inductive Turned (s : System δ) : System δ → Prop
  | cycled {e : CycleExit} {t : System δ} (h : Cycled s e t) : Turned s t
  | faulted {t : System δ} (h : FaultResidue s t) : Turned s t
  | refused {t u : System δ} (h : FaultResidue s t) (h' : FaultResidue t u) : Turned s u
  | entered {v : UInt8} {t u : System δ} (h : FaultResidue s t)
      (h' : (Exec.deliver v t.cpu.eip).run t = .ok () u) : Turned s u

namespace Machine

variable {m : Machine δ}

theorem step_of_ok {e : CycleExit} {t : System δ} (h : Exec.step.run m.system = .ok e t) :
    m.step = (.ok e, { m with system := t }) := by
  rw [step, h]

theorem step_of_error {f : Fault} {t : System δ} (h : Exec.step.run m.system = .error f t) :
    m.step = (.error f, { m with system := t }) := by
  rw [step, h]

theorem turn_of_ok {e : CycleExit} {t : System δ} (h : Exec.step.run m.system = .ok e t) :
    m.turn = (e.turn, { m with system := t }) := by
  rw [turn, step_of_ok h]

theorem turn_of_error {f : Fault} {t : System δ} (h : Exec.step.run m.system = .error f t) :
    m.turn = match (Exec.absorb m.config.faultPolicy f).run t with
      | .ok _ u => (.proceed, { m with system := u })
      | .error g u => (.finish (.exception g) false, { m with system := u }) := by
  rewrite [turn, step_of_error h]
  rfl

/-- A cycle is a turn in which nothing is done about a fault. -/
theorem turned_step (m : Machine δ) : Turned m.system m.step.2.system := by
  cases hstep : Exec.step.run m.system with
  | ok e t =>
    rw [step_of_ok hstep]
    exact .cycled (System.cycled_of_step hstep)
  | error f t =>
    rw [step_of_error hstep]
    exact .faulted (Exec.faultAtomic_step _ f t hstep).2.1

/-- **The ways a turn ends.** -/
theorem turned_turn (m : Machine δ) : Turned m.system m.turn.2.system := by
  cases hstep : Exec.step.run m.system with
  | ok e t =>
    rw [turn_of_ok hstep]
    exact .cycled (System.cycled_of_step hstep)
  | error f t =>
    have hfault := (Exec.faultAtomic_step _ f t hstep).2.1
    rw [turn_of_error hstep]
    rcases Exec.run_absorb m.config.faultPolicy f t with e | ⟨v, -, -, e⟩
    · rw [e]
      exact .faulted hfault
    · rw [e]
      cases hrun : (Exec.deliver v t.cpu.eip).run t with
      | ok _ u => exact .entered hfault hrun
      | error g u => exact .refused hfault (Exec.faultAtomic_deliver v _ t g u hrun).2.1

/-- With one cycle more, a run ends as before, or it had used up its budget and takes one turn
more. -/
theorem run_succ_cases (m : Machine δ) (n : Nat) :
    (m.run (n + 1)).2 = (m.run n).2 ∧ (m.run (n + 1)).1.exit ≠ .completed ∨
    (m.run (n + 1)).2 = (m.run n).2.turn.2 ∧ ((m.run (n + 1)).1.exit = .completed →
      (m.run n).1.exit = .completed ∧ (m.run n).2.turn.1 = .proceed) := by
  have hone (first : Bool) (x : Machine δ) :
      (x.runFrom first 0 1).2 = x ∧ (x.runFrom first 0 1).1.exit ≠ .completed ∨
      (x.runFrom first 0 1).2 = x.turn.2 ∧
        ((x.runFrom first 0 1).1.exit = .completed → x.turn.1 = .proceed) := by
    rw [runFrom]
    split_ifs
    · exact .inl ⟨rfl, RunExit.noConfusion⟩
    · exact .inl ⟨rfl, RunExit.noConfusion⟩
    · rcases e : x.turn with ⟨_ | ⟨exit, c⟩, x'⟩
      · exact .inr ⟨rfl, fun _ => rfl⟩
      · exact .inr ⟨rfl, fun h => absurd h (exit_of_turn e).1⟩
  rcases Nat.eq_zero_or_pos n with rfl | hn
  · exact (hone true m).imp_right fun h => ⟨h.1, fun hc => ⟨rfl, h.2 hc⟩⟩
  · by_cases hc : (m.run n).1.exit = .completed
    · rw [run, runFrom_add_of_completed 1 hn hc]
      exact (hone false _).imp_right fun h => ⟨h.1, fun hc' => ⟨hc, h.2 hc'⟩⟩
    · rw [run, runFrom_add_of_ne 1 hc]
      exact .inl ⟨rfl, hc⟩

theorem run_succ (m : Machine δ) (n : Nat) :
    (m.run (n + 1)).2 = (m.run n).2 ∨ (m.run (n + 1)).2 = (m.run n).2.turn.2 :=
  (m.run_succ_cases n).imp And.left And.left

/-- A run that has not ended is one turn longer than before. -/
theorem turn_of_completed {n : Nat} (h : (m.run (n + 1)).1.exit = .completed) :
    (m.run n).1.exit = .completed ∧ (m.run n).2.turn = (.proceed, (m.run (n + 1)).2) := by
  rcases m.run_succ_cases n with ⟨-, hne⟩ | ⟨e, hturn⟩
  · exact absurd h hne
  · obtain ⟨hcompleted, hproceed⟩ := hturn h
    exact ⟨hcompleted, Prod.ext hproceed e.symm⟩

/-- What no turn breaks, no run breaks. -/
theorem run_induction {P : Machine δ → Prop} (hturn : ∀ x : Machine δ, P x → P x.turn.2)
    (hm : P m) (n : Nat) : P (m.run n).2 := by
  induction n with
  | zero => exact hm
  | succ n ih =>
    rcases m.run_succ n with e | e
    · rw [e]; exact ih
    · rw [e]; exact hturn _ ih

end Machine

end Ia32
