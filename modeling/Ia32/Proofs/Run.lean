/-
  Runs of a machine, cut in two.

  Main definitions:
  - `RunReport.after` : a report with earlier cycles counted in

  Main statements:
  - `Machine.runFrom_count` : the count of earlier cycles is only added to the report
  - `Machine.runFrom_add_of_completed`, `Machine.runFrom_add_of_ne` : a long run is a shorter one,
    followed by the rest if the shorter one used up its budget
  - `Machine.runFrom_false` : what the exemption of the first cycle amounts to
-/
import Ia32.Machine.Run
import Mathlib.Tactic.Common

namespace Ia32

/-- A report with `k` earlier cycles counted in. -/
def RunReport.after (k : Nat) (r : RunReport) : RunReport := ⟨r.exit, k + r.executed⟩

@[simp] theorem RunReport.exit_after (k : Nat) (r : RunReport) : (r.after k).exit = r.exit := rfl

@[simp] theorem RunReport.executed_after (k : Nat) (r : RunReport) :
    (r.after k).executed = k + r.executed := rfl

theorem RunReport.after_after (j k : Nat) (r : RunReport) : (r.after k).after j = r.after (j + k) := by
  simp [RunReport.after, Nat.add_assoc]

theorem RunReport.after_inj {k : Nat} {r r' : RunReport} : r.after k = r'.after k ↔ r = r' := by
  cases r; cases r'; simp [RunReport.after]

namespace Machine

variable {δ : Type}

/-- A turn ends a run neither for want of budget nor at a breakpoint. -/
theorem exit_of_turn {m m' : Machine δ} {e : RunExit} {c : Bool} (h : m.turn = (.finish e c, m')) :
    e ≠ .completed ∧ ∀ a, e ≠ .breakpoint a := by
  unfold turn at h
  split at h
  · rename_i x y _
    cases x <;> simp only [CycleExit.turn, Prod.mk.injEq, Turn.finish.injEq, reduceCtorEq,
      false_and] at h <;> simp [← h.1.1]
  · split at h
    · simp at h
    · simp only [Prod.mk.injEq, Turn.finish.injEq] at h
      simp [← h.1.1]

/-- Earlier cycles are only counted. -/
theorem runFrom_count (first : Bool) (k n : Nat) (m : Machine δ) :
    runFrom first k n m = ((runFrom first 0 n m).1.after k, (runFrom first 0 n m).2) := by
  induction n generalizing first k m with
  | zero => rfl
  | succ n ih =>
    simp only [runFrom]
    split_ifs
    · rfl
    · rfl
    · rcases m.turn with ⟨_ | ⟨e, c⟩, m'⟩
      · simp only
        rw [ih false (k + 1), ih false (0 + 1), RunReport.after_after, Nat.zero_add]
      · simp [RunReport.after]

/-- A run that was not ended used up its budget. -/
theorem executed_of_completed {first : Bool} {n : Nat} {m : Machine δ}
    (h : (runFrom first 0 n m).1.exit = .completed) : (runFrom first 0 n m).1.executed = n := by
  induction n generalizing first m with
  | zero => rfl
  | succ n ih =>
    simp only [runFrom] at h ⊢
    split_ifs at h ⊢
    rcases e : m.turn with ⟨_ | ⟨x, c⟩, m'⟩
    · rw [e] at h
      simp only at h ⊢
      rw [runFrom_count] at h ⊢
      rw [RunReport.executed_after, ih h, Nat.zero_add, Nat.add_comm]
    · rw [e] at h
      exact absurd h (exit_of_turn e).1

theorem runFrom_add_of_completed {first : Bool} {a : Nat} {m : Machine δ} (b : Nat) (ha : 0 < a)
    (h : (runFrom first 0 a m).1.exit = .completed) :
    runFrom first 0 (a + b) m =
      ((runFrom false 0 b (runFrom first 0 a m).2).1.after a,
        (runFrom false 0 b (runFrom first 0 a m).2).2) := by
  obtain ⟨n, rfl⟩ : ∃ n, a = n + 1 := ⟨a - 1, by omega⟩
  clear ha
  induction n generalizing first m with
  | zero =>
    rw [Nat.add_comm]
    simp only [runFrom] at h ⊢
    split_ifs at h ⊢
    rcases e : m.turn with ⟨_ | ⟨x, c⟩, m'⟩
    · simp only
      rw [runFrom_count]
    · rw [e] at h
      exact absurd h (exit_of_turn e).1
  | succ n ih =>
    rw [Nat.add_right_comm (n + 1)]
    rw [runFrom] at h ⊢
    rw [show runFrom first 0 (n + 1 + 1) m = _ from by rw [runFrom]]
    split_ifs at h ⊢
    rcases e : m.turn with ⟨_ | ⟨x, c⟩, m'⟩
    · rw [e] at h
      simp only at h ⊢
      rw [runFrom_count] at h ⊢
      rw [runFrom_count false (0 + 1) (n + 1)]
      rw [ih h, RunReport.after_after]
      simp only [Nat.zero_add, Nat.add_comm 1]
    · rw [e] at h
      exact absurd h (exit_of_turn e).1

theorem runFrom_add_of_ne {first : Bool} {a : Nat} {m : Machine δ} (b : Nat)
    (h : (runFrom first 0 a m).1.exit ≠ .completed) :
    runFrom first 0 (a + b) m = runFrom first 0 a m := by
  induction a generalizing first m with
  | zero => exact absurd rfl h
  | succ a ih =>
    rw [Nat.add_right_comm]
    simp only [runFrom] at h ⊢
    split_ifs at h ⊢
    · rfl
    · rfl
    · rcases e : m.turn with ⟨_ | ⟨x, c⟩, m'⟩
      · rw [e] at h
        simp only at h ⊢
        rw [runFrom_count] at h
        rw [runFrom_count, ih h, ← runFrom_count]
      · rfl

/-- At a breakpoint a run still has budget left. -/
theorem executed_lt_of_breakpoint {first : Bool} {n : Nat} {m : Machine δ} {a : UInt32}
    (h : (runFrom first 0 n m).1.exit = .breakpoint a) : (runFrom first 0 n m).1.executed < n := by
  induction n generalizing first m with
  | zero => simp [runFrom] at h
  | succ n ih =>
    simp only [runFrom] at h ⊢
    split_ifs at h ⊢
    · simp
    · rcases e : m.turn with ⟨_ | ⟨x, c⟩, m'⟩
      · rw [e] at h
        simp only at h ⊢
        rw [runFrom_count] at h ⊢
        have := ih h
        rw [RunReport.executed_after]
        omega
      · rw [e] at h
        exact absurd h ((exit_of_turn e).2 a)

/-- A run does not end at the breakpoint that it starts from. -/
theorem executed_pos_of_breakpoint {n : Nat} {m : Machine δ} {a : UInt32}
    (h : (m.run n).1.exit = .breakpoint a) : 0 < (m.run n).1.executed := by
  cases n with
  | zero => simp [run, runFrom] at h
  | succ n =>
    simp only [run, runFrom, Bool.not_true, Bool.false_and, Bool.false_eq_true, ↓reduceIte] at h ⊢
    split_ifs at h ⊢
    rcases e : m.turn with ⟨_ | ⟨x, c⟩, m'⟩
    · simp only
      rw [runFrom_count, RunReport.executed_after]
      omega
    · rw [e] at h
      exact absurd h ((exit_of_turn e).2 a)

/-- Without the exemption of the first cycle, a run ends at the breakpoint that it starts from. -/
theorem runFrom_false (n : Nat) (m : Machine δ) :
    runFrom false 0 n m =
      if 0 < n ∧ m.gateOpen = true ∧ m.atBreakpoint = true then (⟨.breakpoint m.currentAddress, 0⟩, m)
      else m.run n := by
  cases n with
  | zero => rfl
  | succ n =>
    cases hg : m.gateOpen <;> cases hb : m.atBreakpoint <;> simp [run, runFrom, hg, hb]

end Machine

end Ia32
