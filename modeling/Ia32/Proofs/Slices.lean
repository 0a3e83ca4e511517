/-
  What slicing does to a run.

  Main definitions:
  - `Machine.sliced` : a run in slices of `k` cycles, with nothing done in between

  Main statements:
  - `Machine.sliced_of_completed`, `Machine.sliced_of_ne` : a sliced run, by its first slice
  - `Machine.sliced_eq_run_iff` : a sliced run is a run unless the run ends at a breakpoint that it
    reaches after a whole number of slices
-/
import Ia32.Machine.Slices
import Ia32.Proofs.Run

namespace Ia32.Machine

variable {δ : Type} {k n : Nat} {m : Machine δ}

/-- A run of at most `n` cycles in slices of `k`, with nothing done in between. -/
def sliced (k n : Nat) (m : Machine δ) : RunReport × Machine δ :=
  Id.run (runSlices k pure 0 n m)

/-! ## The first slice and the rest -/

theorem runSlices_count (hk : 0 < k) (c n : Nat) (m : Machine δ) :
    Id.run (runSlices k pure c n m) = ((sliced k n m).1.after c, (sliced k n m).2) := by
  induction n using Nat.strongRecOn generalizing c m with
  | ind n ih =>
    unfold sliced
    rw [runSlices, runSlices]
    by_cases hn : n = 0
    · simp [hn, RunReport.after]
    · have hlt : n - k < n := by omega
      simp only [hn, Nat.ne_of_gt hk, or_self, ↓reduceIte, pure_bind]
      rcases h : (m.run (min n k)).1.exit
      case completed => rw [ih _ hlt, ih _ hlt (0 + _), RunReport.after_after, Nat.zero_add]
      all_goals simp [RunReport.after]

theorem sliced_zero (k : Nat) (m : Machine δ) : sliced k 0 m = (⟨.completed, 0⟩, m) := by
  simp [sliced, runSlices]

/-- A first slice that uses up its budget is followed by the rest. -/
theorem sliced_of_completed (hk : 0 < k) (hn : 0 < n)
    (h : (m.run (min n k)).1.exit = .completed) :
    sliced k n m = ((sliced k (n - k) (m.run (min n k)).2).1.after (min n k),
      (sliced k (n - k) (m.run (min n k)).2).2) := by
  have he : (m.run (min n k)).1.executed = min n k := executed_of_completed h
  rw [sliced, runSlices]
  simp only [Nat.ne_of_gt hn, Nat.ne_of_gt hk, or_self, ↓reduceIte, pure_bind, h]
  rw [runSlices_count hk, he, Nat.zero_add]

/-- A first slice that ends for another reason is all. -/
theorem sliced_of_ne (hk : 0 < k) (hn : 0 < n) (h : (m.run (min n k)).1.exit ≠ .completed) :
    sliced k n m = m.run (min n k) := by
  rw [sliced, runSlices]
  simp only [Nat.ne_of_gt hn, Nat.ne_of_gt hk, or_self, ↓reduceIte, pure_bind, Nat.zero_add]
  rcases e : m.run (min n k) with ⟨⟨x, j⟩, m'⟩
  rw [e] at h
  cases x
  case completed => exact absurd rfl h
  all_goals rfl

/-- A sliced run does not end at the breakpoint that it starts from. -/
theorem sliced_executed_pos (hk : 0 < k) {a : UInt32}
    (h : (sliced k n m).1.exit = .breakpoint a) : 0 < (sliced k n m).1.executed := by
  rcases Nat.eq_zero_or_pos n with rfl | hn
  · simp [sliced_zero] at h
  · by_cases hc : (m.run (min n k)).1.exit = .completed
    · rw [sliced_of_completed hk hn hc, RunReport.executed_after]
      omega
    · rw [sliced_of_ne hk hn hc] at h ⊢
      exact executed_pos_of_breakpoint h

/-! ## Slicing and breakpoints -/

/-- **Slicing shows at breakpoints only**: a run in slices of `k` cycles is the run at once, unless
this one ends at a breakpoint after a multiple of `k` cycles.  Such a breakpoint is passed over,
since no slice stops where it starts. -/
theorem sliced_eq_run_iff (k n : Nat) (m : Machine δ) (hk : 0 < k) :
    sliced k n m = m.run n ↔
      ∀ a, (m.run n).1.exit = .breakpoint a → ¬ k ∣ (m.run n).1.executed := by
  induction n using Nat.strongRecOn generalizing m with
  | ind n ih =>
    rcases Nat.eq_zero_or_pos n with rfl | hn
    · simp [sliced_zero, run, runFrom]
    · have ha : 0 < min n k := by omega
      have hsplit : m.run n = runFrom true 0 (min n k + (n - k)) m := by
        rw [run]; congr 1; omega
      by_cases hc : (m.run (min n k)).1.exit = .completed
      · rw [sliced_of_completed hk hn hc, hsplit, runFrom_add_of_completed _ ha hc]
        change _ = (RunReport.after _ (runFrom false 0 (n - k) (m.run (min n k)).2).1,
          (runFrom false 0 (n - k) (m.run (min n k)).2).2) ↔ ∀ a,
          (runFrom false 0 (n - k) (m.run (min n k)).2).1.exit = .breakpoint a →
            ¬ k ∣ min n k + (runFrom false 0 (n - k) (m.run (min n k)).2).1.executed
        generalize (m.run (min n k)).2 = m'
        rw [Prod.mk.injEq, RunReport.after_inj, ← Prod.ext_iff, runFrom_false]
        split_ifs with hb
        · -- the first slice ends at a breakpoint, and the next one starts there
          have hmin : min n k = k := by omega
          refine iff_of_false (fun h => ?_) (fun h => h _ rfl (by simp [hmin]))
          have hpos : 0 < (sliced k (n - k) m').1.executed :=
            sliced_executed_pos (a := m'.currentAddress) hk (by rw [h])
          rw [h] at hpos
          exact absurd hpos (Nat.lt_irrefl 0)
        · rw [ih (n - k) (by omega) m']
          refine forall_congr' fun a => imp_congr_right fun hx => ?_
          have hlt : (m'.run (n - k)).1.executed < n - k := executed_lt_of_breakpoint hx
          have hmin : min n k = k := by omega
          rw [hmin, Nat.dvd_add_right (Nat.dvd_refl k)]
      · have hrun : m.run n = m.run (min n k) := by
          rw [hsplit]; exact runFrom_add_of_ne _ hc
        rw [sliced_of_ne hk hn hc, hrun]
        refine iff_of_true rfl fun a hx hd => ?_
        have hlt : (m.run (min n k)).1.executed < min n k := executed_lt_of_breakpoint hx
        have := Nat.le_of_dvd (executed_pos_of_breakpoint hx) hd
        omega

/-- A machine whose first cycle enters a handler, with a breakpoint at its first instruction: memory
and with it the vector table are zero, and vector 8 is requested. -/
def ringing : Machine Unit :=
  let m : Machine Unit := reset {
    config := { memorySize := realModeSpan }
    system := ⟨Cpu.reset, Ram.zeroed realModeSpan, Io.init ()⟩
    breakpoints := Std.TreeSet.empty.insert 0
    gateOpen := true }
  { m with system.io := m.system.io.request 8 }

/-- With two cycles at once the breakpoint ends the run, in slices of one cycle it does not. -/
theorem sliced_one_ringing : (ringing.run 2).1 = ⟨.breakpoint 0, 1⟩ ∧
    (sliced 1 2 ringing).1 = ⟨.completed, 2⟩ ∧ sliced 1 2 ringing ≠ ringing.run 2 := by
  have hrun : (ringing.run 2).1 = ⟨.breakpoint 0, 1⟩ := by decide +kernel
  have hfirst : (ringing.run 1).1 = ⟨.completed, 1⟩ := by decide +kernel
  have hsecond : ((ringing.run 1).2.run 1).1 = ⟨.completed, 1⟩ := by decide +kernel
  have hsliced : (sliced 1 2 ringing).1 = ⟨.completed, 2⟩ := by
    have hr : (ringing.run (min 2 1)).1.exit = .completed := congrArg RunReport.exit hfirst
    rw [sliced_of_completed (by decide) (by decide) hr]
    change (sliced 1 1 (ringing.run 1).2).1.after 1 = _
    generalize (ringing.run 1).2 = m at hsecond ⊢
    have hm : (m.run (min 1 1)).1.exit = .completed := congrArg RunReport.exit hsecond
    rw [sliced_of_completed (by decide) (by decide) hm]
    change ((sliced 1 0 _).1.after 1).after 1 = _
    rw [sliced_zero]
    rfl
  refine ⟨hrun, hsliced, fun h => ?_⟩
  rw [h, hrun] at hsliced
  exact absurd hsliced (by decide)

/-- Slices of two cycles do not show, as the breakpoint is reached within the first of them. -/
theorem sliced_two_ringing : 0 < 2 ∧ sliced 2 2 ringing = ringing.run 2 := by
  have hrun : (ringing.run 2).1 = ⟨.breakpoint 0, 1⟩ := by decide +kernel
  exact ⟨by decide, (sliced_eq_run_iff 2 2 ringing (by decide)).2 fun a _ => by rw [hrun]; decide⟩

end Ia32.Machine
