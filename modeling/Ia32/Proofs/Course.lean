/-
  What a run amounts to: the cycles that it counts, one after the other, and the reason for which it
  ends.

  Main definitions:
  - `Deed`, `Machine.Does` : a cycle that counts, and what it has done
  - `Machine.Faults` : a cycle whose fault nobody handles
  - `Machine.Course` : a run on its way
  - `Machine.Ends` : a run goes no further

  Main statements:
  - `Machine.turn_cases` : a turn counts, idles, or leaves a fault
  - `Machine.run_of_course`, `Machine.run_of_ends` : the run that takes a given course
  - `Machine.exists_ends` : every budget is used up, or the run ends before
  - `Machine.run_eq_iff` : the report and the machine that a run leaves
  - `Machine.course_run` : what they say about the cycles
-/
import Ia32.Proofs.Slices
import Ia32.Proofs.Turn

namespace Ia32

variable {δ : Type}

/-- What a cycle that counts has done.  A fault counts if the guest handles it. -/
inductive Deed
  | retired | branched | halted
  | interrupted (v : UInt8)
  | handled (f : Fault)
  deriving DecidableEq, Repr

namespace Machine

variable {m x y : Machine δ} {n : Nat} {ds : List Deed} {d : Deed} {f : Fault}

/-! ## Single cycles -/

/-- A cycle of `m` counts and leads to another machine. -/
inductive Does (m : Machine δ) : Deed → Machine δ → Prop
  | retired {x : Machine δ} (h : m.step = (.ok .retired, x)) : Does m .retired x
  | branched {x : Machine δ} (h : m.step = (.ok .branched, x)) : Does m .branched x
  | halted {x : Machine δ} (h : m.step = (.ok .halted, x)) : Does m .halted x
  | interrupted {x : Machine δ} {v : UInt8} (h : m.step = (.ok (.interrupted v), x)) :
      Does m (.interrupted v) x
  | handled {x : Machine δ} {f : Fault} {v : UInt8} {s : System δ} (h : m.step = (.error f, x))
      (policy : m.config.faultPolicy = .deliver) (vector : f.vector? = some v)
      (entered : (Exec.deliver v x.system.cpu.eip).run x.system = .ok () s) :
      Does m (.handled f) { x with system := s }

/-- A cycle of `m` faults, and a fault remains: the one it has raised, which the guest is not to
handle or cannot, or the one that the attempt to enter its handler has raised. -/
inductive Faults (m : Machine δ) : Fault → Machine δ → Prop
  | raised {x : Machine δ} {f : Fault} (h : m.step = (.error f, x))
      (unhandled : m.config.faultPolicy = .stop ∨ f.vector? = none) : Faults m f x
  | refused {x : Machine δ} {f g : Fault} {v : UInt8} {s : System δ} (h : m.step = (.error f, x))
      (policy : m.config.faultPolicy = .deliver) (vector : f.vector? = some v)
      (refusal : (Exec.deliver v x.system.cpu.eip).run x.system = .error g s) :
      Faults m g { x with system := s }

/-- A cycle changes nothing but the system. -/
theorem eq_of_step_error (h : m.step = (.error f, x)) :
    Exec.step.run m.system = .error f x.system ∧ x = { m with system := x.system } := by
  cases e : Exec.step.run m.system with
  | ok a t => rw [step_of_ok e] at h; cases h
  | error g t => rw [step_of_error e] at h; cases h; exact ⟨rfl, rfl⟩

theorem turn_of_step_ok {e : CycleExit} (h : m.step = (.ok e, x)) : m.turn = (e.turn, x) := by
  rw [turn, h]

/-- The turn of a cycle that counts: the run goes on unless the processor has halted. -/
theorem Does.turn (h : m.Does d x) :
    m.turn = (if d = .halted then .finish .halted true else .proceed, x) := by
  cases h with
  | retired h => exact turn_of_step_ok h
  | branched h => exact turn_of_step_ok h
  | halted h => exact turn_of_step_ok h
  | interrupted h => exact turn_of_step_ok h
  | handled h policy vector entered =>
    obtain ⟨hrun, hx⟩ := eq_of_step_error h
    rw [turn_of_error hrun, policy, Exec.run_absorb_of_vector vector, entered, hx]
    rfl

theorem Faults.turn (h : m.Faults f x) : m.turn = (.finish (.exception f) false, x) := by
  cases h with
  | raised h unhandled =>
    obtain ⟨hrun, hx⟩ := eq_of_step_error h
    have hremains : (Exec.absorb m.config.faultPolicy f).run x.system = .error f x.system := by
      rcases Exec.run_absorb m.config.faultPolicy f x.system with e | ⟨v, hpolicy, hvector, -⟩
      · exact e
      · rw [hpolicy, hvector] at unhandled
        rcases unhandled with e | e <;> cases e
    rw [turn_of_error hrun, hremains]
    exact congrArg _ hx.symm
  | refused h policy vector refusal =>
    obtain ⟨hrun, hx⟩ := eq_of_step_error h
    rw [turn_of_error hrun, policy, Exec.run_absorb_of_vector vector, refusal, hx]

/-- **A turn** counts, idles, or leaves a fault. -/
theorem turn_cases (m : Machine δ) :
    (∃ d x, m.Does d x) ∨ m.step = (.ok .idle, m) ∨ ∃ f x, m.Faults f x := by
  cases hrun : Exec.step.run m.system with
  | ok e t =>
    have hstep := step_of_ok hrun
    cases e with
    | retired => exact .inl ⟨_, _, .retired hstep⟩
    | branched => exact .inl ⟨_, _, .branched hstep⟩
    | halted => exact .inl ⟨_, _, .halted hstep⟩
    | interrupted v => exact .inl ⟨_, _, .interrupted hstep⟩
    | idle =>
      cases System.cycled_of_step hrun
      exact .inr (.inl hstep)
  | error f t =>
    have hstep := step_of_error hrun
    cases hpolicy : m.config.faultPolicy with
    | stop => exact .inr (.inr ⟨_, _, .raised hstep (.inl hpolicy)⟩)
    | deliver =>
      cases hvector : f.vector? with
      | none => exact .inr (.inr ⟨_, _, .raised hstep (.inr hvector)⟩)
      | some v =>
        cases hdeliver : (Exec.deliver v t.cpu.eip).run t with
        | ok _ s => exact .inl ⟨_, _, .handled hstep hpolicy hvector hdeliver⟩
        | error g s => exact .inr (.inr ⟨_, _, .refused hstep hpolicy hvector hdeliver⟩)

/-- A fault that remains leaves CS and EIP at the instruction whose cycle it ends. -/
theorem Faults.code (h : m.Faults f x) :
    x.system.cpu.eip = m.system.cpu.eip ∧ x.system.cpu.segment .cs = m.system.cpu.segment .cs := by
  have hresidue {s t : System δ} (h : FaultResidue s t) :
      t.cpu.eip = s.cpu.eip ∧ t.cpu.segment .cs = s.cpu.segment .cs := by
    rcases h.cpu with e | e <;> (rw [e]; exact ⟨rfl, rfl⟩)
  have hcycle {g : Fault} {y : Machine δ} (h : m.step = (.error g, y)) :=
    hresidue (Exec.faultAtomic_step _ g _ (eq_of_step_error h).1).2.1
  cases h with
  | raised h => exact hcycle h
  | @refused y g _ v s h _ _ refusal =>
    obtain ⟨heip, hcode⟩ := hcycle h
    obtain ⟨heip', hcode'⟩ := hresidue (Exec.faultAtomic_deliver v _ _ f s refusal).2.1
    exact ⟨heip'.trans heip, hcode'.trans hcode⟩

/-! ## Courses -/

/-- A run that has set out from `m` has come to `x`, by cycles that have done `ds`.  It would have
ended at a halt, and at a breakpoint before any cycle but the first. -/
inductive Course (m : Machine δ) : List Deed → Machine δ → Prop
  | start : Course m [] m
  | next {ds : List Deed} {d : Deed} {x y : Machine δ} (h : Course m ds x)
      (running : .halted ∉ ds) (clear : ds ≠ [] → x.currentAddress ∉ m.breakpoints)
      (does : x.Does d y) : Course m (ds ++ [d]) y

/-- A run of at most `n` cycles that has set out from `m`, and has come to `x` by cycles that have
done `ds`, goes no further.  It leaves `x` as it is, unless the next cycle faults. -/
inductive Ends (m : Machine δ) (n : Nat) (ds : List Deed) (x : Machine δ) :
    RunExit → Machine δ → Prop
  | completed (spent : ds.length = n) (running : .halted ∉ ds) : Ends m n ds x .completed x
  | halted (within : ds.length ≤ n) (h : .halted ∈ ds) : Ends m n ds x .halted x
  | breakpoint (left : ds.length < n) (running : .halted ∉ ds) (later : ds ≠ [])
      (h : x.currentAddress ∈ m.breakpoints) : Ends m n ds x (.breakpoint x.currentAddress) x
  | idle (left : ds.length < n) (running : .halted ∉ ds)
      (clear : ds ≠ [] → x.currentAddress ∉ m.breakpoints) (h : x.step = (.ok .idle, x)) :
      Ends m n ds x .halted x
  | exception {f : Fault} {y : Machine δ} (left : ds.length < n) (running : .halted ∉ ds)
      (clear : ds ≠ [] → x.currentAddress ∉ m.breakpoints) (h : x.Faults f y) :
      Ends m n ds x (.exception f) y

/-! ## The run that takes a course -/

/-- Cycles leave breakpoints and gate alone. -/
theorem Does.setup (h : m.Does d x) : x.breakpoints = m.breakpoints ∧ x.gateOpen = m.gateOpen := by
  have hstep {r : Except Fault CycleExit} {y : Machine δ} (h : m.step = (r, y)) :
      y.breakpoints = m.breakpoints ∧ y.gateOpen = m.gateOpen := by
    have hy : y = m.step.2 := by rw [h]
    rw [hy, step]
    cases Exec.step.run m.system <;> exact ⟨rfl, rfl⟩
  cases h with
  | retired h => exact hstep h
  | branched h => exact hstep h
  | halted h => exact hstep h
  | interrupted h => exact hstep h
  | handled h =>
    obtain ⟨hbreakpoints, hgate⟩ := hstep h
    exact ⟨hbreakpoints, hgate⟩

theorem Course.setup (h : m.Course ds x) :
    x.breakpoints = m.breakpoints ∧ x.gateOpen = m.gateOpen := by
  induction h with
  | start => exact ⟨rfl, rfl⟩
  | next _ _ _ does ih => exact ⟨does.setup.1.trans ih.1, does.setup.2.trans ih.2⟩

theorem Course.atBreakpoint_iff (h : m.Course ds x) :
    x.atBreakpoint = true ↔ x.currentAddress ∈ m.breakpoints := by
  rw [atBreakpoint, h.setup.1, Std.TreeSet.contains_iff_mem]

/-- One more turn of a run that has come to `x`. -/
theorem runFrom_turn (hgate : m.gateOpen = true) (hc : m.Course ds x)
    (clear : ds ≠ [] → x.currentAddress ∉ m.breakpoints) (j : Nat) :
    runFrom ds.isEmpty 0 (j + 1) x = match x.turn with
      | (.proceed, y) => ((runFrom false 0 j y).1.after 1, (runFrom false 0 j y).2)
      | (.finish e counted, y) => (⟨e, counted.toNat⟩, y) := by
  have hgo : (!ds.isEmpty && x.atBreakpoint) = false := by
    cases ds with
    | nil => rfl
    | cons d ds =>
      have hclear := clear (List.cons_ne_nil d ds)
      rw [← hc.atBreakpoint_iff, Bool.not_eq_true] at hclear
      rw [hclear, Bool.and_false]
  rw [runFrom, hc.setup.2.trans hgate, hgo]
  rcases x.turn with ⟨_ | ⟨e, c⟩, y⟩
  · exact runFrom_count false (0 + 1) j y
  · simp

/-- What is left of the budget is spent from where the run has come to. -/
theorem run_of_course (hgate : m.gateOpen = true) (hc : m.Course ds x) (running : .halted ∉ ds)
    (j : Nat) : m.run (ds.length + j) =
      ((runFrom ds.isEmpty 0 j x).1.after ds.length, (runFrom ds.isEmpty 0 j x).2) := by
  induction hc generalizing j with
  | start =>
    rw [List.length_nil, Nat.zero_add, run, List.isEmpty_nil]
    simp [RunReport.after]
  | @next ds d x y hc running' clear does ih =>
    have hd : d ≠ .halted := fun e => running (by simp [e])
    have hempty : (ds ++ [d]).isEmpty = false := by simp
    rw [List.length_append, List.length_singleton, Nat.add_assoc, Nat.add_comm 1, ih running',
      runFrom_turn hgate hc clear, does.turn, if_neg hd, hempty]
    simp only [RunReport.after_after]

/-- The run that takes a course to its end. -/
theorem run_of_ends {e : RunExit} (hgate : m.gateOpen = true) (hc : m.Course ds x)
    (he : m.Ends n ds x e y) : m.run n = (⟨e, ds.length⟩, y) := by
  have hrest {e : RunExit} {y : Machine δ} (left : ds.length < n) (running : .halted ∉ ds)
      (h : ∀ j, runFrom ds.isEmpty 0 (j + 1) x = (⟨e, 0⟩, y)) : m.run n = (⟨e, ds.length⟩, y) := by
    obtain ⟨j, rfl⟩ := Nat.exists_eq_add_of_lt left
    rw [Nat.add_assoc, run_of_course hgate hc running, h]
    rfl
  cases he with
  | completed spent running =>
    have hrun := run_of_course hgate hc running 0
    rw [Nat.add_zero, spent] at hrun
    rw [hrun, spent]
    rfl
  | halted within h =>
    -- the halt is the last cycle, as a run does not go on after it
    cases hc with
    | start => cases h
    | @next ds d x _ hc running clear does =>
      obtain rfl : d = .halted := by simpa [running, eq_comm] using h
      rw [List.length_append, List.length_singleton] at within ⊢
      obtain ⟨j, rfl⟩ := Nat.exists_eq_add_of_le within
      rw [Nat.add_assoc, Nat.add_comm 1, run_of_course hgate hc running,
        runFrom_turn hgate hc clear, does.turn, if_pos rfl]
      rfl
  | breakpoint left running later h =>
    refine hrest left running fun j => ?_
    have hfirst : ds.isEmpty = false := by simpa using later
    rw [hfirst, runFrom, hc.setup.2.trans hgate, hc.atBreakpoint_iff.2 h]
    rfl
  | idle left running clear h =>
    refine hrest left running fun j => ?_
    rw [runFrom_turn hgate hc clear, turn_of_step_ok h]
    rfl
  | exception left running clear h =>
    refine hrest left running fun j => ?_
    rw [runFrom_turn hgate hc clear, h.turn]
    rfl

/-- Whatever the budget, there is a course to an end. -/
theorem exists_ends (m : Machine δ) (n : Nat) :
    ∃ ds x, m.Course ds x ∧ ∃ e y, m.Ends n ds x e y := by
  induction n with
  | zero => exact ⟨[], m, .start, .completed, m, .completed rfl List.not_mem_nil⟩
  | succ n ih =>
    obtain ⟨ds, x, hc, e, y, he⟩ := ih
    cases he with
    | completed spent running =>
      have left : ds.length < n + 1 := by omega
      by_cases hstop : ds ≠ [] ∧ x.currentAddress ∈ m.breakpoints
      · exact ⟨ds, x, hc, _, _, .breakpoint left running hstop.1 hstop.2⟩
      have clear (h : ds ≠ []) : x.currentAddress ∉ m.breakpoints := fun hin => hstop ⟨h, hin⟩
      rcases x.turn_cases with ⟨d, z, does⟩ | h | ⟨f, z, h⟩
      · have hlength : (ds ++ [d]).length = n + 1 := by simp [spent]
        refine ⟨ds ++ [d], z, hc.next running clear does, ?_⟩
        by_cases hd : d = .halted
        · exact ⟨_, _, .halted (Nat.le_of_eq hlength) (by simp [hd])⟩
        · exact ⟨_, _, .completed hlength (by simp [running, Ne.symm hd])⟩
      · exact ⟨ds, x, hc, _, _, .idle left running clear h⟩
      · exact ⟨ds, x, hc, _, _, .exception left running clear h⟩
    | halted within h => exact ⟨ds, x, hc, _, _, .halted (by omega) h⟩
    | breakpoint left running later h =>
      exact ⟨ds, x, hc, _, _, .breakpoint (by omega) running later h⟩
    | idle left running clear h => exact ⟨ds, x, hc, _, _, .idle (by omega) running clear h⟩
    | exception left running clear h =>
      exact ⟨ds, x, hc, _, _, .exception (by omega) running clear h⟩

/-- **The meaning of a run**: its report counts the cycles of a course, and gives the reason for
which the course ends where it has left the machine. -/
theorem run_eq_iff (hgate : m.gateOpen = true) {r : RunReport} :
    m.run n = (r, y) ↔
      ∃ ds x, m.Course ds x ∧ m.Ends n ds x r.exit y ∧ r.executed = ds.length := by
  constructor
  · intro h
    obtain ⟨ds, x, hc, e, z, he⟩ := m.exists_ends n
    rw [run_of_ends hgate hc he] at h
    cases h
    exact ⟨ds, x, hc, he, rfl⟩
  · rintro ⟨ds, x, hc, he, hcount⟩
    rw [run_of_ends hgate hc he, ← hcount]

/-! ## What the exits tell -/

namespace Ends

theorem length_le {e : RunExit} (h : m.Ends n ds x e y) : ds.length ≤ n := by
  cases h with
  | completed spent => exact Nat.le_of_eq spent
  | halted within => exact within
  | breakpoint left | idle left | exception left => exact Nat.le_of_lt left

theorem completed_iff {e : RunExit} (h : m.Ends n ds x e y) :
    e = .completed ↔ ds.length = n ∧ .halted ∉ ds := by
  cases h with
  | completed spent running => exact iff_of_true rfl ⟨spent, running⟩
  | halted _ h => exact iff_of_false RunExit.noConfusion fun hc => hc.2 h
  | breakpoint left | idle left | exception left =>
    exact iff_of_false RunExit.noConfusion fun hc => absurd hc.1 (Nat.ne_of_lt left)

theorem of_breakpoint {a : UInt32} (h : m.Ends n ds x (.breakpoint a) y) :
    1 ≤ ds.length ∧ y = x ∧ a = y.currentAddress ∧ a ∈ m.breakpoints := by
  cases h with
  | breakpoint left running later h => exact ⟨List.length_pos_iff.2 later, rfl, rfl, h⟩

theorem of_exception (h : m.Ends n ds x (.exception f) y) : x.Faults f y := by
  cases h with
  | exception left running clear h => exact h

end Ends

/-- **Runs.**  With the gate open, a run of at most `n` cycles takes a course, and its report counts
the cycles of the course, which are at most `n`.  It has used up its budget exactly if there are `n`
of them and the last one is no halt.  At a breakpoint, which it reaches after one cycle or more, it
leaves the machine as the last cycle has left it; a fault leaves CS and EIP at the instruction whose
cycle it ends. -/
theorem course_run (m : Machine δ) (n : Nat) (hgate : m.gateOpen = true) :
    ∃ ds x, m.Course ds x ∧ m.Ends n ds x (m.run n).1.exit (m.run n).2 ∧
      (m.run n).1.executed = ds.length ∧ ds.length ≤ n ∧
      ((m.run n).1.exit = .completed ↔ ds.length = n ∧ .halted ∉ ds) ∧
      (∀ a, (m.run n).1.exit = .breakpoint a → 1 ≤ ds.length ∧ (m.run n).2 = x ∧
        a = (m.run n).2.currentAddress ∧ a ∈ m.breakpoints) ∧
      (∀ f, (m.run n).1.exit = .exception f → x.Faults f (m.run n).2 ∧
        (m.run n).2.system.cpu.eip = x.system.cpu.eip ∧
        (m.run n).2.system.cpu.segment .cs = x.system.cpu.segment .cs) := by
  obtain ⟨ds, x, hc, he, hcount⟩ := (run_eq_iff hgate).1 (Prod.eta (m.run n)).symm
  refine ⟨ds, x, hc, he, hcount, he.length_le, he.completed_iff, fun a ha => ?_, fun f hf => ?_⟩
  · rw [ha] at he
    exact he.of_breakpoint
  · rw [hf] at he
    exact ⟨he.of_exception, he.of_exception.code⟩

/-- The first cycle enters a handler, and the run ends at the breakpoint at its first instruction. -/
theorem course_run_ringing : ringing.gateOpen = true ∧ ∃ ds x, ringing.Course ds x ∧
    ds.length = 1 ∧ (ringing.run 2).2 = x ∧ x.currentAddress = 0 ∧ 0 ∈ ringing.breakpoints := by
  have hgate : ringing.gateOpen = true := rfl
  have hexit : (ringing.run 2).1 = ⟨.breakpoint 0, 1⟩ := by decide +kernel
  obtain ⟨ds, x, hc, -, hcount, -, -, hbreakpoint, -⟩ := course_run ringing 2 hgate
  rw [hexit] at hcount hbreakpoint
  obtain ⟨-, hx, haddress, hmem⟩ := hbreakpoint 0 rfl
  exact ⟨hgate, ds, x, hc, hcount.symm, hx, hx ▸ haddress.symm, hmem⟩

end Machine

end Ia32
