/-
  Running a machine in slices, so that something can be done in between.

  Main definitions:
  - `Machine.runSlices` : slices up to a budget, or up to the first that ends for another reason
-/
import Ia32.Machine.Run

namespace Ia32.Machine

variable {δ : Type} {m : Type → Type} [Monad m]

/-- Run for at most `n` further cycles after `k` of them, in slices of `slice` cycles, and do
`between` after each slice. -/
def runSlices (slice : Nat) (between : Machine δ → m (Machine δ)) (k n : Nat) (x : Machine δ) :
    m (RunReport × Machine δ) :=
  if n = 0 ∨ slice = 0 then return (⟨.completed, k⟩, x)
  else do
    let (r, x) := x.run (min n slice)
    let x ← between x
    match r.exit with
    | .completed => runSlices slice between (k + r.executed) (n - slice) x
    | e => return (⟨e, k + r.executed⟩, x)
termination_by n

end Ia32.Machine
