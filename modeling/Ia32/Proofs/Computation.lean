/-
  Computations on a system, run from a given state.

  Main definitions:
  - `Exec.settle` : the result of a computation whose answer and final state are known apart
  - `Exec.after`, `Exec.answer` : the state that a computation leaves, by value or by fault, and
    what it answers
  - `Exec.Reads` : the computation gives a value read off registers and memory, and does nothing

  Main statements:
  - `Exec.run_bind`, … : the primitive computations and their sequence, from a state on
  - `Exec.Reads.bind` : readings in sequence are a reading
-/
import Ia32.System
import Mathlib.Tactic.Common

namespace Ia32.Exec

variable {δ α β : Type} {s t : System δ}

/-- Answer `r` in state `t`. -/
def settle (r : Except Fault α) (t : System δ) : EStateM.Result Fault (System δ) α :=
  match r with
  | .ok a => .ok a t
  | .error f => .error f t

/-- The state that `x` leaves. -/
def after (x : Exec δ α) (s : System δ) : System δ :=
  match x.run s with
  | .ok _ t | .error _ t => t

/-- What `x` answers. -/
def answer (x : Exec δ α) (s : System δ) : Except Fault α :=
  match x.run s with
  | .ok a _ => .ok a
  | .error f _ => .error f

@[simp] theorem settle_ok (a : α) (t : System δ) : settle (.ok a) t = .ok a t := rfl

@[simp] theorem settle_error (f : Fault) (t : System δ) :
    settle (.error f : Except Fault α) t = .error f t := rfl

theorem after_of_ok {x : Exec δ α} {a : α} (h : x.run s = .ok a t) : x.after s = t := by
  simp [after, h]

theorem after_of_error {x : Exec δ α} {f : Fault} (h : x.run s = .error f t) : x.after s = t := by
  simp [after, h]

theorem after_of_settle {x : Exec δ α} {r : Except Fault α} (h : x.run s = settle r t) :
    x.after s = t := by
  cases r with
  | ok a => exact after_of_ok h
  | error f => exact after_of_error h

theorem answer_of_ok {x : Exec δ α} {a : α} (h : x.run s = .ok a t) : x.answer s = .ok a := by
  rw [answer, h]

theorem answer_of_error {x : Exec δ α} {f : Fault} (h : x.run s = .error f t) :
    x.answer s = .error f := by
  rw [answer, h]

theorem run_of_answer {x : Exec δ α} {a : α} (h : x.answer s = .ok a) :
    x.run s = .ok a (x.after s) := by
  unfold answer at h
  cases e : x.run s with
  | ok b t => rw [e] at h; cases h; rw [after_of_ok e]
  | error f t => rw [e] at h; cases h

theorem run_of_answer_error {x : Exec δ α} {f : Fault} (h : x.answer s = .error f) :
    x.run s = .error f (x.after s) := by
  unfold answer at h
  cases e : x.run s with
  | ok b t => rw [e] at h; cases h
  | error g t => rw [e] at h; cases h; rw [after_of_error e]

/-! ## The primitive computations -/

theorem run_bind (x : Exec δ α) (g : α → Exec δ β) (s : System δ) :
    (x >>= g).run s = match x.run s with
      | .ok a t => (g a).run t
      | .error f t => .error f t := by
  simp only [EStateM.run, bind, EStateM.bind]
  cases x s <;> rfl

theorem run_bind_of_ok {x : Exec δ α} {a : α} (h : x.run s = .ok a t) (g : α → Exec δ β) :
    (x >>= g).run s = (g a).run t := by
  rw [run_bind, h]

theorem run_bind_of_error {x : Exec δ α} {f : Fault} (h : x.run s = .error f t)
    (g : α → Exec δ β) : (x >>= g).run s = .error f t := by
  rw [run_bind, h]

/-- A sequence that ends well has ended well halfway. -/
theorem ok_of_bind {x : Exec δ α} {g : α → Exec δ β} {b : β}
    (h : (x >>= g).run s = .ok b t) : ∃ a u, x.run s = .ok a u ∧ (g a).run u = .ok b t := by
  rw [run_bind] at h
  cases hx : x.run s with
  | ok a u => rw [hx] at h; exact ⟨a, u, rfl, h⟩
  | error f u => rw [hx] at h; cases h

@[simp] theorem run_pure (a : α) (s : System δ) : (pure a : Exec δ α).run s = .ok a s := rfl

@[simp] theorem run_throw (f : Fault) (s : System δ) : (throw f : Exec δ α).run s = .error f s :=
  rfl

@[simp] theorem run_get (s : System δ) : (get : Exec δ (System δ)).run s = .ok s s := rfl

@[simp] theorem run_set (t s : System δ) : (set t : Exec δ PUnit).run s = .ok ⟨⟩ t := rfl

@[simp] theorem run_modify (f : System δ → System δ) (s : System δ) :
    (modify f : Exec δ PUnit).run s = .ok ⟨⟩ (f s) := rfl

@[simp] theorem run_gets (f : System δ → α) (s : System δ) :
    (gets f : Exec δ α).run s = .ok (f s) s := rfl

@[simp] theorem run_modifyCpu (f : Cpu → Cpu) (s : System δ) :
    (modifyCpu f : Exec δ Unit).run s = .ok () (s.modifyCpu f) := rfl

@[simp] theorem run_ofExcept (r : Except Fault α) (s : System δ) :
    (ofExcept r : Exec δ α).run s = settle r s := by
  cases r <;> rfl

@[simp] theorem run_pure_bind (a : α) (g : α → Exec δ β) (s : System δ) :
    (pure a >>= g).run s = (g a).run s := rfl

@[simp] theorem run_get_bind (g : System δ → Exec δ β) (s : System δ) :
    (get >>= g).run s = (g s).run s := rfl

@[simp] theorem run_gets_bind (f : System δ → α) (g : α → Exec δ β) (s : System δ) :
    (gets f >>= g).run s = (g (f s)).run s := rfl

@[simp] theorem run_modify_bind (f : System δ → System δ) (g : PUnit → Exec δ β) (s : System δ) :
    (modify f >>= g).run s = (g ⟨⟩).run (f s) := rfl

@[simp] theorem run_modifyCpu_bind (f : Cpu → Cpu) (g : Unit → Exec δ β) (s : System δ) :
    (modifyCpu f >>= g).run s = (g ()).run (s.modifyCpu f) := rfl

/-! ## Readings -/

/-- `x` gives a value that registers and memory determine, and leaves everything as it is. -/
def Reads (x : Exec δ α) : Prop :=
  ∃ r : System δ → α, (∀ s, x.run s = .ok (r s) s) ∧ ∀ s io, r { s with io := io } = r s

namespace Reads

theorem pure (a : α) : Reads (pure a : Exec δ α) := ⟨fun _ => a, fun _ => rfl, fun _ _ => rfl⟩

theorem gets {f : System δ → α} (h : ∀ s io, f { s with io := io } = f s) : Reads (gets f) :=
  ⟨f, fun _ => rfl, h⟩

theorem bind {x : Exec δ α} {g : α → Exec δ β} (hx : Reads x) (hg : ∀ a, Reads (g a)) :
    Reads (x >>= g) := by
  obtain ⟨r, hr, hio⟩ := hx
  choose q hq hqio using hg
  refine ⟨fun s => q (r s) s, fun s => ?_, fun s io => ?_⟩
  · rw [run_bind_of_ok (hr s), hq]
  · show q (r { s with io := io }) { s with io := io } = q (r s) s
    rw [hio, hqio]

end Reads

end Ia32.Exec
