/-
  One computation on two systems that differ in their ports.

  Both systems have the same registers and the same memory.  Port accesses are the only way in which
  a computation can tell the two apart, so if they are answered alike, then the computation gives
  the same answer, or the same fault, and the same registers and memory again.

  Main definitions:
  - `System.withIo` : a system with other ports
  - `Io.Alike` : a relation between ports that accesses keep, and that makes their answers the same
  - `Exec.Parallel` : computations that run alike on related ports

  Main statements:
  - `Exec.Parallel.run_withIo` : the one run, by the other
  - `Exec.Parallel.bind`, `Exec.Parallel.get_bind`, … : computations in sequence
  - `Exec.parallel_setSelector`, `Exec.parallel_farTransfer`, `Exec.parallel_nearTransfer`,
    `Exec.parallel_deliver`, `Exec.parallel_interruptReturn` : selectors, transfers and gates
-/
import Ia32.Proofs.Atomicity

namespace Ia32

variable {δ σ : Type}

namespace System

/-- The registers and the memory of `s`, with other ports. -/
def withIo (s : System δ) (io : Io σ) : System σ := ⟨s.cpu, s.ram, io⟩

theorem cpu_withIo (s : System δ) (io : Io σ) : (s.withIo io).cpu = s.cpu := rfl

theorem write_withIo (s : System δ) (io : Io σ) (n : SegmentName) (offset : UInt32) (w : Width)
    (v : UInt32) : (s.withIo io).write n offset w v = (s.write n offset w v).withIo io := rfl

theorem enterGate_withIo (s : System δ) (io : Io σ) (g : Gate) (returnEip : UInt32) :
    (s.withIo io).enterGate g returnEip = (s.enterGate g returnEip).withIo io := rfl

end System

/-- Accesses to related ports are answered alike, and lead to related ports. -/
structure Io.Alike (Q : Io δ → Io σ → Prop) : Prop where
  read : ∀ {io jo} (_ : Q io jo) (port : UInt16) (size : UInt8),
    (jo.read port size).1 = (io.read port size).1 ∧
      Q (io.read port size).2 (jo.read port size).2
  write : ∀ {io jo} (_ : Q io jo) (port : UInt16) (size : UInt8) (v : UInt32),
    Q (io.write port size v) (jo.write port size v)

namespace Exec

variable {α β : Type} {Q : Io δ → Io σ → Prop}

/-- The same result, in systems that differ in related ports only. -/
inductive Agree (Q : Io δ → Io σ → Prop) :
    EStateM.Result Fault (System δ) α → EStateM.Result Fault (System σ) α → Prop
  | ok (a : α) (t : System δ) (io : Io σ) (h : Q t.io io) : Agree Q (.ok a t) (.ok a (t.withIo io))
  | error (f : Fault) (t : System δ) (io : Io σ) (h : Q t.io io) :
      Agree Q (.error f t) (.error f (t.withIo io))

/-- On systems that differ in related ports only, `x` and `y` do the same. -/
def Parallel (Q : Io δ → Io σ → Prop) (x : Exec δ α) (y : Exec σ α) : Prop :=
  ∀ s io, Q s.io io → Agree Q (x.run s) (y.run (s.withIo io))

namespace Parallel

/-- What `y` does on other ports, by what `x` does. -/
theorem run_withIo {x : Exec δ α} {y : Exec σ α} {s : System δ} {io : Io σ} (h : Parallel Q x y)
    (hio : Q s.io io) : ∃ jo, Q (x.after s).io jo ∧
      y.run (s.withIo io) = settle (x.answer s) ((x.after s).withIo jo) := by
  have hagree := h s io hio
  rw [after, answer]
  generalize x.run s = r, y.run (s.withIo io) = r' at hagree
  cases hagree with
  | ok a t jo ht => exact ⟨jo, ht, rfl⟩
  | error f t jo ht => exact ⟨jo, ht, rfl⟩

theorem pure (a : α) : Parallel Q (pure a) (pure a) := fun s io h => .ok a s io h

theorem throw (f : Fault) : Parallel Q (throw f : Exec δ α) (throw f) := fun s io h => .error f s io h

theorem ofExcept (r : Except Fault α) : Parallel Q (ofExcept r) (ofExcept r) := by
  cases r with
  | ok a => exact pure a
  | error f => exact throw f

theorem bind {x : Exec δ α} {y : Exec σ α} {g : α → Exec δ β} {k : α → Exec σ β}
    (hx : Parallel Q x y) (hg : ∀ a, Parallel Q (g a) (k a)) : Parallel Q (x >>= g) (y >>= k) := by
  intro s io h
  have hrun := hx s io h
  rw [run_bind, run_bind]
  generalize x.run s = r, y.run (s.withIo io) = r' at hrun
  cases hrun with
  | ok a t jo ht => exact hg a t jo ht
  | error f t jo ht => exact .error f t jo ht

/-- A value that is read off registers and memory. -/
theorem gets {f : System δ → α} {g : System σ → α} (h : ∀ s io, g (s.withIo io) = f s) :
    Parallel Q (gets f) (gets g) := fun s io hio => by
  rw [run_gets, run_gets, h]
  exact .ok _ s io hio

/-- A system that is read; what follows may look at its ports only through related accesses. -/
theorem get_bind {g : System δ → Exec δ β} {k : System σ → Exec σ β}
    (h : ∀ s io, Q s.io io → Parallel Q (g s) (k (s.withIo io))) :
    Parallel Q (get >>= g) (get >>= k) := fun s io hio => by
  rw [run_get_bind, run_get_bind]
  exact h s io hio s io hio

/-- A change after which the ports are still related. -/
theorem modify_of {f : System δ → System δ} {g : System σ → System σ}
    (h : ∀ s io, Q s.io io → ∃ jo, Q (f s).io jo ∧ g (s.withIo io) = (f s).withIo jo) :
    Parallel Q (modify f) (modify g) := fun s io hio => by
  obtain ⟨jo, hjo, e⟩ := h s io hio
  rw [run_modify, run_modify, e]
  exact .ok _ _ jo hjo

/-- A change of registers and memory. -/
theorem modify {f : System δ → System δ} {g : System σ → System σ} (hio : ∀ s, (f s).io = s.io)
    (h : ∀ s io, g (s.withIo io) = (f s).withIo io) : Parallel Q (modify f) (modify g) :=
  .modify_of fun s io hs => ⟨io, (hio s).symm ▸ hs, h s io⟩

theorem modifyCpu (f : Cpu → Cpu) : Parallel Q (modifyCpu f) (modifyCpu f) :=
  .modify (fun _ => rfl) fun _ _ => rfl

end Parallel

end Exec

/-! ## Selectors, transfers and gates -/

namespace System

variable (s : System δ) (io : Io σ)

theorem noted_withIo (a : UInt32) : (s.withIo io).noted a = (s.noted a).withIo io := by
  change (if (s.descriptorAt a).user && (s.descriptorAt a).present && !(s.descriptorAt a).accessed
    then (s.withIo io).markAccessed a else s.withIo io) = _
  unfold noted
  dsimp only
  split_ifs <;> rfl

theorem lookedUp_withIo (selector : UInt16) :
    (s.withIo io).lookedUp selector = (s.lookedUp selector).withIo io := by
  unfold lookedUp fetched
  split_ifs
  · rfl
  · rw [cpu_withIo]
    cases s.cpu.entryAddress selector with
    | error f => rfl
    | ok a => exact s.noted_withIo io a

theorem consulted_withIo (selector : UInt16) :
    (s.withIo io).consulted selector = (s.consulted selector).withIo io := by
  unfold consulted
  rw [cpu_withIo]
  split_ifs
  · exact s.lookedUp_withIo io selector
  · rfl

theorem gated_withIo (v : UInt8) : (s.withIo io).gated v = (s.gated v).withIo io := by
  have hentry : (s.withIo io).gateEntry v = s.gateEntry v := rfl
  unfold gated
  rw [cpu_withIo, hentry]
  split_ifs
  · cases s.gateEntry v with
    | error f => rfl
    | ok e => exact s.lookedUp_withIo io e.selector
  · rfl

end System

namespace Exec

variable {α β : Type} {Q : Io δ → Io σ → Prop}

theorem parallel_setSelector (n : SegmentName) (selector : UInt16) :
    Parallel Q (setSelector n selector) (setSelector n selector) := fun s io h => by
  have hsegment : (s.withIo io).segmentFor n selector = s.segmentFor n selector := rfl
  have hio : Q (s.consulted selector).io io := (FaultResidue.consulted s selector).io ▸ h
  rw [run_setSelector, run_setSelector, hsegment, System.consulted_withIo]
  cases s.segmentFor n selector with
  | error f => exact .error f _ io hio
  | ok g => exact .ok () _ io hio

theorem parallel_farTransfer (selector : UInt16) (offset : UInt32) :
    Parallel Q (farTransfer selector offset) (farTransfer selector offset) := fun s io h => by
  have htarget : (s.withIo io).synced.targetFor selector offset =
      s.synced.targetFor selector offset := rfl
  have hconsulted : (s.withIo io).synced.consulted selector =
      (s.synced.consulted selector).withIo io := s.synced.consulted_withIo io selector
  have hio : Q (s.synced.consulted selector).io io :=
    (FaultResidue.consulted s.synced selector).io ▸ h
  rw [run_farTransfer, run_farTransfer, htarget, hconsulted]
  cases s.synced.targetFor selector offset with
  | error f => exact .error f _ io hio
  | ok p => exact .ok () _ io hio

theorem parallel_nearTransfer (target : UInt32) :
    Parallel Q (nearTransfer target) (nearTransfer target) := fun s io h => by
  have hsynced : (s.withIo io).synced = s.synced.withIo io := rfl
  rw [run_nearTransfer, run_nearTransfer, hsynced, System.cpu_withIo]
  split_ifs
  · exact .error _ _ io h
  · exact .ok () _ io h

theorem parallel_deliver (v : UInt8) (returnEip : UInt32) :
    Parallel Q (deliver v returnEip) (deliver v returnEip) := fun s io h => by
  have hgate : (s.withIo io).synced.gateFor v = s.synced.gateFor v := rfl
  have hgated : (s.withIo io).synced.gated v = (s.synced.gated v).withIo io :=
    s.synced.gated_withIo io v
  have hio : Q (s.synced.gated v).io io := (FaultResidue.gated s.synced v).io ▸ h
  rw [run_deliver, run_deliver, hgate, hgated]
  cases s.synced.gateFor v with
  | error f => exact .error f _ io hio
  | ok g =>
    rw [← System.io_enterGate _ g returnEip] at hio
    dsimp only
    rw [System.enterGate_withIo]
    exact .ok () _ io hio

theorem parallel_interruptReturn (w : Width) :
    Parallel Q (interruptReturn w) (interruptReturn w) :=
  .get_bind fun _ _ _ => (parallel_farTransfer _ _).bind fun _ => .modifyCpu _

end Exec

end Ia32
