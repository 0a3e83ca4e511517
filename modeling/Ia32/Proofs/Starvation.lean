/-
  Interrupts that cannot be delivered.

  A request stays latched until it has been delivered, and it goes before instructions.  If its
  delivery faults and the guest is to deal with faults, then the guest enters its handler of the
  fault, but before the first instruction of the handler the delivery is tried again.

  Main definitions:
  - `Cpu.Beyond` : a vector that the interrupt table has no room for
  - `System.Retried` : attempts to deliver an interrupt, each of which ends in the handler of a fault

  Main statements:
  - `System.run_deliver_of_beyond` : the fault of such a vector
  - `Machine.turn_of_latched` : a turn that finds an interrupt latched
  - `System.Retried.level` : each attempt counts as an interrupt entered
  - `Machine.retried_of_completed` : runs that find an interrupt latched
-/
import Ia32.Proofs.RoundTrip
import Ia32.Proofs.Turn

namespace Ia32

variable {δ : Type}

open Exec

/-! ## Vectors beyond the table -/

/-- The entry of vector `v` does not end within the interrupt table. -/
def Cpu.Beyond (c : Cpu) (v : UInt8) : Prop :=
  c.idtr.limit.toNat < if c.protectionEnabled then 8 * v.toNat + 7 else 4 * v.toNat + 3

instance (c : Cpu) (v : UInt8) : Decidable (c.Beyond v) := inferInstanceAs (Decidable (_ < _))

/-- The fault that such a vector raises. -/
def Cpu.tableFault (c : Cpu) (v : UInt8) : Fault :=
  if c.protectionEnabled then .generalProtection (v.toUInt32 * 8 + 2).toUInt16 .gateTableLimit
  else .generalProtection 0 .vectorTableLimit

namespace System

variable {s t : System δ} {v : UInt8}

theorem gateEntry_of_beyond (h : s.cpu.idtr.limit.toNat < 8 * v.toNat + 7) :
    s.gateEntry v =
      .error (.generalProtection (v.toUInt32 * 8 + 2).toUInt16 .gateTableLimit) :=
  if_pos ((limit_lt_slotEnd_iff _ _ (by decide)).2 h)

theorem vectorGate_of_beyond (h : s.cpu.idtr.limit.toNat < 4 * v.toNat + 3) :
    s.vectorGate v = .error (.generalProtection 0 .vectorTableLimit) :=
  if_pos ((limit_lt_slotEnd_iff _ _ (by decide)).2 h)

/-- Nothing but the mode in force changes. -/
theorem run_deliver_of_beyond (h : s.cpu.Beyond v) (returnEip : UInt32) :
    (deliver v returnEip).run s = .error (s.cpu.tableFault v) s.synced := by
  have hmode : s.synced.cpu.protectedMode = s.cpu.protectionEnabled := rfl
  rw [run_deliver, gateFor, gated, hmode]
  unfold Cpu.Beyond at h
  unfold Cpu.tableFault
  cases hp : s.cpu.protectionEnabled with
  | true =>
    rw [hp] at h
    have hentry := gateEntry_of_beyond (s := s.synced) h
    simp only [↓reduceIte, hentry]
  | false =>
    rw [hp] at h
    have hgate := vectorGate_of_beyond (s := s.synced) h
    simp only [Bool.false_eq_true, ↓reduceIte, hgate]

end System

/-- The table stays where it is. -/
theorem Cpu.Beyond.of_eq {c d : Cpu} {v : UInt8} (h : c.Beyond v) (hcontrol : d.control = c.control)
    (hidtr : d.idtr = c.idtr) : d.Beyond v := by
  unfold Beyond protectionEnabled cr0 at *
  rw [hcontrol, hidtr]
  exact h

theorem Cpu.tableFault_of_eq {c d : Cpu} (h : d.control = c.control) (v : UInt8) :
    d.tableFault v = c.tableFault v := by
  unfold tableFault protectionEnabled cr0
  rw [h]

/-! ## Attempts -/

/-- From `s` on, the delivery of `v` has been tried `k` times; each time it has raised a fault, of
which the guest has entered its handler. -/
inductive System.Retried (v : UInt8) (s : System δ) : Nat → System δ → Prop
  | zero : Retried v s 0 s
  | succ {k : Nat} {t u x : System δ} {f : Fault} {w : UInt8} (h : Retried v s k t)
      (refused : (deliver v t.cpu.eip).run t = .error f u) (vector : f.vector? = some w)
      (entered : (deliver w u.cpu.eip).run u = .ok () x) : Retried v s (k + 1) x

/-- Entering a handler is counted, as far as the counter goes. -/
theorem Exec.level_of_deliver {v : UInt8} {returnEip : UInt32} {s t : System δ}
    (h : (deliver v returnEip).run s = .ok () t) :
    t.cpu.interruptLevel.toNat = min (s.cpu.interruptLevel.toNat + 1) 0xFFFFFFFF := by
  rw [run_deliver] at h
  cases e : s.synced.gateFor v with
  | error f => rw [e] at h; cases h
  | ok g =>
    rw [e] at h
    cases h
    have hlevel : ((s.synced.gated v).enterGate g returnEip).cpu.interruptLevel =
        if s.cpu.interruptLevel = 0xFFFFFFFF then s.cpu.interruptLevel
        else s.cpu.interruptLevel + 1 := by
      rw [System.cpu_enterGate, System.cpu_gated]
      rfl
    have hlt := s.cpu.interruptLevel.toNat_lt
    rw [hlevel]
    split_ifs with hmax
    · rw [hmax]; rfl
    · have hne : s.cpu.interruptLevel.toNat ≠ 0xFFFFFFFF := fun e =>
        hmax (UInt32.toNat_inj.1 e)
      rw [UInt32.toNat_add]
      change (s.cpu.interruptLevel.toNat + 1) % 4294967296 = _
      omega

namespace System.Retried

variable {s t : System δ} {v : UInt8} {k : Nat}

/-- Devices and latch have no part in it, and neither have the registers that say where the
interrupt table is. -/
theorem kept (h : s.Retried v k t) :
    t.io = s.io ∧ t.cpu.control = s.cpu.control ∧ t.cpu.idtr = s.cpu.idtr := by
  induction h with
  | zero => exact ⟨rfl, rfl, rfl⟩
  | @succ _ t u x f w _ hrefused _ hentered ih =>
    obtain ⟨hio, hcontrol, hidtr⟩ := ih
    have hres := (faultAtomic_deliver v _ t f u hrefused).2.1
    have hmoved := transfers_deliver w _ u () x hentered
    have hcpu : u.cpu.control = t.cpu.control ∧ u.cpu.idtr = t.cpu.idtr := by
      rcases hres.cpu with e | e <;> (rw [e]; exact ⟨rfl, rfl⟩)
    exact ⟨hmoved.io.trans (hres.io.trans hio), hmoved.control.trans (hcpu.1.trans hcontrol),
      hmoved.idtr.trans (hcpu.2.trans hidtr)⟩

/-- Each attempt is one more interrupt entered and not left. -/
theorem level (h : s.Retried v k t) :
    t.cpu.interruptLevel.toNat = min (s.cpu.interruptLevel.toNat + k) 0xFFFFFFFF := by
  induction h with
  | zero =>
    have := s.cpu.interruptLevel.toNat_lt
    omega
  | @succ k t u x f w _ hrefused _ hentered ih =>
    have hlevel : u.cpu.interruptLevel = t.cpu.interruptLevel := by
      rcases (faultAtomic_deliver v _ t f u hrefused).2.1.cpu with e | e
      · rw [e]
      · rw [e]; rfl
    rw [level_of_deliver hentered, hlevel, ih]
    omega

end System.Retried

/-! ## Runs -/

namespace Machine

variable {m : Machine δ} {v : UInt8} {n : Nat}

/-- A turn that finds an interrupt latched delivers it or enters the handler of the fault that its
delivery raises, if the run goes on at all. -/
theorem turn_of_latched (hlatch : m.system.io.latch = some v) (h : m.turn.1 = .proceed) :
    (∃ u, (deliver v m.system.cpu.eip).run m.system = .ok () u ∧
      m.turn.2.system = { u with io.latch := none }) ∨
    ∃ f u w x, (deliver v m.system.cpu.eip).run m.system = .error f u ∧ f.vector? = some w ∧
      (deliver w u.cpu.eip).run u = .ok () x ∧ m.turn.2.system = x := by
  cases hstep : Exec.step.run m.system with
  | ok e t =>
    obtain ⟨u, hd, -, rfl⟩ := delivered_of_cycle hlatch hstep
    exact .inl ⟨u, hd, by rw [turn_of_ok hstep]⟩
  | error f u =>
    have hd := refused_of_cycle hlatch hstep
    rw [turn_of_error hstep] at h ⊢
    rcases run_absorb m.config.faultPolicy f u with e | ⟨w, -, hvector, e⟩
    · rw [e] at h
      cases h
    · rw [e] at h ⊢
      cases hentered : (deliver w u.cpu.eip).run u with
      | ok _ x => exact .inr ⟨f, u, w, x, hd, hvector, hentered, rfl⟩
      | error g x => rw [hentered] at h; cases h

/-- A run that finds an interrupt latched tries to deliver it in every cycle until it succeeds, or
until the run ends. -/
theorem retried_run (hlatch : m.system.io.latch = some v) (h : (m.run n).1.exit = .completed) :
    m.system.Retried v n (m.run n).2.system ∨
    ∃ k < n, ∃ t u, m.system.Retried v k t ∧ (deliver v t.cpu.eip).run t = .ok () u ∧
      (m.run (k + 1)).2.system = { u with io.latch := none } := by
  induction n with
  | zero => exact .inl .zero
  | succ n ih =>
    obtain ⟨hcompleted, hturn⟩ := turn_of_completed h
    rcases ih hcompleted with hretried | ⟨k, hk, t, u, hretried, hd, hsystem⟩
    · have hstill : (m.run n).2.system.io.latch = some v := by rw [hretried.kept.1, hlatch]
      have hproceed : (m.run n).2.turn.1 = .proceed := by rw [hturn]
      have hsystem : (m.run n).2.turn.2.system = (m.run (n + 1)).2.system := by rw [hturn]
      rcases turn_of_latched hstill hproceed with ⟨u, hd, e⟩ | ⟨f, u, w, x, hd, hw, hx, e⟩
      · exact .inr ⟨n, Nat.lt_succ_self n, _, u, hretried, hd, hsystem ▸ e⟩
      · rw [← hsystem, e]
        exact .inl (hretried.succ hd hw hx)
    · exact .inr ⟨k, Nat.lt_succ_of_lt hk, t, u, hretried, hd, hsystem⟩

/-- **A latched interrupt that cannot be delivered starves the guest.**  As long as the run goes on,
each cycle either delivers the interrupt at last or enters the handler of a fault once more, and no
instruction is carried out before it has been delivered.  A vector beyond the interrupt table is
never delivered: after any number of cycles it is still latched, the next cycle faults with it
again, and as many interrupts have been entered and not left. -/
theorem retried_of_completed (hlatch : m.system.io.latch = some v)
    (h : (m.run n).1.exit = .completed) :
    (m.system.Retried v n (m.run n).2.system ∨
      ∃ k < n, ∃ t u, m.system.Retried v k t ∧ (deliver v t.cpu.eip).run t = .ok () u ∧
        (m.run (k + 1)).2.system = { u with io.latch := none }) ∧
    (m.system.cpu.Beyond v →
      m.system.Retried v n (m.run n).2.system ∧ (m.run n).2.system.io.latch = some v ∧
      (m.run n).2.step.1 = .error (m.system.cpu.tableFault v) ∧
      (m.run n).2.system.cpu.interruptLevel.toNat =
        min (m.system.cpu.interruptLevel.toNat + n) 0xFFFFFFFF) := by
  have hrun := retried_run hlatch h
  refine ⟨hrun, fun hbeyond => ?_⟩
  have hrefused {k : Nat} {t : System δ} (ht : m.system.Retried v k t) :
      (deliver v t.cpu.eip).run t = .error (m.system.cpu.tableFault v) t.synced := by
    obtain ⟨-, hcontrol, hidtr⟩ := ht.kept
    rw [System.run_deliver_of_beyond (hbeyond.of_eq hcontrol hidtr),
      Cpu.tableFault_of_eq hcontrol]
  rcases hrun with hretried | ⟨k, -, t, u, hretried, hd, -⟩
  · have hstill : (m.run n).2.system.io.latch = some v := by rw [hretried.kept.1, hlatch]
    have hstep : Exec.step.run (m.run n).2.system = _ := run_cycleWith_of_latched hstill _
    rw [hrefused hretried] at hstep
    exact ⟨hretried, hstill, by rw [step_of_error hstep], hretried.level⟩
  · rw [hrefused hretried] at hd
    cases hd

/-- A machine in real mode whose vector table has room for sixteen vectors, and vector 32 latched.
The handler of general-protection faults begins with `nop`. -/
def starving : Machine Unit where
  config := { memorySize := realModeSpan, faultPolicy := .deliver }
  system :=
    { cpu := { (Cpu.reset.setLow .esp .dword 0x8000).jump (realTarget 0xF000 0xFFF0) with
        idtr := ⟨0, 63⟩ }
      ram := ((Ram.zeroed realModeSpan).writeBytes 52 [0, 1, 0, 0]).writeBytes 0x100 [0x90, 0x90]
      io := (Io.init ()).request 32 }
  breakpoints := ∅
  gateOpen := true

/-- One request is the cause of two entries into the handler, whose first instruction is not carried
out in between. -/
theorem starving_reenters :
    let m := starving.turn.2
    starving.step.1 = .error (.generalProtection 0 .vectorTableLimit) ∧
    starving.turn.1 = .proceed ∧ m.system.cpu.eip = 0x100 ∧ m.system.cpu.interruptLevel = 1 ∧
    m.step.1 = .error (.generalProtection 0 .vectorTableLimit) ∧
    m.turn.1 = .proceed ∧ m.turn.2.system.cpu.eip = 0x100 ∧
    m.turn.2.system.cpu.interruptLevel = 2 := by
  decide +kernel

/-- After five cycles the handler has been entered five times. -/
theorem retried_starving :
    starving.system.io.latch = some 32 ∧ (starving.run 5).1.exit = .completed ∧
      starving.system.Retried 32 5 (starving.run 5).2.system ∧
      (starving.run 5).2.step.1 = .error (.generalProtection 0 .vectorTableLimit) ∧
      (starving.run 5).2.system.cpu.interruptLevel.toNat = 5 := by
  have hcompleted : (starving.run 5).1.exit = .completed := by decide +kernel
  have hbeyond : starving.system.cpu.Beyond 32 := by decide +kernel
  obtain ⟨hretried, -, hstep, hlevel⟩ := (retried_of_completed rfl hcompleted).2 hbeyond
  exact ⟨rfl, hcompleted, hretried, hstep, hlevel⟩

end Machine

end Ia32
