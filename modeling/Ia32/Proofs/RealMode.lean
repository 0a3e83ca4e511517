/-
  Real mode: as long as the protection bit stays clear, the segment registers are windows of 64 KiB,
  and few faults can be raised.

  Main definitions:
  - `Cpu.InRealMode` : the registers of a processor that has never seen the protection bit
  - `Fault.OfRealMode` : the faults that remain
  - `Machine.StaysReal` : the machines reached from a reset with the protection bit clear throughout

  Main statements:
  - `Exec.Guarded.ofRealMode`, `Exec.ofRealMode_step` : which faults operations and cycles raise
  - `Cpu.InRealMode.of_turned` : a turn that leaves the protection bit clear leaves real mode in force
  - `Machine.realMode_of_staysReal`
-/
import Ia32.Proofs.Fetch
import Ia32.Proofs.Turn

namespace Ia32

variable {δ : Type}

/-- The protection bit is clear, and so it was when the mode was last sampled; every segment register
stands for the window of its selector. -/
structure Cpu.InRealMode (c : Cpu) : Prop where
  disabled : c.protectionEnabled = false
  mode : c.protectedMode = false
  segments : ∀ n, c.segment n = .realMode (c.selector n) (n == .cs)
  eip : c.eip ≤ 0xFFFF

namespace Cpu.InRealMode

variable {c : Cpu} {s t : System δ}

theorem reset (v : ResetVector) :
    (Cpu.reset.jump ⟨.realMode v.segment true, v.offset.toUInt32⟩).InRealMode where
  disabled := (by decide : Cpu.reset.protectionEnabled = false)
  mode := rfl
  segments n := by cases n <;> rfl
  eip := UInt16.toUInt32_le_max v.offset

/-- Sampling the mode changes nothing. -/
theorem syncMode (h : c.InRealMode) : c.syncMode = c := by
  unfold Cpu.syncMode
  rw [h.disabled, ← h.mode]

theorem synced (h : s.cpu.InRealMode) : s.synced = s := by
  rw [System.synced, System.modifyCpu, h.syncMode]

/-- A window is sixteen bits wide, and begins at sixteen times its selector. -/
theorem window (h : c.InRealMode) (n : SegmentName) :
    (c.segment n).descriptor.base.toNat = 16 * (c.selector n).toNat ∧
      (c.segment n).descriptor.limit = 0xFFFF ∧ (c.segment n).descriptor.wide = false := by
  have hbase (x : UInt16) : (x.toUInt32 <<< 4).toNat = 16 * x.toNat := by
    have := x.toNat_lt
    rw [UInt32.toNat_shiftLeft, UInt16.toNat_toUInt32, Nat.shiftLeft_eq, Nat.mod_eq_of_lt]
    · change x.toNat * 16 = _
      omega
    · change x.toNat * 16 < _
      omega
  rw [h.segments n]
  exact ⟨hbase _, rfl, rfl⟩

theorem ipMask (h : c.InRealMode) : c.ipMask = 0xFFFF :=
  if_neg (Bool.eq_false_iff.1 (h.window .cs).2.2)

/-! ## What keeps real mode in force -/

theorem of_residue (h : s.cpu.InRealMode) (hr : FaultResidue s t) : t.cpu = s.cpu :=
  hr.cpu.elim id fun e => e.trans h.syncMode

theorem of_loads {n : SegmentName} (h : n.Loads false (c.segment n)) :
    c.segment n = .realMode (c.selector n) (n == .cs) := h

theorem of_transfer (h : s.cpu.InRealMode) (ht : Transfer s t) : t.cpu.InRealMode := by
  have hdisabled : t.cpu.protectionEnabled = false := by
    rw [← h.disabled, Cpu.protectionEnabled, Cpu.cr0, ht.control]
    rfl
  have hmode : t.cpu.protectedMode = false := ht.mode.trans hdisabled
  have hsegments (n : SegmentName) :
      t.cpu.segment n = .realMode (t.cpu.selector n) (n == .cs) := by
    rcases ht.segment n with e | hloads
    · rw [Cpu.selector, e]; exact h.segments n
    · rw [hmode] at hloads; exact of_loads hloads
  have hmask : t.cpu.ipMask = 0xFFFF := by
    change (if (t.cpu.segment .cs).descriptor.wide then _ else _) = _
    rw [hsegments .cs]
    rfl
  exact ⟨hdisabled, hmode, hsegments, hmask ▸ ht.eip⟩

/-- An instruction may set the protection bit; if it does not, it cannot leave real mode. -/
theorem of_cycled {e : CycleExit} (h : s.cpu.InRealMode) (hc : Cycled s e t)
    (hdisabled : t.cpu.protectionEnabled = false) : t.cpu.InRealMode := by
  have hnext (length : UInt8) : s.cpu.nextOffset length ≤ 0xFFFF :=
    h.ipMask ▸ UInt32.and_le _ _
  cases hc with
  | idle => exact h
  | @interrupted _ u _ moved =>
    have hu : u.cpu.InRealMode := h.of_transfer moved
    exact hu
  | branched _ moved => exact h.of_transfer moved
  | halted => exact ⟨h.disabled, h.mode, h.segments, hnext _⟩
  | @retired _ u _ kept =>
    refine ⟨hdisabled, kept.mode.trans h.mode, fun n => ?_, hnext _⟩
    change u.cpu.segment n = .realMode (u.cpu.selector n) (n == .cs)
    rcases kept.segments n with e | ⟨-, hloads⟩
    · rw [Cpu.selector, e]; exact h.segments n
    · rw [h.mode] at hloads; exact of_loads hloads

theorem of_turned (h : s.cpu.InRealMode) (ht : Turned s t)
    (hdisabled : t.cpu.protectionEnabled = false) : t.cpu.InRealMode := by
  cases ht with
  | cycled hc => exact h.of_cycled hc hdisabled
  | faulted hr => rw [h.of_residue hr]; exact h
  | @refused u _ hr hr' =>
    have hu : u.cpu = s.cpu := h.of_residue hr
    rw [of_residue (hu ▸ h) hr', hu]
    exact h
  | @entered v u _ hr hd =>
    have hu : u.cpu.InRealMode := h.of_residue hr ▸ h
    exact hu.of_transfer (Exec.transfers_deliver v _ u () t hd)

end Cpu.InRealMode

/-! ## Faults -/

/-- The faults that can be raised in real mode; a vector lies beyond its table only if the table has
room for less than 256 of them. -/
def Fault.OfRealMode (idtr : TableRegister) (f : Fault) : Prop :=
  f = .divideError ∨ f = .invalidOpcode ∨ f = .haltWithInterruptsDisabled ∨
    f = .generalProtection 0 .vectorTableLimit ∧ idtr.limit < 0x3FF

namespace Exec

variable {α : Type} {s t : System δ} {f : Fault}

theorem ofRealMode_deliver {v : UInt8} {returnEip : UInt32} (hs : s.cpu.InRealMode)
    (h : (deliver v returnEip).run s = .error f t) : f.OfRealMode s.cpu.idtr := by
  rw [run_deliver, hs.synced, System.gateFor, hs.mode, if_neg Bool.false_ne_true] at h
  unfold System.vectorGate at h
  dsimp only at h
  split_ifs at h with hlimit
  · cases h
    refine .inr (.inr (.inr ⟨rfl, ?_⟩))
    -- the last vector ends at 0x3FF
    have hv := v.toNat_lt
    have hend : s.cpu.idtr.limit.toNat < 4 * v.toNat + 3 :=
      (System.limit_lt_slotEnd_iff _ _ (by decide)).1 hlimit
    rw [UInt16.lt_iff_toNat_lt]
    change s.cpu.idtr.limit.toNat < 0x3FF
    omega

/-- Selectors and transfers of control are never refused. -/
theorem Guarded.ofRealMode {x : Exec δ α} (hx : Guarded x) (hs : s.cpu.InRealMode)
    (h : x.run s = .error f t) : f.OfRealMode s.cpu.idtr := by
  induction hx with
  | of_total hx => obtain ⟨a, u, hu⟩ := hx s; rw [hu] at h; cases h
  | halt => cases h; exact .inr (.inr (.inl rfl))
  | @divide _ r hr =>
    cases r with
    | ok a => cases h
    | error g => cases h; exact .inl (hr _ rfl)
  | select n selector =>
    rw [run_setSelector, System.segmentFor, hs.mode, if_neg Bool.false_ne_true] at h
    cases h
  | far selector offset =>
    rw [run_farTransfer, hs.synced, System.targetFor, hs.mode, if_neg Bool.false_ne_true] at h
    cases h
  | near target =>
    rw [run_nearTransfer, hs.synced, hs.mode, Bool.false_and, if_neg Bool.false_ne_true] at h
    cases h
  | enter v returnEip => exact ofRealMode_deliver hs h
  | reads_bind hx _ ih =>
    obtain ⟨r, hr, -⟩ := hx
    rw [run_bind_of_ok (hr s)] at h
    exact ih _ h
  | get_bind _ _ ih => exact ih s h
  | @bind_total _ _ x g hx hg ih =>
    cases e : x.run s with
    | ok a u =>
      obtain ⟨b, v, hv⟩ := hg a u
      rw [run_bind_of_ok e, hv] at h
      cases h
    | error g' u =>
      rw [run_bind_of_error e] at h
      cases h
      exact ih e

theorem ofRealMode_step (hs : s.cpu.InRealMode)
    (h : (step : Exec δ CycleExit).run s = .error f t) : f.OfRealMode s.cpu.idtr := by
  cases hlatch : s.io.latch with
  | some v => exact ofRealMode_deliver hs (refused_of_cycle hlatch h)
  | none =>
    cases hhalted : s.cpu.halted with
    | true => rw [run_step_of_idle hlatch hhalted] at h; cases h
    | false =>
      rw [run_step_of_ready hlatch hhalted] at h
      cases hfetch : s.fetch with
      | ok i =>
        rw [hfetch] at h
        exact (guarded_execute (System.wellFormed_of_fetch hfetch)).ofRealMode hs h
      | error g =>
        rw [hfetch] at h
        cases h
        have hlimit : s.cpu.codeLimit = 0xFFFF := (hs.window .cs).2.1
        rw [System.fetch_eq, hlimit, if_neg (UInt32.not_lt.2 hs.eip)] at hfetch
        split at hfetch <;> cases hfetch
        exact .inr (.inl rfl)

end Exec

/-! ## Machines -/

namespace Machine

variable {m : Machine δ}

/-- The machines reached from a reset by cycles and runs that leave the protection bit clear, with
arbitrary changes in between to everything but the registers: memory, devices, requests, breakpoints
and the fault policy. -/
inductive StaysReal : Machine δ → Prop
  | reset (m : Machine δ) : StaysReal m.reset
  | step {m : Machine δ} (h : StaysReal m)
      (disabled : m.step.2.system.cpu.protectionEnabled = false) : StaysReal m.step.2
  | run {m : Machine δ} (h : StaysReal m) (n : Nat)
      (disabled : ∀ k ≤ n, (m.run k).2.system.cpu.protectionEnabled = false) :
      StaysReal (m.run n).2
  | edit {m m' : Machine δ} (h : StaysReal m) (hcpu : m'.system.cpu = m.system.cpu) : StaysReal m'

theorem inRealMode_step (h : m.system.cpu.InRealMode)
    (hdisabled : m.step.2.system.cpu.protectionEnabled = false) :
    m.step.2.system.cpu.InRealMode := h.of_turned m.turned_step hdisabled

theorem inRealMode_run (h : m.system.cpu.InRealMode) {n : Nat}
    (hdisabled : ∀ k ≤ n, (m.run k).2.system.cpu.protectionEnabled = false) :
    (m.run n).2.system.cpu.InRealMode := by
  induction n with
  | zero => exact h
  | succ n ih =>
    have hn := ih fun k hk => hdisabled k (Nat.le_succ_of_le hk)
    have hlast := hdisabled (n + 1) (Nat.le_refl _)
    rcases m.run_succ n with e | e
    · rw [e]; exact hn
    · rw [e] at hlast ⊢; exact hn.of_turned (turned_turn _) hlast

theorem inRealMode_of_staysReal (h : m.StaysReal) : m.system.cpu.InRealMode := by
  induction h with
  | reset m => exact .reset m.config.resetVector
  | step _ hdisabled ih => exact inRealMode_step ih hdisabled
  | run _ n hdisabled ih => exact inRealMode_run ih hdisabled
  | edit _ hcpu ih => rw [hcpu]; exact ih

/-- A fault that a turn leaves to its run comes from its cycle, or from the attempt to deliver that
one. -/
theorem ofRealMode_turn {f : Fault} {counted : Bool} (hm : m.system.cpu.InRealMode)
    (h : m.turn.1 = .finish (.exception f) counted) : f.OfRealMode m.system.cpu.idtr := by
  cases e : Exec.step.run m.system with
  | ok a t =>
    rw [turn_of_ok e] at h
    cases a <;> cases h
  | error g t =>
    have hg := Exec.ofRealMode_step hm e
    have hcpu : t.cpu = m.system.cpu := hm.of_residue (Exec.faultAtomic_step _ g t e).2.1
    rw [turn_of_error e] at h
    rcases Exec.run_absorb m.config.faultPolicy g t with habsorb | ⟨v, -, -, habsorb⟩
    · rw [habsorb] at h
      cases h
      exact hg
    · rw [habsorb] at h
      cases hd : (Exec.deliver v t.cpu.eip).run t with
      | ok a u => rw [hd] at h; cases h
      | error g' u =>
        rw [hd] at h
        cases h
        rw [← hcpu] at hm ⊢
        exact Exec.ofRealMode_deliver hm hd

/-- **Real mode.**  While the protection bit has been clear since the reset, real mode is in force,
every segment register is a sixteen-bit window of 64 KiB at sixteen times its selector, EIP lies in
the window, and cycles raise no faults of segments, whether they end a run or not. -/
theorem realMode_of_staysReal (h : m.StaysReal) :
    m.system.cpu.protectedMode = false ∧
    (∀ n, (m.system.cpu.segment n).descriptor.base.toNat = 16 * (m.system.cpu.selector n).toNat ∧
      (m.system.cpu.segment n).descriptor.limit = 0xFFFF ∧
      (m.system.cpu.segment n).descriptor.wide = false) ∧
    m.system.cpu.eip ≤ 0xFFFF ∧
    (∀ f, m.step.1 = .error f → f.OfRealMode m.system.cpu.idtr) ∧
    ∀ f counted, m.turn.1 = .finish (.exception f) counted → f.OfRealMode m.system.cpu.idtr := by
  have hm := inRealMode_of_staysReal h
  refine ⟨hm.mode, hm.window, hm.eip, fun f hf => ?_, fun f counted => ofRealMode_turn hm⟩
  cases e : Exec.step.run m.system with
  | ok a t => rw [step_of_ok e] at hf; cases hf
  | error g t =>
    rw [step_of_error e] at hf
    cases hf
    exact Exec.ofRealMode_step hm e

/-- A machine with `div al` at its reset vector, and nothing else in memory. -/
def dividing : Machine Unit where
  config := { memorySize := realModeSpan, faultPolicy := .deliver }
  system := ⟨Cpu.reset, (Ram.zeroed realModeSpan).writeBytes 0xFFFF0 [0xF6, 0xF0], Io.init ()⟩
  breakpoints := ∅
  gateOpen := true

/-- It divides by zero, and its guest goes on in real mode. -/
theorem realMode_dividing :
    let m := dividing.reset
    m.StaysReal ∧ m.step.1 = .error .divideError ∧
      Fault.divideError.OfRealMode m.system.cpu.idtr ∧
      (m.run 1).2.StaysReal ∧ (m.run 1).1 = ⟨.completed, 1⟩ ∧
      (m.run 1).2.system.cpu.protectedMode = false := by
  have hreset : dividing.reset.StaysReal := .reset dividing
  have hrun : (dividing.reset.run 1).2.StaysReal := hreset.run 1 fun k hk => by
    rcases Nat.le_one_iff_eq_zero_or_eq_one.1 hk with rfl | rfl
    · decide +kernel
    · decide +kernel
  have hstep : dividing.reset.step.1 = .error .divideError := by decide +kernel
  exact ⟨hreset, hstep, (realMode_of_staysReal hreset).2.2.2.1 _ hstep, hrun, by decide +kernel,
    (realMode_of_staysReal hrun).1⟩

end Machine

end Ia32
