/-
  Where the bytes of an instruction come from.

  An instruction has between one and fifteen bytes.  Of those at CS:EIP only the first is held
  against the limit of the code segment, so an instruction that begins within the segment may end
  up to fourteen bytes beyond it.

  Main definitions:
  - `Cpu.codeLimit` : the last valid offset of code
  - `System.instructionAt` : the instruction at CS:EIP, whatever the limit

  Main statements:
  - `System.fetch_eq` : fetching looks at the limit once
  - `Exec.step_of_ready` : a cycle that is neither interrupted nor halted
-/
import Ia32.Proofs.AtomicExecution
import Ia32.Proofs.Locality

namespace Ia32

/-! ## Fetching -/

/-- The last valid offset of code. -/
def Cpu.codeLimit (c : Cpu) : UInt32 := c.segments.cs.descriptor.limit

namespace System

variable {δ : Type} {s : System δ}

/-- The instruction at CS:EIP, whatever the limit of the code segment. -/
def instructionAt (s : System δ) : Except DecodeError Instruction :=
  Instruction.decode
    (s.ram.readBytes (s.cpu.linear .cs s.cpu.eip).toUInt64 maxInstructionLength)
    s.cpu.segments.cs.descriptor.wide s.cpu.eip

/-- The system with another limit of its code segment. -/
def withCodeLimit (s : System δ) (l : UInt32) : System δ :=
  s.modifyCpu fun c =>
    { c with segments.cs.descriptor := { c.segments.cs.descriptor with limit := l } }

theorem codeLimit_withCodeLimit (s : System δ) (l : UInt32) :
    (s.withCodeLimit l).cpu.codeLimit = l := rfl

/-- The bytes of the instruction do not depend on the limit. -/
theorem instructionAt_withCodeLimit (s : System δ) (l : UInt32) :
    (s.withCodeLimit l).instructionAt = s.instructionAt := rfl

/-- The limit is held against the first byte. -/
theorem fetch_eq (s : System δ) : s.fetch =
    if s.cpu.codeLimit < s.cpu.eip then .error (.generalProtection 0 .fetchLimit)
    else match s.instructionAt with
      | .ok i => .ok i
      | .error _ => .error .invalidOpcode := by
  unfold fetch fetchBy Cpu.codeAddress
  change Except.bind (if s.cpu.codeLimit < s.cpu.eip then _ else _) _ = _
  split_ifs
  · rfl
  · rfl

theorem length_of_fetch {i : Instruction} (h : s.fetch = .ok i) :
    0 < i.length.toNat ∧ i.length.toNat ≤ maxInstructionLength := by
  obtain ⟨a, -, hdecode⟩ := decode_of_fetchBy h
  exact Instruction.length_of_decode hdecode

end System

namespace Exec

variable {δ : Type} {s : System δ}

/-- **Only the first byte of an instruction is held against the limit of the code segment.**  Beyond
the limit nothing is carried out and nothing changes.  Within it, the same instruction is fetched
whatever the limit; it may end beyond the limit, but by no more than fourteen bytes. -/
theorem step_of_ready (hlatch : s.io.latch = none) (hready : s.cpu.halted = false) :
    (s.cpu.codeLimit < s.cpu.eip →
      (step : Exec δ CycleExit).run s = .error (.generalProtection 0 .fetchLimit) s) ∧
    (s.cpu.eip ≤ s.cpu.codeLimit →
      ∀ l, s.cpu.eip ≤ l → (s.withCodeLimit l).fetch = s.fetch) ∧
    ∀ e t, (step : Exec δ CycleExit).run s = .ok e t → ∃ i, s.fetch = .ok i ∧
      (execute i).run s = .ok e t ∧ s.cpu.eip ≤ s.cpu.codeLimit ∧ 0 < i.length.toNat ∧
      ∀ k < i.length.toNat, s.cpu.eip.toNat + k ≤ s.cpu.codeLimit.toNat + 14 := by
  have hfetch := s.fetch_eq
  rw [run_step_of_ready hlatch hready]
  refine ⟨fun hbeyond => ?_, fun hwithin l hl => ?_, fun e t h => ?_⟩
  · rw [if_pos hbeyond] at hfetch
    rw [hfetch]
  · rw [if_neg (UInt32.not_lt.2 hwithin)] at hfetch
    rw [hfetch, System.fetch_eq, System.codeLimit_withCodeLimit,
      System.instructionAt_withCodeLimit]
    exact if_neg (UInt32.not_lt.2 hl)
  · cases hi : s.fetch with
    | error f => rw [hi] at h; cases h
    | ok i =>
      rw [hi] at h
      have hwithin : s.cpu.eip ≤ s.cpu.codeLimit := by
        by_contra hbeyond
        rw [if_pos (UInt32.not_le.1 hbeyond), hi] at hfetch
        cases hfetch
      obtain ⟨hpos, hmax⟩ := System.length_of_fetch hi
      refine ⟨i, rfl, h, hwithin, hpos, fun k hk => ?_⟩
      have hle := UInt32.le_iff_toNat_le.1 hwithin
      unfold maxInstructionLength at hmax
      omega

/-- A system in real mode at the last offset of its code segment.  Two bytes of an instruction are
there, `mov al, 55`, of which the second lies beyond the limit. -/
def straddling : System Unit where
  cpu := { Cpu.reset with eip := 0xFFFF }
  ram := (Ram.zeroed 0x20000).writeBytes 0xFFFF [0xB0, 0x55]
  io := Io.init ()

/-- The instruction is carried out although its second byte lies beyond the limit. -/
theorem step_straddling_retires :
    let s := straddling
    s.io.latch = none ∧ s.cpu.halted = false ∧
      ∃ i t, s.fetch = .ok i ∧ i.length.toNat = 2 ∧ s.cpu.codeLimit.toNat < s.cpu.eip.toNat + 1 ∧
        (step : Exec Unit CycleExit).run s = .ok .retired t ∧ t.cpu.gprs.eax = 0x55 := by
  have hfetch : straddling.fetch = .ok
      { Instruction.ofOperands (.transfer .mov)
          [.register (.general 0 .byte), .immediate 0x55 .byte] 2 with dataWidth := .byte } := by
    decide +kernel
  exact ⟨rfl, rfl, _, _, hfetch, rfl, by decide, run_of_answer (by decide +kernel),
    by decide +kernel⟩

/-- A cycle at the limit. -/
theorem step_straddling :
    let s := straddling
    s.io.latch = none ∧ s.cpu.halted = false ∧
      ∃ i t, s.fetch = .ok i ∧ (execute i).run s = .ok .retired t ∧
        ∀ k < i.length.toNat, s.cpu.eip.toNat + k ≤ s.cpu.codeLimit.toNat + 14 := by
  have hstep : (step : Exec Unit CycleExit).run straddling =
      .ok .retired ((step : Exec Unit CycleExit).after straddling) :=
    run_of_answer (by decide +kernel)
  obtain ⟨-, -, hrun⟩ := step_of_ready (s := straddling) rfl rfl
  obtain ⟨i, hfetch, hexecute, -, -, hbytes⟩ := hrun _ _ hstep
  exact ⟨rfl, rfl, i, _, hfetch, hexecute, hbytes⟩

end Exec

end Ia32
