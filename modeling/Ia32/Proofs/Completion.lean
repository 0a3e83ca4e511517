/-
  Instructions, carried out.

  No instruction is refused as invalid by the unit that it names, unless it is a move into CS, and
  those that do not transfer control leave the place in code, the mode and the interrupt level
  alone.  Both hold of all that is decoded with a disassembler that keeps to the forms of the
  instruction set reference.

  Main definitions:
  - `Instruction.Advances` : what has happened if an instruction is followed by the next one

  Main statements:
  - `Exec.invalidOpcode_of_fit` : of all that fits its operation only moves into CS are refused
  - `Exec.executable_of_decode` : so whatever decodes can be executed
  - `Exec.invalidOpcode_of_step` : it is bytes that do not decode that make a cycle fault this way
  - `Exec.frame_of_wellFormed`, `Exec.frame_of_decode` : what instructions leave alone, and when
    they sample the mode
-/
import Ia32.Proofs.Cycle

namespace Ia32

variable {δ : Type} {i : Instruction} {d : Disassembler} {bs : List UInt8} {wide : Bool}
  {ip : UInt32}

/-! ## Validity -/

namespace Exec

theorem ne_invalidOpcode (h : i.WellFormed) (s t : System δ) :
    (execute i).run s ≠ .error .invalidOpcode t := by
  intro hrun
  exact (faultAtomic_execute h s _ t hrun).1 rfl

/-- Of all that fits its operation only moves into CS are refused, in every state. -/
theorem invalidOpcode_of_fit (h : i.Fit) (s t : System δ) :
    (execute i).run s = .error .invalidOpcode t ↔ i.MovesToCode ∧ t = s := by
  rcases h.wellFormed_or with hwf | ⟨hunit, hmoves⟩
  · exact iff_of_false (ne_invalidOpcode hwf s t) fun h => hwf.not_movesToCode h.1
  · rw [run_of_movesToCode hunit hmoves]
    refine ⟨fun hrun => ?_, fun h => ?_⟩
    · cases hrun
      exact ⟨hmoves, rfl⟩
    · rw [h.2]

/-- **Whatever decodes can be executed**, with any disassembler that keeps to the forms of the
instruction set reference.  The instruction is given to the unit of its operation, with operands
that the operation has, unless it is a move into CS.  Such a move is refused as invalid in every
state, which stays as it is, and nothing else is in any. -/
theorem executable_of_decode (hd : d.KeepsForms) (h : Instruction.decodeBy d bs wide ip = .ok i) :
    i.unit = i.operation.unit ∧
      (i.operation.accepts (i.operands.map Operand.class) = true ∨ i.MovesToCode) ∧
      ∀ s t : System δ, (execute i).run s = .error .invalidOpcode t ↔ i.MovesToCode ∧ t = s := by
  have hfit := Instruction.fit_of_decodeBy hd h
  exact ⟨hfit.unit, hfit.accepts, invalidOpcode_of_fit hfit⟩

/-- The move into DS that is encoded next to the one into CS. -/
theorem executable_movToData :
    let i := Instruction.ofOperands (.transfer .mov)
      [.register ⟨.segment, 3, .word⟩, .register ⟨.general, 0, .word⟩] 2
    Instruction.decode [0x8E, 0xD8] false 0 = .ok i ∧ ¬ i.MovesToCode ∧
      ∀ s t : System Unit, (execute i).run s ≠ .error .invalidOpcode t := by
  intro i
  have hdecode : Instruction.decode [0x8E, 0xD8] false 0 = .ok i := rfl
  have hdata : ¬ i.MovesToCode := by
    rintro ⟨-, r, hr, hcode⟩
    cases hr
    cases hcode
  refine ⟨hdecode, hdata, fun s t hrun => hdata ?_⟩
  obtain ⟨-, -, hinvalid⟩ := executable_of_decode Encoding.disassemble_keepsForms hdecode
  exact ((hinvalid s t).1 hrun).1

/-- A cycle finds an invalid opcode exactly if it fetches one. -/
theorem invalidOpcode_of_step {s t : System δ} :
    step.run s = .error .invalidOpcode t ↔
      s.io.latch = none ∧ s.cpu.halted = false ∧ s.fetch = .error .invalidOpcode ∧ t = s := by
  constructor
  · intro h
    cases hlatch : s.io.latch with
    | some v =>
      have hdeliver := refused_of_cycle hlatch h
      exact absurd rfl (faultAtomic_deliver v s.cpu.eip s _ t hdeliver).1.ne_invalidOpcode
    | none =>
      cases hhalted : s.cpu.halted with
      | true => rw [run_step_of_idle hlatch hhalted] at h; cases h
      | false =>
        rw [run_step_of_ready hlatch hhalted] at h
        cases hfetch : s.fetch with
        | error f => rw [hfetch] at h; cases h; exact ⟨rfl, rfl, rfl, rfl⟩
        | ok i =>
          rw [hfetch] at h
          exact absurd h (ne_invalidOpcode (System.wellFormed_of_fetch hfetch) s t)
  · rintro ⟨hlatch, hhalted, hfetch, rfl⟩
    rw [run_step_of_ready hlatch hhalted, hfetch]

end Exec

/-! ## Frames -/

/-- What has happened from `s` to `t` if `i` is followed by the next instruction. -/
structure Instruction.Advances (i : Instruction) (s t : System δ) : Prop where
  eip : t.cpu.eip = s.cpu.nextOffset i.length
  code : t.cpu.segment .cs = s.cpu.segment .cs
  mode : t.cpu.protectedMode = s.cpu.protectedMode
  level : t.cpu.interruptLevel = s.cpu.interruptLevel
  halted : t.cpu.halted = s.cpu.halted ∨ i.operation = .system .hlt
  segments : ∀ n, t.cpu.segment n = s.cpu.segment n ∨ i.touches .segments = true
  control : t.cpu.control = s.cpu.control ∨ i.touches .control = true
  debug : t.cpu.debug = s.cpu.debug ∨ i.touches .debug = true
  gdtr : t.cpu.gdtr = s.cpu.gdtr ∨ i.operation = .system .lgdt
  idtr : t.cpu.idtr = s.cpu.idtr ∨ i.operation = .system .lidt
  modes : t.cpu.flags.modes = s.cpu.flags.modes ∨ i.touches .modes = true

/-- Once past the instruction, all that differs are the parts that it is made for. -/
theorem Frame.advances {s t : System δ} (h : Frame (fun k => i.touches k = true) s t) :
    i.Advances s (t.modifyCpu fun c => { c with eip := s.cpu.nextOffset i.length }) where
  eip := rfl
  code := h.code
  mode := h.mode
  level := h.level
  halted := .inl h.halted
  segments n := (h.segments n).imp_right And.left
  control := h.control
  debug := h.debug
  gdtr := h.gdtr.imp_right eq_of_beq
  idtr := h.idtr.imp_right eq_of_beq
  modes := h.modes

namespace Exec

/-- **What completed instructions leave alone.**  The branch unit samples the mode with every
transfer and never without one; all other instructions stay on course. -/
theorem frame_of_wellFormed (h : i.WellFormed) {s t : System δ} {e : CycleExit}
    (hrun : (execute i).run s = .ok e t) :
    if i.unit = .branch then
      e = .branched ∧ t.cpu.protectedMode = t.cpu.protectionEnabled ∨
      e = .retired ∧ t.cpu.protectedMode = s.cpu.protectedMode ∧
        t.cpu.eip = s.cpu.nextOffset i.length
    else e ≠ .branched ∧ i.Advances s t := by
  cases executed_of_run h hrun with
  | retired kept =>
    split_ifs
    · exact .inr ⟨rfl, kept.mode, rfl⟩
    · exact ⟨nofun, kept.advances⟩
  | branched unit moved =>
    rw [if_pos unit]
    exact .inl ⟨rfl, moved.mode⟩
  | halted hlt _ =>
    have hunit : i.unit ≠ .branch := by
      rw [h.unit, hlt]
      nofun
    rw [if_neg hunit]
    exact ⟨nofun, { (Frame.refl s).advances with halted := .inr hlt }⟩

/-- This holds of whatever is decoded with a disassembler that keeps to the forms of the instruction
set reference, since moves into CS are not completed. -/
theorem frame_of_decode (hd : d.KeepsForms) (h : Instruction.decodeBy d bs wide ip = .ok i)
    {s t : System δ} {e : CycleExit} (hrun : (execute i).run s = .ok e t) :
    if i.unit = .branch then
      e = .branched ∧ t.cpu.protectedMode = t.cpu.protectionEnabled ∨
      e = .retired ∧ t.cpu.protectedMode = s.cpu.protectedMode ∧
        t.cpu.eip = s.cpu.nextOffset i.length
    else e ≠ .branched ∧ i.Advances s t := by
  rcases (Instruction.fit_of_decodeBy hd h).wellFormed_or with hwf | ⟨hunit, hmoves⟩
  · exact frame_of_wellFormed hwf hrun
  · rw [run_of_movesToCode hunit hmoves] at hrun
    cases hrun

/-- The protection bit is set, but the mode has not been sampled since. -/
def unsampled : System Unit :=
  ⟨Cpu.reset.setCr0 1, Ram.zeroed 0, Io.init ()⟩

/-- The jump to the next instruction that guests use to enter protected mode. -/
theorem frame_unsampled :
    let i := Instruction.ofOperands (.branch .jmp) [.immediate 2 .word] 2
    Instruction.decode [0xEB, 0] false 0 = .ok i ∧ unsampled.cpu.protectedMode = false ∧
      ∃ t, (execute i).run unsampled = .ok .branched t ∧ t.cpu.protectionEnabled = true ∧
        if i.unit = .branch then
          CycleExit.branched = .branched ∧ t.cpu.protectedMode = t.cpu.protectionEnabled ∨
          CycleExit.branched = .retired ∧
            t.cpu.protectedMode = unsampled.cpu.protectedMode ∧
            t.cpu.eip = unsampled.cpu.nextOffset i.length
        else CycleExit.branched ≠ .branched ∧ i.Advances unsampled t := by
  have hdecode : Instruction.decode [0xEB, 0] false 0 =
      .ok (.ofOperands (.branch .jmp) [.immediate 2 .word] 2) := rfl
  have hrun : (execute (.ofOperands (.branch .jmp) [.immediate 2 .word] 2)).run unsampled =
      .ok .branched (unsampled.synced.modifyCpu fun c => { c with eip := 2 }) := by
    rfl
  exact ⟨hdecode, rfl, _, hrun, rfl, frame_of_decode Encoding.disassemble_keepsForms hdecode hrun⟩

end Exec

end Ia32
