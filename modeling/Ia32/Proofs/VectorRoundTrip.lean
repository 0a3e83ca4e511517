/-
  Through the vector table of real mode, and straight back.

  The frame is three words, and the flags that it holds are those of the lower half.  What the way
  in clears of the upper half, the alignment flag, is therefore lost.

  Main definitions:
  - `System.Vectored` : a vector can be delivered in real mode, and its handler returned from

  Main statements:
  - `System.gateFor_vectored` : the vector leads to a gate
  - `Exec.interruptReturn_of_vectored` : what a handler that returns at once has changed
-/
import Ia32.Proofs.RoundTrip

namespace Ia32

variable {δ : Type}

/-- The vector table gives back the lower half of the flags, and clears the alignment flag of the
upper one. -/
theorem GateKind.restore_entryFlags_vector (f : Flags) :
    (entryFlags f .vector).restore .word (Width.truncate .word f.image) =
      { f with alignment := false } := by
  rw [Flags.restore_word]
  rfl

namespace System

variable {s : System δ} {v : UInt8} {returnEip : UInt32}

/-- Vector `v` can be delivered in real mode with `returnEip` to return to: its far pointer lies
within the table and the frame in memory, and the code segment is one of real mode. -/
structure Vectored (s : System δ) (v : UInt8) (returnEip : UInt32) : Prop where
  real : s.cpu.protectionEnabled = false
  code : s.cpu.segment .cs = .realMode (s.cpu.selector .cs) true
  level : s.cpu.interruptLevel < 0xFFFFFFFF
  vector : 4 * v.toNat + 3 ≤ s.cpu.idtr.limit.toNat
  narrow : returnEip ≤ 0xFFFF
  stack : ∀ a ∈ s.cpu.frameSlots .word, a.toNat + Width.word.bytes ≤ s.ram.size

theorem mode_synced (h : s.Vectored v returnEip) : s.synced.cpu.protectedMode = false := h.real

/-- The vector leads to a gate, through which the frame consists of words. -/
theorem gateFor_vectored (h : s.Vectored v returnEip) :
    ∃ p, s.synced.gateFor v = .ok ⟨.vector, .word, p⟩ := by
  have hin : ¬ s.synced.cpu.idtr.limit.toUInt32 < v.toUInt32 * 4 + 3 := by
    rw [limit_lt_slotEnd_iff _ _ (by decide)]
    exact Nat.not_lt.2 h.vector
  unfold gateFor
  rw [mode_synced h, if_neg Bool.false_ne_true]
  unfold vectorGate
  exact ⟨_, if_neg hin⟩

/-- What the handler finds on the stack. -/
theorem peek_vectored (h : s.Vectored v returnEip) (p : CodePointer) :
    let t := s.synced.enterGate ⟨.vector, .word, p⟩ returnEip
    t.peek 0 .word = returnEip ∧
      (t.peek Width.word.stride .word).toUInt16 = s.cpu.selector .cs ∧
      t.peek (2 * Width.word.stride) .word = Width.truncate .word s.cpu.flags.image := by
  obtain ⟨heip, hcs, hflags⟩ := peek_pushFrame_of_mem (s := s.synced) returnEip h.stack
  dsimp only
  rw [peek_enterGate, peek_enterGate, peek_enterGate, heip, hcs, hflags]
  exact ⟨Width.truncate_word_of_le h.narrow, Width.toUInt16_truncate (by decide) _, rfl⟩

/-- The far pointer on the stack leads back to the interrupted code. -/
theorem realTarget_vectored (h : s.Vectored v returnEip) :
    Exec.realTarget (s.cpu.selector .cs) returnEip = ⟨s.cpu.segment .cs, returnEip⟩ := by
  have hoffset : returnEip &&& 0xFFFF = returnEip := Width.truncate_word_of_le h.narrow
  rw [Exec.realTarget, hoffset, ← h.code]

end System

namespace Exec

variable {s : System δ} {v : UInt8} {returnEip : UInt32}

/-- **An interrupt in real mode, and the return from it**, leave all registers as they were, but
for EIP, which is the offset to return to, for the halt, which is over, and for the alignment flag,
which is cleared.  Of memory they change the frame only.  The mode has been sampled on the way. -/
theorem interruptReturn_of_vectored (h : s.Vectored v returnEip) :
    ∃ t r, (deliver v returnEip).run s = .ok () t ∧ (interruptReturn .word).run t = .ok () r ∧
      r.cpu = { s.cpu.syncMode with
        eip := returnEip
        halted := false
        flags := { s.cpu.flags with alignment := false } } ∧
      r.io = s.io ∧ r.ram.size = s.ram.size ∧
      ∀ j, ¬ s.cpu.InFrame .word j → r.ram.byte j = s.ram.byte j := by
  obtain ⟨p, hgate⟩ := System.gateFor_vectored h
  have hmode := System.mode_synced h
  have hgated : s.synced.gated v = s.synced := by
    rw [System.gated, hmode, if_neg Bool.false_ne_true]
  have hdeliver := run_deliver v returnEip s
  rw [hgate, hgated] at hdeliver
  dsimp only at hdeliver
  obtain ⟨heip, hcs, hflags⟩ := System.peek_vectored h p
  generalize ht : s.synced.enterGate ⟨.vector, .word, p⟩ returnEip = t at *
  have hcpu : t.cpu = s.synced.cpu.enter ⟨.vector, .word, p⟩ := by
    rw [← ht, System.cpu_enterGate]
  have htmode : t.cpu.protectedMode = false := by
    rw [hcpu]
    exact hmode
  have hsynced : t.synced = t := by
    refine System.synced_eq ?_
    rw [hcpu]
    rfl
  have htarget : t.targetFor (s.cpu.selector .cs) returnEip =
      .ok ⟨s.cpu.segment .cs, returnEip⟩ := by
    rw [System.targetFor, htmode, if_neg Bool.false_ne_true, System.realTarget_vectored h]
  have hconsulted : t.consulted (s.cpu.selector .cs) = t := by
    rw [System.consulted, htmode, if_neg Bool.false_ne_true]
  have hreturn := run_interruptReturn .word t
  rw [hsynced, hcs, heip, hflags, htarget, hconsulted] at hreturn
  refine ⟨t, _, hdeliver, hreturn, ?_, ?_, ?_, ?_⟩
  · have hcode : s.synced.cpu.segments.set .cs (s.cpu.segment .cs) = s.cpu.segments :=
      Segments.set_get _ _
    have hleave := Cpu.leave_enter (c := s.synced.cpu) ⟨.vector, .word, p⟩
      ⟨s.cpu.segment .cs, returnEip⟩ (Width.truncate .word s.cpu.flags.image) h.level
    rw [hcode] at hleave
    rw [System.cpu_modifyCpu, hcpu]
    refine hleave.trans ?_
    have hrestore := GateKind.restore_entryFlags_vector s.cpu.flags
    exact congrArg (fun f => { s.cpu.syncMode with
      eip := returnEip, halted := false, flags := f }) hrestore
  · rw [System.io_modifyCpu, ← ht, System.io_enterGate]
    rfl
  · rw [System.ram_modifyCpu, ← ht, System.ram_enterGate, System.size_pushFrame]
    rfl
  · intro j hj
    rw [System.ram_modifyCpu, ← ht, System.ram_enterGate]
    exact System.byte_pushFrame returnEip hj

/-- A system in real mode whose stack pointer wraps around while a frame is pushed, and which has
not sampled the mode yet. -/
def wrappingStack : System Unit where
  cpu :=
    { Cpu.reset.setSegment .cs (.realMode 0x1000 true) with
      gprs := { esp := 0xABCD0005 }
      flags := { Flags.reset with trap := true, alignment := true }
      halted := true
      protectedMode := true }
  ram := Ram.zeroed 0x20000
  io := Io.init ()

theorem vectored_wrappingStack : wrappingStack.Vectored 0xFF 0x1234 where
  real := by decide +kernel
  code := by decide +kernel
  level := by decide +kernel
  vector := by decide +kernel
  narrow := by decide
  stack := by
    have hslots : wrappingStack.cpu.frameSlots .word = [3, 1, 0xFFFF] := by decide +kernel
    have hsize : wrappingStack.ram.size = 0x20000 := Ram.size_zeroed _
    rw [hslots, hsize]
    simp [Width.bytes]

/-- A return that wraps the stack pointer back. -/
theorem interruptReturn_wrappingStack :
    let s := wrappingStack
    s.Vectored 0xFF 0x1234 ∧
      ∃ t r, (deliver 0xFF 0x1234).run s = .ok () t ∧ (interruptReturn .word).run t = .ok () r ∧
        r.cpu = { s.cpu.syncMode with
          eip := 0x1234
          halted := false
          flags := { s.cpu.flags with alignment := false } } ∧
        r.io = s.io ∧ r.ram.size = s.ram.size ∧
        ∀ j, ¬ s.cpu.InFrame .word j → r.ram.byte j = s.ram.byte j :=
  ⟨vectored_wrappingStack, interruptReturn_of_vectored vectored_wrappingStack⟩

end Exec

end Ia32
