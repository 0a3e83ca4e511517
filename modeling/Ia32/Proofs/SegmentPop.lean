/-
  Popping a segment register, beside a plain pop that is followed by a load.

  A selector that is refused must leave the stack pointer where it was, so the segment is loaded
  first and the pointer moves afterwards.  By then the stack may have another width: a pop into
  the stack segment register that switches between a narrow and a wide stack moves the pointer
  within the width of the new one.

  Main definitions:
  - `Instruction.PopsInto` : a pop into a segment register
  - `Exec.popLoad` : a pop, and the load of what has been popped

  Main statements:
  - `Width.merge_add_eq_iff` : when a pointer moves alike within either width
  - `Exec.run_perform_popSegment`, `Exec.run_popLoad` : what the two do
  - `Exec.perform_popSegment_iff` : how far they agree
-/
import Ia32.Execute.Dispatch
import Ia32.Proofs.Entries
import Ia32.Proofs.StackElements
import Ia32.Proofs.WidePair

namespace Ia32

variable {δ : Type}

/-! ## Pointers of either width -/

namespace Width

/-- A pointer that moves within its lower half moves like a whole word unless it carries. -/
theorem merge_word_add_eq_iff {x d : UInt32} (hd : d.toNat < 0x10000) :
    merge .word x (x + d) = x + d ↔ (truncate .word x).toNat + d.toNat < 0x10000 := by
  have hx := x.toNat_lt
  rw [← UInt32.toNat_inj, toNat_merge, UInt32.toNat_add, toNat_truncate]
  simp only [modulus]
  omega

/-- A pointer moves alike within two widths if they are the same, or if it does not carry. -/
theorem merge_add_eq_iff {v u : Width} {x d : UInt32} (hv : v ≠ .byte) (hu : u ≠ .byte)
    (hd : d.toNat < 0x10000) :
    v.merge x (x + d) = u.merge x (x + d) ↔
      ¬ (v ≠ u ∧ 0x10000 ≤ (truncate .word x).toNat + d.toNat) := by
  have hword := merge_word_add_eq_iff (x := x) hd
  cases v <;> cases u
  case byte.byte | byte.word | byte.dword => exact absurd rfl hv
  case word.byte | dword.byte => exact absurd rfl hu
  case word.word | dword.dword => simp
  case word.dword =>
    rw [merge_dword, hword]
    simp
  case dword.word =>
    rw [merge_dword, eq_comm, hword]
    simp

theorem stride_lt (w : Width) : w.stride.toNat < 0x10000 := by cases w <;> decide

end Width

namespace Cpu

theorem stackWidth_ne_byte (c : Cpu) : c.stackWidth ≠ .byte := by
  unfold stackWidth
  split_ifs <;> decide

/-- Replace the whole of ESP. -/
def setEsp (c : Cpu) (v : UInt32) : Cpu := { c with gprs := c.gprs.set .esp v }

theorem setEsp_setEsp (c : Cpu) (u v : UInt32) : (c.setEsp u).setEsp v = c.setEsp v := rfl

theorem setEsp_inj {c : Cpu} {u v : UInt32} : c.setEsp u = c.setEsp v ↔ u = v :=
  ⟨fun e => congrArg (·.gprs.esp) e, congrArg c.setEsp⟩

/-- The pointer as part of ESP. -/
theorem adjustStack_eq_setEsp (c : Cpu) (d : UInt32) :
    c.adjustStack d = c.setEsp (c.stackWidth.merge c.gprs.esp (c.gprs.esp + d)) := by
  have hsum : c.stackWidth.merge c.gprs.esp (c.stackTop + d) =
      c.stackWidth.merge c.gprs.esp (c.gprs.esp + d) :=
    Width.merge_congr _ (Width.truncate_add _ _ _)
  rw [← hsum]
  rfl

/-- The load of a segment does not look at ESP. -/
theorem setSegment_adjustStack_eq_setEsp (c : Cpu) (n : SegmentName) (g : Segment) (d : UInt32) :
    (c.adjustStack d).setSegment n g =
      (c.setSegment n g).setEsp (c.stackWidth.merge c.gprs.esp (c.gprs.esp + d)) := by
  rw [adjustStack_eq_setEsp]
  rfl

/-- A segment is loaded before the pointer moves, or afterwards: only ESP tells. -/
theorem setSegment_adjustStack (c : Cpu) (n : SegmentName) (g : Segment) (d : UInt32) :
    let u := (c.adjustStack d).setSegment n g
    (c.setSegment n g).adjustStack d =
      u.setEsp (u.stackWidth.merge c.gprs.esp (c.gprs.esp + d)) := by
  intro u
  have hu : u = _ := c.setSegment_adjustStack_eq_setEsp n g d
  rw [hu, setEsp_setEsp]
  exact adjustStack_eq_setEsp _ d

/-- The order matters if the width of the stack changes and the pointer carries out of its lower
half. -/
theorem setSegment_adjustStack_eq_iff (c : Cpu) (n : SegmentName) (g : Segment) {d : UInt32}
    (hd : d.toNat < 0x10000) :
    let u := (c.adjustStack d).setSegment n g
    (c.setSegment n g).adjustStack d = u ↔
      ¬ (u.stackWidth ≠ c.stackWidth ∧ 0x10000 ≤ (c.low .esp .word).toNat + d.toNat) := by
  intro u
  have hu : u = _ := c.setSegment_adjustStack_eq_setEsp n g d
  rw [adjustStack_eq_setEsp, hu]
  refine setEsp_inj.trans ?_
  exact Width.merge_add_eq_iff (c.setSegment n g).stackWidth_ne_byte c.stackWidth_ne_byte hd

end Cpu

/-! ## The pop, and the pop with a load -/

/-- The instruction pops into segment register `n`. -/
structure Instruction.PopsInto (i : Instruction) (n : SegmentName) : Prop where
  unit : i.unit = .transfer
  operation : i.operation = .transfer .pop
  operand : ∃ r, i.operands[0]? = some (.register r) ∧ r.segmentName? = some n

theorem System.modifyCpu_inj {s : System δ} {f g : Cpu → Cpu} :
    s.modifyCpu f = s.modifyCpu g ↔ f s.cpu = g s.cpu :=
  ⟨congrArg System.cpu, congrArg fun c => { s with cpu := c }⟩

/-- The selector on the top of the stack. -/
def System.poppedSelector (s : System δ) (w : Width) : UInt16 := (s.pop w).1.toUInt16

namespace Exec

variable {i : Instruction} {n : SegmentName}

/-- Pop an element, and load segment register `n` with the selector that it holds. -/
def popLoad (n : SegmentName) (w : Width) : Exec δ Unit := do
  let v ← modifyGet (·.pop w)
  setSelector n v.toUInt16

/-- What is on the top of the stack decides; then the pointer moves within the stack as it is. -/
theorem run_perform_popSegment (hi : i.PopsInto n) (hn : n ≠ .cs) (next : UInt32)
    (s : System δ) :
    (i.perform next).run s = match s.segmentFor n (s.poppedSelector i.operandWidth) with
      | .ok g => .ok .next ((s.consulted (s.poppedSelector i.operandWidth)).modifyCpu fun c =>
          (c.setSegment n g).adjustStack i.operandWidth.stride)
      | .error f => .error f (s.consulted (s.poppedSelector i.operandWidth)) := by
  obtain ⟨r, hr, hname⟩ := hi.operand
  have hperform : (i.perform next : Exec δ Outcome) = popOperand i >>= fun _ => pure .next :=
    Instruction.perform_transfer hi.unit hi.operation next
  have hselector : (s.peek 0 i.operandWidth).toUInt16 = s.poppedSelector i.operandWidth := by
    rw [s.peek_zero]
    rfl
  rw [hperform, run_bind, popOperand_register hr hname hn, run_gets_bind, run_bind,
    run_setSelector, hselector]
  cases s.segmentFor n (s.poppedSelector i.operandWidth) <;> rfl

/-- A selector stands for the same segment wherever the stack pointer is. -/
theorem run_popLoad (n : SegmentName) (w : Width) (s : System δ) :
    (popLoad n w).run s = match s.segmentFor n (s.poppedSelector w) with
      | .ok g => .ok () ((s.consulted (s.poppedSelector w)).modifyCpu fun c =>
          (c.adjustStack w.stride).setSegment n g)
      | .error f =>
          .error f ((s.consulted (s.poppedSelector w)).modifyCpu (·.adjustStack w.stride)) := by
  have hpopped : System.Unseen fun s : System δ => (s.pop w).2 :=
    ⟨fun _ => rfl, fun _ => rfl, fun _ => rfl, fun _ => rfl, fun _ _ => rfl⟩
  have hsegment : (s.pop w).2.segmentFor n (s.poppedSelector w) =
      s.segmentFor n (s.poppedSelector w) := rfl
  have hrun : (popLoad n w).run s = (setSelector n (s.poppedSelector w)).run (s.pop w).2 := rfl
  rw [hrun, run_setSelector, hsegment, hpopped.consulted]
  cases s.segmentFor n (s.poppedSelector w) <;> rfl

/-- **A pop into a segment register succeeds exactly if the register accepts the selector on the top
of the stack**, and a refusal changes no register.  It does what a plain pop does that is followed
by the load, but for ESP: the pointer moves within the width of the stack that is in force after
the load.  That makes a difference only if the load changes the width, and the pointer carries
out of its lower half. -/
theorem perform_popSegment_iff (hi : i.PopsInto n) (hn : n ≠ .cs) (next : UInt32)
    (s : System δ) :
    let w := i.operandWidth
    ((∃ o t, (i.perform next).run s = .ok o t) ↔
      ∃ t, (setSelector n (s.poppedSelector w)).run s = .ok () t) ∧
    (∀ o t, (i.perform next).run s = .ok o t → o = .next ∧
      ∃ u, (popLoad n w).run s = .ok () u ∧
        t = u.modifyCpu (fun c => c.setEsp
          (c.stackWidth.merge s.cpu.gprs.esp (s.cpu.gprs.esp + w.stride))) ∧
        (t = u ↔ ¬ (u.cpu.stackWidth ≠ s.cpu.stackWidth ∧
          0x10000 ≤ (s.cpu.low .esp .word).toNat + w.bytes))) ∧
    ∀ f t, (i.perform next).run s = .error f t →
      (setSelector n (s.poppedSelector w)).run s = .error f t ∧ t.cpu = s.cpu := by
  intro w
  have hperform := run_perform_popSegment hi hn next s
  have hset := run_setSelector n (s.poppedSelector w) s
  have hload := run_popLoad n w s
  have hconsulted := s.cpu_consulted (s.poppedSelector w)
  cases hg : s.segmentFor n (s.poppedSelector w) with
  | error f =>
    rw [hg] at hperform hset
    dsimp only at hperform hset
    rw [hperform, hset]
    refine ⟨by simp, by simp, fun f' t h => ?_⟩
    obtain ⟨rfl, rfl⟩ := EStateM.Result.error.inj h
    exact ⟨rfl, hconsulted⟩
  | ok g =>
    rw [hg] at hperform hset hload
    dsimp only at hperform hset hload
    rw [hperform, hset]
    refine ⟨by simp, fun o t h => ?_, by simp⟩
    obtain ⟨rfl, rfl⟩ := EStateM.Result.ok.inj h
    refine ⟨rfl, _, hload, ?_, ?_⟩
    · have horders := s.cpu.setSegment_adjustStack n g w.stride
      rw [← hconsulted] at horders ⊢
      exact congrArg (fun c => { s.consulted (s.poppedSelector w) with cpu := c }) horders
    · have horders := s.cpu.setSegment_adjustStack_eq_iff n g w.stride_lt
      rw [System.modifyCpu_inj, w.stride_toNat.symm, System.cpu_modifyCpu, hconsulted]
      exact horders

/-- A stack of either width whose pointer is at the last word of the lower half, where it holds the
selector of a stack of the other width. -/
def switching (wide : Bool) : System Unit where
  cpu := { Cpu.reset.setCr0 1 with
    gprs := { esp := 0xFFFE }
    segments := Cpu.reset.segments.set .ss ⟨1, { Descriptor.realMode 1 false with wide := wide }⟩
    gdtr := ⟨0, 15⟩
    protectedMode := true }
  ram := ((Ram.zeroed 0x20000).writeBytes 8
    [0xFF, 0xFF, 0, 0, 0, 0x93, if wide then 0 else 0x40, 0]).writeBytes 0x1000E [8, 0]
  io := Io.init ()

/-- POP SS, with an operand of 16 bits. -/
def popStack : Instruction :=
  Instruction.ofOperands (.transfer .pop) [.register (.segment .ss)] 1

theorem popsInto_popStack : popStack.PopsInto .ss where
  unit := rfl
  operation := rfl
  operand := ⟨_, rfl, rfl⟩

/-- A pointer on a narrow stack carries into the upper half of ESP if the new stack is wide, and one
on a wide stack wraps around if the new stack is narrow. -/
theorem perform_popStack_carries :
    (popStack.perform 1).answer (switching false) = .ok .next ∧
    ((popStack.perform 1).after (switching false)).cpu.gprs.esp = 0x10000 ∧
    (popLoad .ss .word).answer (switching false) = .ok () ∧
    ((popLoad .ss .word).after (switching false)).cpu.gprs.esp = 0 ∧
    (popStack.perform 1).answer (switching true) = .ok .next ∧
    ((popStack.perform 1).after (switching true)).cpu.gprs.esp = 0 ∧
    (popLoad .ss .word).answer (switching true) = .ok () ∧
    ((popLoad .ss .word).after (switching true)).cpu.gprs.esp = 0x10000 := by
  decide +kernel

/-- The pop from the narrow stack, and the two orders side by side. -/
theorem perform_popStack_switching :
    let s := switching false
    popStack.PopsInto .ss ∧ SegmentName.ss ≠ .cs ∧
      (∃ r, (setSelector .ss 8).run s = .ok () r) ∧
      ∃ t u, (popStack.perform 1).run s = .ok .next t ∧ (popLoad .ss .word).run s = .ok () u ∧
        t = u.modifyCpu (fun c => c.setEsp (c.stackWidth.merge 0xFFFE 0x10000)) ∧ t ≠ u := by
  intro s
  have hrun := run_of_answer (x := popStack.perform 1) (s := s) (a := .next) (by decide +kernel)
  have hselector : s.poppedSelector .word = 8 := by decide +kernel
  obtain ⟨haccepts, hok, -⟩ := perform_popSegment_iff popsInto_popStack (by decide) 1 s
  obtain ⟨-, u, hu, ht, hiff⟩ := hok _ _ hrun
  have hset := haccepts.1 ⟨_, _, hrun⟩
  have hwide : u.cpu.stackWidth = .dword := by
    rw [← after_of_ok hu]
    decide +kernel
  have htop : 0x10000 ≤ (s.cpu.low .esp .word).toNat + popStack.operandWidth.bytes := by
    decide +kernel
  refine ⟨popsInto_popStack, by decide, ?_, _, u, hrun, hu, ht, fun e => hiff.1 e ⟨?_, htop⟩⟩
  · rw [← hselector]
    exact hset
  · rw [hwide]
    decide

end Exec

end Ia32
