/-
  Computations that do not look at the upper halves of the general registers.

  Run under other upper halves, such a computation gives the same answer, or the same fault, and
  does the same to everything but these halves, which it leaves alone.

  Main definitions:
  - `Exec.Blind` : the computation commutes with a change of the upper halves
  - `Operand.Narrow`, `Location.Narrow` : no doubleword register
  - `Instruction.IsNarrow` : no size in force, and no register operand, is a doubleword

  Main statements:
  - `Exec.Blind.bind_of`, `Exec.Blind.gets_bind`, … : computations in sequence
  - `Exec.blind_writeOperand`, `Exec.blind_transform` : narrow operands
  - `Exec.blind_setSelector`, `Exec.blind_farTransfer`, `Exec.blind_nearTransfer`,
    `Exec.blind_deliver`, `Exec.blind_interruptReturn` : selectors, transfers and gates
-/
import Ia32.Proofs.Entries
import Ia32.Proofs.Halves

namespace Ia32

variable {δ : Type}

namespace Exec

variable {α β : Type} {P Q : System δ → Prop}

/-- The same result, but in a system under other upper halves. -/
def resultUnder (h : Gprs) : EStateM.Result Fault (System δ) α → EStateM.Result Fault (System δ) α
  | .ok a t => .ok a (t.under h)
  | .error f t => .error f (t.under h)

/-- From a system with property `P`, the upper halves of the general registers neither decide what
`x` does nor change by it. -/
def Blind (P : System δ → Prop) (x : Exec δ α) : Prop :=
  ∀ s h, P s → x.run (s.under h) = resultUnder h (x.run s)

/-- Any system. -/
def Always : System δ → Prop := fun _ => True

/-- A system whose stack pointer is SP. -/
def Narrow : System δ → Prop := fun s => s.cpu.NarrowStack

namespace Blind

theorem pure (a : α) : Blind P (pure a : Exec δ α) := fun _ _ _ => rfl

theorem throw (f : Fault) : Blind P (throw f : Exec δ α) := fun _ _ _ => rfl

theorem ofExcept (r : Except Fault α) : Blind P (ofExcept r : Exec δ α) := by
  cases r with
  | ok a => exact pure a
  | error f => exact throw f

theorem modify {f : System δ → System δ} (hf : ∀ s h, P s → f (s.under h) = (f s).under h) :
    Blind P (modify f : Exec δ PUnit) := fun s h hs => by
  rw [run_modify, run_modify, hf s h hs]
  rfl

theorem modifyCpu {f : Cpu → Cpu}
    (hf : ∀ (s : System δ) h, P s → f (s.cpu.under h) = (f s.cpu).under h) :
    Blind P (modifyCpu f : Exec δ Unit) :=
  .modify fun s h hs => System.modifyCpu_under (hf s h hs)

/-- A computation that answers with a known state. -/
theorem of_run {x : Exec δ α} {r : System δ → α} {f : System δ → System δ}
    (hx : ∀ s, x.run s = .ok (r s) (f s)) (hr : ∀ s h, P s → r (s.under h) = r s)
    (hf : ∀ s h, P s → f (s.under h) = (f s).under h) : Blind P x := fun s h hs => by
  rw [hx, hx, hr s h hs, hf s h hs]
  rfl

/-- One computation after the other; the second one starts from a state that the first one has
answered in. -/
theorem bind_of {x : Exec δ α} {g : α → Exec δ β} (hx : Blind P x)
    (hg : ∀ s a t, P s → x.run s = .ok a t → Q t ∧ Blind Q (g a)) : Blind P (x >>= g) := by
  intro s h hs
  have hrun := hx s h hs
  rw [run_bind, run_bind, hrun]
  cases e : x.run s with
  | ok a t =>
    obtain ⟨ht, hblind⟩ := hg s a t hs e
    exact hblind t h ht
  | error f t => rfl

theorem bind {x : Exec δ α} {g : α → Exec δ β} (hx : Blind P x) (hg : ∀ a, Blind Always (g a)) :
    Blind P (x >>= g) :=
  hx.bind_of fun _ a _ _ _ => ⟨trivial, hg a⟩

/-- A value that is read and does not depend on upper halves. -/
theorem gets_bind {f : System δ → α} {g : α → Exec δ β} (hf : ∀ s h, P s → f (s.under h) = f s)
    (hg : ∀ a, Blind P (g a)) : Blind P (gets f >>= g) := fun s h hs => by
  rw [run_gets_bind, run_gets_bind, hf s h hs]
  exact hg _ s h hs

/-- A value that is read, and used in a way that does not depend on upper halves. -/
theorem gets_bind_of {f : System δ → α} {g : α → Exec δ β}
    (hf : ∀ s h, P s → g (f (s.under h)) = g (f s)) (hg : ∀ s, Blind P (g (f s))) :
    Blind P (gets f >>= g) := fun s h hs => by
  rw [run_gets_bind, run_gets_bind, hf s h hs]
  exact hg _ s h hs

theorem get_bind {g : System δ → Exec δ β} (hf : ∀ s h, P s → g (s.under h) = g s)
    (hg : ∀ s, Blind P (g s)) : Blind P (get >>= g) := fun s h hs => by
  rw [run_get_bind, run_get_bind, hf s h hs]
  exact hg _ s h hs

end Blind

end Exec

/-! ## Operands -/

/-- The operand is no doubleword register. -/
def Operand.Narrow (x : Operand) : Prop := ∀ r, x = .register r → r.width ≠ .dword

/-- The location is no doubleword register. -/
def Location.Narrow (l : Location) : Prop := ∀ r, l = .register r → r.width ≠ .dword

theorem Location.narrow_memory (n : SegmentName) (offset : UInt32) : (memory n offset).Narrow :=
  nofun

theorem Operand.Narrow.locate {x : Operand} (hx : x.Narrow) (c : Cpu) (a : AddressSize) :
    (c.locate a x).Narrow := by
  rintro r hr
  cases x with
  | register q => cases hr; exact hx r rfl
  | memory m w => cases hr
  | immediate v w => cases hr

namespace System

theorem locate_under (s : System δ) (h : Gprs) (x : Operand) :
    (s.under h).cpu.locate .word x = s.cpu.locate .word x := s.cpu.locate_under h x

theorem value_under {x : Operand} (hx : x.Narrow) (s : System δ) (h : Gprs) :
    (s.under h).value .word x = s.value .word x := by
  unfold value
  rw [locate_under]
  exact load_under (hx.locate s.cpu .word) s h

end System

/-- An instruction of 16-bit code. -/
structure Instruction.IsNarrow (i : Instruction) : Prop where
  operandWidth : i.operandWidth = .word
  addressSize : i.addressSize = .word
  elements : ∀ o, i.operation = .string o → i.dataWidth ≠ .dword
  registers : ∀ r, Operand.register r ∈ i.operands → r.width ≠ .dword

theorem Instruction.IsNarrow.operand {i : Instruction} (hi : i.IsNarrow) {k : Nat} {x : Operand}
    (h : i.operands[k]? = some x) : x.Narrow := by
  rintro r rfl
  exact hi.registers r (List.mem_of_getElem? h)

namespace Exec

variable {P : System δ → Prop} {i : Instruction} {k : Nat} {x : Operand}

/-- An operand that is read first. -/
theorem blind_readOperand_bind {α : Type} {f : UInt32 → Exec δ α} (hi : i.IsNarrow)
    (h : i.operands[k]? = some x) (hf : ∀ v, Blind P (f v)) :
    Blind P (readOperand i k >>= f) := by
  rw [readOperand_eq h, hi.addressSize]
  exact .gets_bind (fun s g _ => s.value_under (hi.operand h) g) hf

theorem blind_store {l : Location} (hl : l.IsPlace) (hn : l.Narrow) (w : Width) (v : UInt32) :
    Blind P (store w v l : Exec δ Unit) :=
  .of_run (fun s => run_store hl w v s) (fun _ _ _ => rfl) fun s h _ => System.stored_under hn s h v

theorem blind_writeOperand (hi : i.IsNarrow) (h : i.operands[k]? = some x)
    (hplace : OperandTest.place x.class = true) (v : UInt32) :
    Blind P (writeOperand i k v : Exec δ Unit) := by
  rw [writeOperand_eq h, hi.addressSize]
  exact .gets_bind_of (fun s g _ => by rw [s.locate_under]) fun s =>
    blind_store (s.cpu.isPlace_locate _ hplace) ((hi.operand h).locate s.cpu .word) _ v

theorem blind_transform (hi : i.IsNarrow) (h : i.operands[0]? = some x)
    (hplace : OperandTest.place x.class = true) (f : Flags → Width → UInt32 → UInt32 × Flags) :
    Blind P (transform i f : Exec δ Unit) := by
  rw [transform, operand_eq h, hi.addressSize, pure_bind]
  refine .get_bind (fun s g _ => ?_) fun s => ?_
  · dsimp only
    rw [s.locate_under, System.load_under ((hi.operand h).locate s.cpu .word)]
    rfl
  · dsimp only
    rcases f s.cpu.flags x.width (s.load x.width (s.cpu.locate .word x)) with ⟨v, g⟩
    refine Blind.bind (.modifyCpu fun _ _ _ => rfl) fun _ => ?_
    exact blind_store (s.cpu.isPlace_locate _ hplace) ((hi.operand h).locate s.cpu .word) _ v

theorem blind_examine (hi : i.IsNarrow) (h : i.operands[0]? = some x)
    (f : Flags → Width → UInt32 → UInt32 × Flags) : Blind P (examine i f : Exec δ Unit) := by
  rw [examine, operand_eq h, pure_bind]
  exact blind_readOperand_bind hi h fun v => .modifyCpu fun _ _ _ => rfl

theorem farPointerAt_under (hi : i.IsNarrow) (m : MemoryOperand) (s : System δ) (h : Gprs) :
    farPointerAt i m (s.under h) = farPointerAt i m s := by
  unfold farPointerAt
  rw [hi.addressSize, s.cpu_under, Cpu.effectiveOffset_under]
  rfl

end Exec

/-! ## Selectors, transfers and gates -/

namespace System

/-- Nothing that is looked up depends on general registers. -/
theorem unseen_under (h : Gprs) : Unseen fun s : System δ => s.under h where
  ram _ := rfl
  gdtr _ := rfl
  idtr _ := rfl
  mode _ := rfl
  mark _ _ := rfl

end System

namespace Exec

variable {P : System δ → Prop}

theorem blind_setSelector (n : SegmentName) (selector : UInt16) :
    Blind P (setSelector n selector : Exec δ Unit) := by
  intro s h _
  have hsegment : (s.under h).segmentFor n selector = s.segmentFor n selector := rfl
  rw [run_setSelector, run_setSelector, hsegment, (System.unseen_under h).consulted]
  cases s.segmentFor n selector <;> rfl

theorem blind_farTransfer (selector : UInt16) (offset : UInt32) :
    Blind P (farTransfer selector offset : Exec δ Unit) := by
  intro s h _
  have htarget : (s.under h).synced.targetFor selector offset =
      s.synced.targetFor selector offset := rfl
  have hsync : (s.under h).synced = s.synced.under h := rfl
  rw [run_farTransfer, run_farTransfer, htarget, hsync, (System.unseen_under h).consulted]
  cases s.synced.targetFor selector offset <;> rfl

theorem blind_nearTransfer (target : UInt32) :
    Blind P (nearTransfer target : Exec δ Unit) := by
  intro s h _
  rw [run_nearTransfer, run_nearTransfer]
  change (if (s.synced.cpu.protectedMode &&
    decide (s.synced.cpu.segments.cs.descriptor.limit < target &&& s.synced.cpu.ipMask)) = true
    then _ else _) = _
  split_ifs <;> rfl

/-! Of these only the stack segment register decides on the stack. -/

theorem narrow_of_setSelector {s t : System δ} {n : SegmentName} {selector : UInt16}
    (hn : n ≠ .ss) (hs : Narrow s) (h : (setSelector n selector).run s = .ok () t) :
    Narrow t := by
  rw [run_setSelector] at h
  cases hg : s.segmentFor n selector with
  | error f => rw [hg] at h; cases h
  | ok g =>
    rw [hg] at h
    cases h
    change ((s.consulted selector).cpu.setSegment n g).stackWidth = .word
    have hss : (s.cpu.setSegment n g).segments.ss = s.cpu.segments.ss :=
      (s.cpu.segment_setSegment n .ss g).trans (if_neg hn.symm)
    rw [System.cpu_consulted, Cpu.stackWidth, hss]
    exact hs

theorem narrow_of_farTransfer {s t : System δ} {selector : UInt16} {offset : UInt32}
    (hs : Narrow s) (h : (farTransfer selector offset).run s = .ok () t) : Narrow t := by
  rw [run_farTransfer] at h
  cases hp : s.synced.targetFor selector offset with
  | error f => rw [hp] at h; cases h
  | ok p =>
    rw [hp] at h
    cases h
    change ((s.synced.consulted selector).cpu.jump p).stackWidth = .word
    rw [System.cpu_consulted]
    exact hs

theorem narrow_of_nearTransfer {s t : System δ} {target : UInt32}
    (hs : Narrow s) (h : (nearTransfer target).run s = .ok () t) : Narrow t := by
  rw [run_nearTransfer] at h
  split_ifs at h
  cases h
  exact hs

/-- The frame is pushed on a narrow stack. -/
theorem blind_deliver (v : UInt8) (returnEip : UInt32) :
    Blind Narrow (deliver v returnEip : Exec δ Unit) := by
  intro s h hs
  have hgate : (s.under h).synced.gateFor v = s.synced.gateFor v := rfl
  have hsync : (s.under h).synced = s.synced.under h := rfl
  rw [run_deliver, run_deliver, hgate, hsync, (System.unseen_under h).gated]
  cases s.synced.gateFor v with
  | error f => rfl
  | ok g =>
    have hnarrow : (s.synced.gated v).cpu.NarrowStack := by rw [System.cpu_gated]; exact hs
    exact congrArg (EStateM.Result.ok ()) (System.enterGate_under hnarrow h g returnEip)

theorem blind_interruptReturn (w : Width) :
    Blind Narrow (interruptReturn w : Exec δ Unit) := by
  rw [interruptReturn]
  refine .get_bind (fun s h hs => ?_) fun s => (blind_farTransfer _ _).bind_of fun t _ u ht hu =>
    ⟨narrow_of_farTransfer ht hu, .modifyCpu fun v h hv => ?_⟩
  · simp only [System.peek_under hs]
  · exact congrArg (fun c => { c with
      flags := v.cpu.flags.restore w (s.peek (2 * w.stride) w)
      interruptLevel := if v.cpu.interruptLevel = 0 then 0 else v.cpu.interruptLevel - 1 })
      (Cpu.adjustStack_under hv h (3 * w.stride))

/-! ## Special registers -/

variable {i : Instruction} {k : Nat} {x : Operand}

theorem blind_writeOperand_segment (h : i.operands[k]? = some x)
    (hx : OperandTest.segment x.class = true) (v : UInt32) :
    Blind P (writeOperand i k v : Exec δ Unit) := by
  obtain ⟨n, -, e⟩ := writeOperand_segment h hx v
  rw [e]
  exact blind_setSelector n _

theorem blind_writeOperand_control (h : i.operands[k]? = some x)
    (hx : OperandTest.control x.class = true) (v : UInt32) :
    Blind P (writeOperand i k v : Exec δ Unit) := by
  obtain ⟨n, hn, -, e⟩ := writeOperand_control h hx v
  rw [e]
  exact .modifyCpu fun _ _ _ => rfl

theorem blind_writeOperand_debug (h : i.operands[k]? = some x)
    (hx : OperandTest.debug x.class = true) (v : UInt32) :
    Blind P (writeOperand i k v : Exec δ Unit) := by
  obtain ⟨n, hn, e⟩ := writeOperand_debug h hx v
  rw [e]
  exact .modifyCpu fun _ _ _ => rfl

end Exec

end Ia32
