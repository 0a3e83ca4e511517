/-
  Where transfers of control lead.

  A transfer samples the mode and sets EIP, and it may load CS or save and take back flags.
  Nothing else of the registers that only some operations change is touched by it.

  Main definitions:
  - `CodePointer.Lands` : a place in code that can be gone to
  - `Transfer` : what two systems with a transfer of control between them have in common
  - `Exec.Transfers`, `Exec.Moves` : computations that end with a transfer, or with none at all

  Main statements:
  - `Exec.transfers_farTransfer`, `Exec.transfers_nearTransfer`, `Exec.transfers_deliver`,
    `Exec.transfers_interruptReturn`
  - `BranchOp.moves` : a branch operation goes on with the next instruction or transfers control
-/
import Ia32.Proofs.AtomicExecution
import Ia32.Proofs.FrameExecution

namespace Ia32

variable {δ : Type}

/-! ## Places in code -/

/-- The offset fits the segment, and the segment is one that CS can be loaded with. -/
structure CodePointer.Lands (inProtected : Bool) (p : CodePointer) : Prop where
  loads : SegmentName.cs.Loads inProtected p.segment
  offset : p.offset ≤ if p.segment.descriptor.wide then 0xFFFFFFFF else 0xFFFF

theorem UInt32.le_max (x : UInt32) : x ≤ 0xFFFFFFFF := by
  have h : x.toNat ≤ 0xFFFFFFFF := Nat.le_of_lt_succ x.toNat_lt
  exact UInt32.le_iff_toNat_le.2 h

theorem UInt16.toUInt32_le_max (x : UInt16) : x.toUInt32 ≤ 0xFFFF := by
  have h : x.toUInt32.toNat ≤ 0xFFFF := by
    rw [UInt16.toNat_toUInt32]
    exact Nat.le_of_lt_succ x.toNat_lt
  exact UInt32.le_iff_toNat_le.2 h

theorem UInt32.and_le (x m : UInt32) : x &&& m ≤ m := by
  rw [UInt32.le_iff_toNat_le, UInt32.toNat_and]
  exact Nat.and_le_right

theorem CodePointer.lands_realTarget (selector : UInt16) (offset : UInt32) :
    (Exec.realTarget selector offset).Lands false := ⟨rfl, UInt32.and_le _ _⟩

namespace System

variable {s : System δ} {selector : UInt16} {offset : UInt32} {p : CodePointer}

theorem lands_of_targetOf (h : s.targetOf selector offset = .ok p) : p.Lands true := by
  obtain ⟨-, d, -, hcode, hpresent, rfl, -⟩ := targetOf_eq_ok.1 h
  refine ⟨⟨hpresent, hcode⟩, ?_⟩
  dsimp only
  split_ifs
  · exact UInt32.le_max _
  · exact UInt32.and_le _ _

theorem lands_of_targetFor (h : s.targetFor selector offset = .ok p) :
    p.Lands s.cpu.protectedMode := by
  unfold targetFor at h
  cases hp : s.cpu.protectedMode with
  | true => rw [hp] at h; exact lands_of_targetOf h
  | false => rw [hp] at h; cases h; exact CodePointer.lands_realTarget _ _

theorem lands_of_gateFor {v : UInt8} {g : Gate} (h : s.gateFor v = .ok g) :
    g.target.Lands s.cpu.protectedMode := by
  cases hp : s.cpu.protectedMode with
  | true =>
    obtain ⟨e, p, -, ht, rfl⟩ := (gateFor_eq_ok hp).1 h
    exact lands_of_targetOf ht
  | false =>
    have hv : s.vectorGate v = .ok g := by rw [gateFor, hp] at h; exact h
    unfold vectorGate at hv
    dsimp only at hv
    split_ifs at hv
    cases hv
    exact CodePointer.lands_realTarget _ _

end System

/-! ## Transfers -/

/-- What holds between two systems if control was transferred between them. -/
structure Transfer (s t : System δ) : Prop where
  mode : t.cpu.protectedMode = t.cpu.protectionEnabled
  eip : t.cpu.eip ≤ t.cpu.ipMask
  code : t.cpu.segment .cs = s.cpu.segment .cs ∨
    SegmentName.cs.Loads t.cpu.protectedMode (t.cpu.segment .cs)
  others : ∀ n, n ≠ .cs → t.cpu.segment n = s.cpu.segment n
  control : t.cpu.control = s.cpu.control
  debug : t.cpu.debug = s.cpu.debug
  gdtr : t.cpu.gdtr = s.cpu.gdtr
  idtr : t.cpu.idtr = s.cpu.idtr
  halted : t.cpu.halted = true → s.cpu.halted = true
  resume : t.cpu.flags.resume = true → s.cpu.flags.resume = true
  virtual8086 : t.cpu.flags.virtual8086 = s.cpu.flags.virtual8086
  io : t.io = s.io

/-- Nothing but general registers, memory and status flags differs. -/
abbrev Unmoved (s t : System δ) : Prop := Frame (fun _ => False) s t

namespace Transfer

variable {s t u : System δ}

/-- A transfer goes to a place in code, and changes some more registers on the way. -/
theorem of_jump {p : CodePointer} {c : Cpu} (h : Unmoved s.synced u)
    (hp : p.Lands s.synced.cpu.protectedMode)
    (hc : c = { u.cpu.jump p with
      gprs := c.gprs, flags := c.flags, halted := c.halted, interruptLevel := c.interruptLevel })
    (hhalted : c.halted = true → u.cpu.halted = true)
    (hresume : c.flags.resume = true → u.cpu.flags.resume = true)
    (hvirtual : c.flags.virtual8086 = u.cpu.flags.virtual8086) :
    Transfer s { u with cpu := c } := by
  have hcode : c.segment .cs = p.segment := by rw [hc]; rfl
  have hmode : c.protectedMode = s.synced.cpu.protectedMode := by rw [hc]; exact h.mode
  have hcontrol : c.control = s.cpu.control := by
    rw [hc]; exact h.control.resolve_right id
  constructor
  case mode =>
    have : c.protectionEnabled = s.cpu.protectionEnabled := by
      simp only [Cpu.protectionEnabled, Cpu.cr0, hcontrol]
    exact hmode.trans this.symm
  case eip =>
    have heip : c.eip = p.offset := by rw [hc]; rfl
    change c.eip ≤ if (c.segment .cs).descriptor.wide then 0xFFFFFFFF else 0xFFFF
    rw [hcode, heip]
    exact hp.offset
  case code =>
    right
    change SegmentName.cs.Loads c.protectedMode (c.segment .cs)
    rw [hcode, hmode]
    exact hp.loads
  case others =>
    intro n hn
    have hset : c.segment n = (u.cpu.setSegment .cs p.segment).segment n := by rw [hc]; rfl
    have hkept : u.cpu.segment n = s.cpu.segment n := (h.segments n).resolve_right (·.1)
    exact hset.trans (((u.cpu.segment_setSegment .cs n p.segment).trans (if_neg hn)).trans hkept)
  case control => exact hcontrol
  case debug => change c.debug = _; rw [hc]; exact h.debug.resolve_right id
  case gdtr => change c.gdtr = _; rw [hc]; exact h.gdtr.resolve_right id
  case idtr => change c.idtr = _; rw [hc]; exact h.idtr.resolve_right id
  case halted =>
    intro e
    have := hhalted e
    rwa [h.halted] at this
  case resume =>
    intro e
    have := hresume e
    rwa [h.resume] at this
  case virtual8086 => exact hvirtual.trans h.virtual8086
  case io => exact h.io.resolve_right id

/-- No segment register but CS is loaded, and CS in the mode that the transfer has sampled. -/
theorem segment (h : Transfer s t) (n : SegmentName) :
    t.cpu.segment n = s.cpu.segment n ∨ n.Loads t.cpu.protectedMode (t.cpu.segment n) := by
  by_cases hn : n = .cs
  · subst hn
    exact h.code
  · exact .inl (h.others n hn)

/-- What follows a transfer without moving on. -/
theorem trans_frame (h : Transfer s t) (h' : Unmoved t u) : Transfer s u := by
  have hcontrol : u.cpu.control = t.cpu.control := h'.control.resolve_right id
  constructor
  case mode =>
    have : u.cpu.protectionEnabled = t.cpu.protectionEnabled := by
      simp only [Cpu.protectionEnabled, Cpu.cr0, hcontrol]
    rw [h'.mode, this, h.mode]
  case eip =>
    have hmask : u.cpu.ipMask = t.cpu.ipMask :=
      congrArg (fun g : Segment => if g.descriptor.wide then 0xFFFFFFFF else 0xFFFF) h'.code
    rw [h'.eip, hmask]
    exact h.eip
  case code => rw [h'.code, h'.mode]; exact h.code
  case others =>
    intro n hn
    exact ((h'.segments n).resolve_right (·.1)).trans (h.others n hn)
  case control => exact hcontrol.trans h.control
  case debug => exact (h'.debug.resolve_right id).trans h.debug
  case gdtr => exact (h'.gdtr.resolve_right id).trans h.gdtr
  case idtr => exact (h'.idtr.resolve_right id).trans h.idtr
  case halted => rw [h'.halted]; exact h.halted
  case resume => rw [h'.resume]; exact h.resume
  case virtual8086 => exact h'.virtual8086.trans h.virtual8086
  case io => exact (h'.io.resolve_right id).trans h.io

end Transfer

/-! ## Computations that transfer control -/

namespace Exec

variable {α β : Type}

/-- If `x` answers, it has transferred control. -/
def Transfers (x : Exec δ α) : Prop := ∀ s a t, x.run s = .ok a t → Transfer s t

namespace Transfers

theorem reads_bind {x : Exec δ α} {g : α → Exec δ β} (hx : Reads x) (hg : ∀ a, Transfers (g a)) :
    Transfers (x >>= g) := by
  obtain ⟨r, hr, -⟩ := hx
  intro s b t h
  rw [run_bind_of_ok (hr s)] at h
  exact hg _ s b t h

theorem gets_bind (f : System δ → α) {g : α → Exec δ β} (hg : ∀ a, Transfers (g a)) :
    Transfers (gets f >>= g) := by
  intro s b t h
  rw [run_gets_bind] at h
  exact hg _ s b t h

theorem get_bind {g : System δ → Exec δ β} (hg : ∀ s, Transfers (g s)) :
    Transfers (get >>= g) := by
  intro s b t h
  rw [run_get_bind] at h
  exact hg s s b t h

theorem bind {x : Exec δ α} {g : α → Exec δ β} (hx : Transfers x)
    (hg : ∀ a, Keeps (fun _ => False) (g a)) : Transfers (x >>= g) := by
  intro s b t h
  rw [run_bind] at h
  cases e : x.run s with
  | ok a u => rw [e] at h; exact (hx s a u e).trans_frame (hg a u b t h)
  | error f u => rw [e] at h; cases h

end Transfers

theorem transfers_farTransfer (selector : UInt16) (offset : UInt32) :
    Transfers (farTransfer selector offset : Exec δ Unit) := by
  intro s _ t h
  rw [run_farTransfer] at h
  cases e : s.synced.targetFor selector offset with
  | error f => rw [e] at h; cases h
  | ok p =>
    rw [e] at h
    cases h
    exact .of_jump (.consulted _ _) (System.lands_of_targetFor e) rfl id id rfl

theorem transfers_nearTransfer (target : UInt32) :
    Transfers (nearTransfer target : Exec δ Unit) := by
  intro s _ t h
  rw [run_nearTransfer] at h
  split_ifs at h
  cases h
  exact ⟨rfl, UInt32.and_le _ _, .inl rfl, fun _ _ => rfl, rfl, rfl, rfl, rfl, id, id, rfl, rfl⟩

theorem transfers_deliver (v : UInt8) (returnEip : UInt32) :
    Transfers (deliver v returnEip : Exec δ Unit) := by
  intro s _ t h
  rw [run_deliver] at h
  cases e : s.synced.gateFor v with
  | error f => rw [e] at h; cases h
  | ok g =>
    rw [e] at h
    cases h
    have hpushed : Unmoved s.synced ((s.synced.gated v).pushFrame g.frame returnEip) :=
      (Frame.gated _ v).trans (((Frame.push _ _ _).trans (.push _ _ _)).trans (.push _ _ _))
    refine .of_jump hpushed (System.lands_of_gateFor e) rfl Bool.noConfusion ?_ ?_
    · cases g.kind
      case vector => exact id
      all_goals exact Bool.noConfusion
    · cases g.kind <;> rfl

theorem transfers_interruptReturn (w : Width) :
    Transfers (interruptReturn w : Exec δ Unit) := by
  intro s _ t h
  rw [run_interruptReturn] at h
  cases e : s.synced.targetFor (s.peek w.stride w).toUInt16 (s.peek 0 w) with
  | error f => rw [e] at h; cases h
  | ok p =>
    rw [e] at h
    cases h
    exact .of_jump (.consulted _ _) (System.lands_of_targetFor e) rfl id id rfl

/-! ## Branch operations -/

/-- If `x` answers, either nothing has moved or control has been transferred, and the answer
tells which. -/
def Moves (x : Exec δ Outcome) : Prop := ∀ s o t, x.run s = .ok o t →
  o = .next ∧ Unmoved s t ∨ o = .branch ∧ Transfer s t

namespace Moves

theorem next {x : Exec δ α} (h : Keeps (fun _ => False) x) :
    Moves (x >>= fun _ => pure .next) := by
  intro s o t e
  rw [run_bind] at e
  cases hx : x.run s with
  | ok a u => rw [hx] at e; cases e; exact .inl ⟨rfl, h s a _ hx⟩
  | error f u => rw [hx] at e; cases e

theorem branch {x : Exec δ α} (h : Transfers x) : Moves (x >>= fun _ => pure .branch) := by
  intro s o t e
  rw [run_bind] at e
  cases hx : x.run s with
  | ok a u => rw [hx] at e; cases e; exact .inr ⟨rfl, h s a _ hx⟩
  | error f u => rw [hx] at e; cases e

theorem reads_bind {x : Exec δ α} {g : α → Exec δ Outcome} (hx : Reads x)
    (hg : ∀ a, Moves (g a)) : Moves (x >>= g) := by
  obtain ⟨r, hr, -⟩ := hx
  intro s o t h
  rw [run_bind_of_ok (hr s)] at h
  exact hg _ s o t h

theorem gets_bind (f : System δ → α) {g : α → Exec δ Outcome} (hg : ∀ a, Moves (g a)) :
    Moves (gets f >>= g) := by
  intro s o t h
  rw [run_gets_bind] at h
  exact hg _ s o t h

/-- The answer of `x` is kept for later. -/
theorem bind {x : Exec δ Outcome} {f : Cpu → Cpu} (hx : Moves x)
    (hf : ∀ s : System δ, Unmoved s (s.modifyCpu f)) :
    Moves (x >>= fun o => modifyCpu f >>= fun _ => pure o) := by
  intro s o t e
  rw [run_bind] at e
  cases h : x.run s with
  | ok a u =>
    rw [h] at e
    cases e
    exact (hx s _ u h).imp (fun k => ⟨k.1, k.2.trans (hf u)⟩)
      fun k => ⟨k.1, k.2.trans_frame (hf u)⟩
  | error g u => rw [h] at e; cases e

end Moves

variable {i : Instruction} {x : Operand}

theorem moves_jumpIf (taken : Bool) (h : i.operands[0]? = some x) :
    Moves (jumpIf taken i : Exec δ Outcome) := by
  rw [jumpIf]
  split_ifs
  · rw [readOperand_eq h]
    exact .gets_bind _ fun v => .branch (transfers_nearTransfer v)
  · exact .next (.pure ())

theorem moves_countDown (l : LoopTest) (h : i.operands[0]? = some x) :
    Moves (countDown l i : Exec δ Outcome) :=
  .gets_bind _ fun _ => (moves_jumpIf _ h).bind fun _ => .of_eq rfl rfl rfl

theorem transfers_nearCall (next : UInt32) (h : i.operands[0]? = some x) :
    Transfers (nearCall i next : Exec δ Unit) :=
  .reads_bind (reads_nearTarget h) fun v =>
    (transfers_nearTransfer v).bind fun _ => .modify fun s => .push s _ _

theorem transfers_farCall (next : UInt32)
    (h : (Operation.branch .jmpFar).accepts (i.operands.map Operand.class) = true) :
    Transfers (farCall i next : Exec δ Unit) :=
  .reads_bind (reads_farTarget h) fun p => .gets_bind _ fun _ =>
    (transfers_farTransfer p.1 p.2).bind fun _ =>
      .modify fun s => (Frame.push s _ _).trans (.push _ _ _)

theorem transfers_nearReturn : Transfers (nearReturn i : Exec δ Unit) :=
  .gets_bind _ fun v => (transfers_nearTransfer v).bind fun _ => keeps_adjustStack _

theorem transfers_farReturn : Transfers (farReturn i : Exec δ Unit) :=
  .get_bind fun _ => (transfers_farTransfer _ _).bind fun _ => keeps_adjustStack _

theorem keeps_enterFrame (w : Width) (space : UInt32) (depth : Nat) :
    Keeps (fun _ => False) (modify fun s => s.enterFrame w space depth : Exec δ PUnit) := by
  -- each link is pushed like any element
  have hlinks (n : Nat) (outer : UInt32) (s t : System δ) (h : Unmoved s t) :
      Unmoved s (t.pushLinks w n outer) := by
    induction n generalizing outer t with
    | zero => exact h
    | succ n ih => exact ih _ _ (h.trans (.push _ _ _))
  refine .modify fun s => ?_
  have hpushed : Unmoved s (s.push w (s.cpu.low .ebp w)) := .push _ _ _
  have hframe (t : System δ) (v : UInt32) : Unmoved t
      (t.modifyCpu fun c => (c.setLow .ebp w v).adjustStack (-space)) := .of_eq rfl rfl rfl
  cases depth with
  | zero => exact hpushed.trans (hframe _ _)
  | succ n => exact ((hlinks n _ s _ hpushed).trans (.push _ w _)).trans (hframe _ _)

end Exec

open Exec
open Instruction (operands_zero operands_one)

theorem BranchOp.moves {i : Instruction} (o : BranchOp) (next : UInt32)
    (h : (Operation.branch o).accepts (i.operands.map Operand.class) = true) :
    Moves (o.perform i next : Exec δ Outcome) := by
  cases o
  case jmp =>
    obtain ⟨x, hops, -⟩ := Operation.operand_of_accepts h rfl
    exact .reads_bind (reads_nearTarget (operands_zero hops)) fun v =>
      .branch (transfers_nearTransfer v)
  case jmpFar =>
    exact .reads_bind (reads_farTarget h) fun p => .branch (transfers_farTransfer p.1 p.2)
  case jcc c =>
    obtain ⟨x, hops, -⟩ := Operation.operand_of_accepts h rfl
    exact .gets_bind _ fun _ => moves_jumpIf _ (operands_zero hops)
  case jcxz =>
    obtain ⟨x, hops, -⟩ := Operation.operand_of_accepts h rfl
    exact .gets_bind _ fun _ => moves_jumpIf _ (operands_zero hops)
  case loop t =>
    obtain ⟨x, hops, -⟩ := Operation.operand_of_accepts h rfl
    exact moves_countDown t (operands_zero hops)
  case call =>
    obtain ⟨x, hops, -⟩ := Operation.operand_of_accepts h rfl
    exact .branch (transfers_nearCall next (operands_zero hops))
  case callFar => exact .branch (transfers_farCall next h)
  case ret => exact .branch transfers_nearReturn
  case retFar => exact .branch transfers_farReturn
  case int =>
    obtain ⟨x, hops, -⟩ := Operation.operand_of_accepts h rfl
    rw [perform, readOperand_eq (operands_zero hops)]
    exact .gets_bind _ fun v => .branch (transfers_deliver v.toUInt8 next)
  case int3 => exact .branch (transfers_deliver 3 next)
  case into =>
    rw [perform]
    refine .gets_bind _ fun taken => ?_
    split_ifs
    · exact .branch (transfers_deliver 4 next)
    · exact .next (.pure ())
  case iret => exact .branch (transfers_interruptReturn _)
  case enter =>
    obtain ⟨x, y, hops, -, -⟩ := Operation.operands_of_accepts h rfl
    rw [perform, readOperand_eq (operands_zero hops), readOperand_eq (operands_one hops)]
    exact .gets_bind _ fun _ => .gets_bind _ fun _ => .next (keeps_enterFrame _ _ _)
  case leave => exact .next (.modify fun s => .of_eq rfl rfl rfl)

end Ia32
