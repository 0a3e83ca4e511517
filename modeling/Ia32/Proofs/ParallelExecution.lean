/-
  Instructions do the same on two systems that differ in their ports.

  Main statements:
  - `ArithmeticOp.parallel`, … : the operations of each unit
  - `Instruction.parallel_perform`, `Exec.parallel_execute` : any instruction, decoded or not
-/
import Ia32.Processor
import Ia32.Proofs.Parallel

namespace Ia32

variable {δ σ : Type} {Q : Io δ → Io σ → Prop} {i : Instruction}

namespace Exec

/-! ## Operands -/

theorem parallel_storeRegister (r : RegisterRef) (v : UInt32) :
    Parallel Q (storeRegister r v) (storeRegister r v) := by
  unfold storeRegister
  cases r.file
  case segment =>
    dsimp only
    split
    · exact .throw _
    · exact .throw _
    · exact parallel_setSelector _ _
  all_goals
    refine (Parallel.gets fun _ _ => rfl).bind fun c => ?_
    cases c with
    | some c => exact .modifyCpu _
    | none => exact .throw _

theorem parallel_store (w : Width) (v : UInt32) (l : Location) :
    Parallel Q (store w v l) (store w v l) := by
  cases l with
  | register r => exact parallel_storeRegister r v
  | memory n offset => exact .modify (fun _ => rfl) fun _ _ => rfl
  | immediate v => exact .throw _

theorem parallel_operand (k : Nat) : Parallel Q (operand i k) (operand i k) := by
  unfold operand
  cases i.operands[k]? with
  | some x => exact .pure x
  | none => exact .throw _

theorem parallel_readOperand (k : Nat) : Parallel Q (readOperand i k) (readOperand i k) :=
  (parallel_operand k).bind fun _ => .gets fun _ _ => rfl

theorem parallel_writeOperand (k : Nat) (v : UInt32) :
    Parallel Q (writeOperand i k v) (writeOperand i k v) :=
  (parallel_operand k).bind fun _ => (Parallel.gets fun _ _ => rfl).bind fun _ =>
    parallel_store _ _ _

theorem parallel_memoryOperand (k : Nat) :
    Parallel Q (memoryOperand i k) (memoryOperand i k) := by
  refine (parallel_operand k).bind fun x => (Parallel.gets fun _ _ => rfl).bind fun l => ?_
  cases l with
  | memory n offset => exact .pure _
  | register r => exact .throw _
  | immediate v => exact .throw _

theorem parallel_readFarPointer (k : Nat) :
    Parallel Q (readFarPointer i k) (readFarPointer i k) :=
  (parallel_memoryOperand k).bind fun _ => .get_bind fun _ _ _ => .pure _

theorem parallel_transform (f : Flags → Width → UInt32 → UInt32 × Flags) :
    Parallel Q (transform i f) (transform i f) :=
  (parallel_operand 0).bind fun _ => .get_bind fun _ _ _ => (Parallel.modifyCpu _).bind fun _ =>
    parallel_store _ _ _

theorem parallel_examine (f : Flags → Width → UInt32 → UInt32 × Flags) :
    Parallel Q (examine i f) (examine i f) :=
  (parallel_operand 0).bind fun _ => (parallel_readOperand 0).bind fun _ => .modifyCpu _

/-! ## Arithmetic -/

theorem parallel_multiplyWide
    (f : Flags → Width → UInt32 → UInt32 → (UInt32 × UInt32) × Flags) :
    Parallel Q (multiplyWide i f) (multiplyWide i f) :=
  (parallel_operand 0).bind fun _ => (parallel_readOperand 0).bind fun _ => .modifyCpu _

theorem parallel_divideWide (f : Width → UInt64 → UInt32 → Except Fault (UInt32 × UInt32)) :
    Parallel Q (divideWide i f) (divideWide i f) :=
  (parallel_operand 0).bind fun _ => (parallel_readOperand 0).bind fun _ =>
    (Parallel.gets fun _ _ => rfl).bind fun _ => (Parallel.ofExcept _).bind fun _ => .modifyCpu _

theorem parallel_multiplyInto (k l : Nat) :
    Parallel Q (multiplyInto i k l) (multiplyInto i k l) :=
  (parallel_operand 0).bind fun _ => (parallel_readOperand k).bind fun _ =>
    (parallel_readOperand l).bind fun _ => (Parallel.gets fun _ _ => rfl).bind fun _ =>
      (Parallel.modifyCpu _).bind fun _ => parallel_writeOperand 0 _

theorem parallel_digitBase : Parallel Q (digitBase i) (digitBase i) := by
  unfold digitBase
  split_ifs
  · exact .pure _
  · exact (parallel_readOperand 0).bind fun _ => .pure _

end Exec

open Exec

theorem ArithmeticOp.parallel (o : ArithmeticOp) : Parallel Q (o.perform i) (o.perform i) := by
  cases o <;> rw [perform, perform]
  case add | adc | sub | sbb => exact (parallel_readOperand 1).bind fun _ => parallel_transform _
  case cmp => exact (parallel_readOperand 1).bind fun _ => parallel_examine _
  case inc | dec | neg => exact parallel_transform _
  case mul => exact parallel_multiplyWide _
  case imul =>
    split
    · exact parallel_multiplyWide _
    · exact parallel_multiplyInto 0 1
    · exact parallel_multiplyInto 1 2
    · exact .throw _
  case div | idiv => exact parallel_divideWide _
  case cbw | cwd => exact .modifyCpu _

theorem DecimalOp.parallel (o : DecimalOp) : Parallel Q (o.perform i) (o.perform i) := by
  cases o
  case daa | das | aaa | aas => exact (Parallel.gets fun _ _ => rfl).bind fun _ => .modifyCpu _
  case aam =>
    exact parallel_digitBase.bind fun _ => (Parallel.gets fun _ _ => rfl).bind fun _ =>
      (Parallel.ofExcept _).bind fun _ => .modifyCpu _
  case aad =>
    exact parallel_digitBase.bind fun _ => (Parallel.gets fun _ _ => rfl).bind fun _ => .modifyCpu _

/-! ## Logic and bits -/

theorem LogicOp.parallel (o : LogicOp) : Parallel Q (o.perform i) (o.perform i) := by
  cases o <;> rw [perform, perform]
  case and | or | xor => exact (parallel_readOperand 1).bind fun _ => parallel_transform _
  case test => exact (parallel_readOperand 1).bind fun _ => parallel_examine _
  case not => exact parallel_transform _

theorem ShiftRotateOp.parallel (o : ShiftRotateOp) : Parallel Q (o.perform i) (o.perform i) := by
  unfold perform
  split_ifs
  · refine (parallel_readOperand 1).bind fun _ => ?_
    cases o <;> exact parallel_transform _
  · refine (Parallel.pure 1).bind fun _ => ?_
    cases o <;> exact parallel_transform _

namespace Exec

theorem parallel_locateBit : Parallel Q (locateBit i) (locateBit i) := by
  refine (parallel_operand 0).bind fun x => (parallel_operand 1).bind fun y =>
    (parallel_readOperand 1).bind fun n => (Parallel.gets fun _ _ => rfl).bind fun l => ?_
  cases l <;> cases y <;> exact .pure _

theorem parallel_testBit (u : BitUpdate) : Parallel Q (testBit u i) (testBit u i) := by
  refine (parallel_operand 0).bind fun x => parallel_locateBit.bind fun l =>
    (Parallel.gets fun _ _ => rfl).bind fun v => (Parallel.modifyCpu _).bind fun _ => ?_
  split_ifs
  · exact .pure _
  · exact parallel_store _ _ _

theorem parallel_scanBits (scan : UInt32 → Option Nat) :
    Parallel Q (scanBits scan i) (scanBits scan i) := by
  refine (parallel_operand 0).bind fun x => (parallel_readOperand 1).bind fun v => ?_
  cases scan (x.width.truncate v) with
  | none => exact .modifyCpu _
  | some n => exact (Parallel.modifyCpu _).bind fun _ => parallel_writeOperand 0 _

end Exec

theorem BitByteOp.parallel (o : BitByteOp) : Parallel Q (o.perform i) (o.perform i) := by
  cases o
  case setcc c => exact (Parallel.gets fun _ _ => rfl).bind fun _ => parallel_writeOperand 0 _
  case bitTest u => exact parallel_testBit u
  case scanForward | scanReverse => exact parallel_scanBits _

/-! ## Transfers of data -/

namespace Exec

theorem parallel_exchange : Parallel Q (exchange i) (exchange i) :=
  (parallel_operand 0).bind fun _ => (parallel_operand 1).bind fun _ => .get_bind fun _ _ _ =>
    (parallel_store _ _ _).bind fun _ => parallel_store _ _ _

theorem parallel_loadAddress : Parallel Q (loadAddress i) (loadAddress i) :=
  (parallel_memoryOperand 1).bind fun _ => parallel_writeOperand 0 _

theorem parallel_popOperand : Parallel Q (popOperand i) (popOperand i) := by
  refine (parallel_operand 0).bind fun x => (Parallel.gets fun _ _ => rfl).bind fun v => ?_
  split
  · exact (parallel_storeRegister _ _).bind fun _ => .modifyCpu _
  · exact (Parallel.modifyCpu _).bind fun _ => parallel_writeOperand 0 _

theorem parallel_loadFarPointer (n : SegmentName) :
    Parallel Q (loadFarPointer n i) (loadFarPointer n i) :=
  (parallel_readFarPointer 1).bind fun _ => (parallel_setSelector _ _).bind fun _ =>
    parallel_writeOperand 0 _

theorem parallel_lookUp : Parallel Q (lookUp i) (lookUp i) :=
  .get_bind fun _ _ _ => .modifyCpu _

end Exec

namespace System

/-- Changes one after the other. -/
theorem foldl_withIo {α : Type} {f : System δ → α → System δ} {g : System σ → α → System σ}
    {io : Io σ} (h : ∀ s x, g (s.withIo io) x = (f s x).withIo io) (xs : List α) (s : System δ) :
    xs.foldl g (s.withIo io) = (xs.foldl f s).withIo io := by
  induction xs generalizing s with
  | nil => rfl
  | cons x xs ih => rw [List.foldl_cons, h, ih, List.foldl_cons]

theorem io_foldl {α : Type} {f : System δ → α → System δ} (h : ∀ s x, (f s x).io = s.io)
    (xs : List α) (s : System δ) : (xs.foldl f s).io = s.io := by
  induction xs generalizing s with
  | nil => rfl
  | cons x xs ih => rw [List.foldl_cons, ih, h]

theorem pushAll_withIo (s : System δ) (io : Io σ) (w : Width) :
    (s.withIo io).pushAll w = (s.pushAll w).withIo io :=
  foldl_withIo (fun _ _ => rfl) _ s

theorem io_pushAll (s : System δ) (w : Width) : (s.pushAll w).io = s.io := by
  have hpush (t : System δ) (r : Gpr) : (t.push w (s.cpu.low r w)).io = t.io := rfl
  exact io_foldl hpush _ s

theorem popAll_withIo (s : System δ) (io : Io σ) (w : Width) :
    (s.withIo io).popAll w = (s.popAll w).withIo io :=
  foldl_withIo (fun _ r => by dsimp only; split_ifs <;> rfl) _ s

theorem io_popAll (s : System δ) (w : Width) : (s.popAll w).io = s.io :=
  io_foldl (fun _ r => by dsimp only; split_ifs <;> rfl) _ s

end System

theorem TransferOp.parallel (o : TransferOp) : Parallel Q (o.perform i) (o.perform i) := by
  cases o <;> rw [perform, perform]
  case mov => exact (parallel_readOperand 1).bind fun _ => parallel_writeOperand 0 _
  case movzx | movsx =>
    exact (parallel_operand 1).bind fun _ => (parallel_readOperand 1).bind fun _ =>
      parallel_writeOperand 0 _
  case xchg => exact parallel_exchange
  case lea => exact parallel_loadAddress
  case push =>
    exact (parallel_readOperand 0).bind fun _ => .modify (fun _ => rfl) fun _ _ => rfl
  case pop => exact parallel_popOperand
  case pusha => exact .modify (fun s => s.io_pushAll _) fun s io => s.pushAll_withIo io _
  case popa => exact .modify (fun s => s.io_popAll _) fun s io => s.popAll_withIo io _
  case pushf | popf => exact .modify (fun _ => rfl) fun _ _ => rfl
  case lahf | sahf => exact .modifyCpu _
  case loadFar n => exact parallel_loadFarPointer n
  case xlat => exact parallel_lookUp

/-! ## Transfers of control -/

namespace Exec

theorem parallel_nearTarget : Parallel Q (nearTarget i) (nearTarget i) := by
  refine (parallel_readOperand 0).bind fun v => (parallel_operand 0).bind fun x => ?_
  cases x <;> exact .pure _

theorem parallel_farTarget : Parallel Q (farTarget i) (farTarget i) := by
  refine (parallel_operand 0).bind fun x => ?_
  cases x with
  | immediate offset w => exact (parallel_readOperand 1).bind fun _ => .pure _
  | register r => exact parallel_readFarPointer 0
  | memory m w => exact parallel_readFarPointer 0

theorem parallel_jumpIf (taken : Bool) : Parallel Q (jumpIf taken i) (jumpIf taken i) := by
  unfold jumpIf
  split_ifs
  · exact (parallel_readOperand 0).bind fun _ => (parallel_nearTransfer _).bind fun _ => .pure _
  · exact .pure _

theorem parallel_countDown (t : LoopTest) : Parallel Q (countDown t i) (countDown t i) :=
  (Parallel.gets fun _ _ => rfl).bind fun _ => (parallel_jumpIf _).bind fun _ =>
    (Parallel.modifyCpu _).bind fun _ => .pure _

theorem parallel_nearCall (next : UInt32) : Parallel Q (nearCall i next) (nearCall i next) :=
  parallel_nearTarget.bind fun _ => (parallel_nearTransfer _).bind fun _ =>
    .modify (fun _ => rfl) fun _ _ => rfl

theorem parallel_farCall (next : UInt32) : Parallel Q (farCall i next) (farCall i next) :=
  parallel_farTarget.bind fun _ => (Parallel.gets fun _ _ => rfl).bind fun _ =>
    (parallel_farTransfer _ _).bind fun _ => .modify (fun _ => rfl) fun _ _ => rfl

theorem parallel_nearReturn : Parallel Q (nearReturn i) (nearReturn i) :=
  (Parallel.gets fun _ _ => rfl).bind fun _ => (parallel_nearTransfer _).bind fun _ =>
    .modifyCpu _

theorem parallel_farReturn : Parallel Q (farReturn i) (farReturn i) :=
  .get_bind fun _ _ _ => (parallel_farTransfer _ _).bind fun _ => .modifyCpu _

end Exec

namespace System

theorem pushLinks_withIo (w : Width) (n : Nat) (outer : UInt32) (s : System δ) (io : Io σ) :
    (s.withIo io).pushLinks w n outer = (s.pushLinks w n outer).withIo io := by
  induction n generalizing outer s with
  | zero => rfl
  | succ n ih => exact ih _ (s.push w _)

theorem io_pushLinks (w : Width) (n : Nat) (outer : UInt32) (s : System δ) :
    (s.pushLinks w n outer).io = s.io := by
  induction n generalizing outer s with
  | zero => rfl
  | succ n ih => exact ih _ (s.push w _)

theorem enterFrame_withIo (s : System δ) (io : Io σ) (w : Width) (space : UInt32) (depth : Nat) :
    (s.withIo io).enterFrame w space depth = (s.enterFrame w space depth).withIo io := by
  cases depth with
  | zero => rfl
  | succ n =>
    unfold enterFrame
    dsimp only
    rw [show (s.withIo io).push w _ = (s.push w _).withIo io from rfl, pushLinks_withIo]
    rfl

theorem io_enterFrame (s : System δ) (w : Width) (space : UInt32) (depth : Nat) :
    (s.enterFrame w space depth).io = s.io := by
  cases depth with
  | zero => rfl
  | succ n => exact io_pushLinks _ _ _ _

end System

theorem BranchOp.parallel (o : BranchOp) (next : UInt32) :
    Parallel Q (o.perform i next) (o.perform i next) := by
  cases o
  case jmp =>
    exact parallel_nearTarget.bind fun _ => (parallel_nearTransfer _).bind fun _ => .pure _
  case jmpFar =>
    exact parallel_farTarget.bind fun _ => (parallel_farTransfer _ _).bind fun _ => .pure _
  case jcc c => exact (Parallel.gets fun _ _ => rfl).bind fun _ => parallel_jumpIf _
  case jcxz => exact (Parallel.gets fun _ _ => rfl).bind fun _ => parallel_jumpIf _
  case loop t => exact parallel_countDown t
  case call => exact (parallel_nearCall next).bind fun _ => .pure _
  case callFar => exact (parallel_farCall next).bind fun _ => .pure _
  case ret => exact parallel_nearReturn.bind fun _ => .pure _
  case retFar => exact parallel_farReturn.bind fun _ => .pure _
  case int =>
    exact (parallel_readOperand 0).bind fun _ => (parallel_deliver _ next).bind fun _ => .pure _
  case int3 => exact (parallel_deliver 3 next).bind fun _ => .pure _
  case into =>
    refine (Parallel.gets fun _ _ => rfl).bind fun taken => ?_
    split_ifs
    · exact (parallel_deliver 4 next).bind fun _ => .pure _
    · exact .pure _
  case iret => exact (parallel_interruptReturn _).bind fun _ => .pure _
  case enter =>
    exact (parallel_readOperand 0).bind fun _ => (parallel_readOperand 1).bind fun _ =>
      .bind (.modify (fun s => s.io_enterFrame _ _ _) fun s io => s.enterFrame_withIo io _ _ _)
        fun _ => .pure _
  case leave => exact .bind (.modify (fun _ => rfl) fun _ _ => rfl) fun _ => .pure _

/-! ## Strings, ports and the processor itself -/

section

variable (hQ : Io.Alike Q) {s : System δ} {io : Io σ}

include hQ

/-- The value that is read from a port is the same. -/
theorem System.readPort_withIo (h : Q s.io io) (port : UInt16) (w : Width) :
    ∃ jo, Q (s.readPort port w).2.io jo ∧
      (s.withIo io).readPort port w = ((s.readPort port w).1, (s.readPort port w).2.withIo jo) := by
  obtain ⟨hvalue, hio⟩ := hQ.read h port (UInt8.ofNat w.bytes)
  exact ⟨_, hio, Prod.ext hvalue rfl⟩

namespace StringOp

theorem element_withIo (o : StringOp) (h : Q s.io io) :
    ∃ jo, Q (o.element i s).io jo ∧ o.element i (s.withIo io) = (o.element i s).withIo jo := by
  cases o
  case ins =>
    obtain ⟨jo, hjo, e⟩ := System.readPort_withIo hQ h s.cpu.dx i.dataWidth
    refine ⟨jo, hjo, ?_⟩
    simp only [element, System.cpu_withIo, e]
    rfl
  case outs => exact ⟨_, hQ.write h _ _ _, rfl⟩
  all_goals exact ⟨io, h, rfl⟩

theorem repetition_withIo (o : StringOp) (p : Repeat) (n : Nat) (h : Q s.io io) :
    ∃ jo, Q (o.repetition i p n s).io jo ∧
      o.repetition i p n (s.withIo io) = (o.repetition i p n s).withIo jo := by
  induction n generalizing s io with
  | zero => exact ⟨io, h, rfl⟩
  | succ n ih =>
    obtain ⟨jo, hjo, e⟩ := element_withIo hQ (i := i) o h
    let count (c : Cpu) : Cpu := c.setLow .ecx i.addressSize.width (UInt32.ofNat n)
    have hcounted : Q ((o.element i s).modifyCpu count).io jo := hjo
    have ecounted : (o.element i (s.withIo io)).modifyCpu count =
        ((o.element i s).modifyCpu count).withIo jo := by rw [e]; rfl
    simp only [repetition]
    rw [ecounted, System.cpu_withIo]
    split_ifs
    · exact ih hcounted
    · exact ⟨jo, hcounted, rfl⟩

theorem perform_withIo (o : StringOp) (h : Q s.io io) :
    ∃ jo, Q (o.perform i s).io jo ∧ o.perform i (s.withIo io) = (o.perform i s).withIo jo := by
  unfold perform
  cases i.prefixes.rep with
  | none => exact element_withIo hQ o h
  | some p => exact repetition_withIo hQ o p _ h

end StringOp

theorem PortOp.parallel (o : PortOp) : Parallel Q (o.perform i) (o.perform i) := by
  cases o
  case input =>
    refine (parallel_operand 0).bind fun x => (parallel_readOperand 1).bind fun port => ?_
    intro s io h
    obtain ⟨jo, hjo, e⟩ := System.readPort_withIo hQ h port.toUInt16 x.width
    rw [run_get_bind, run_get_bind, e]
    exact parallel_writeOperand 0 _ _ jo hjo
  case output =>
    exact (parallel_operand 1).bind fun _ => (parallel_readOperand 0).bind fun _ =>
      (parallel_readOperand 1).bind fun _ =>
        .modify_of fun s io h => ⟨_, hQ.write h _ _ _, rfl⟩

end

namespace Exec

theorem parallel_readTable : Parallel Q (readTable i) (readTable i) :=
  (parallel_memoryOperand 0).bind fun _ => .get_bind fun _ _ _ => .pure _

theorem parallel_writeTable (t : TableRegister) :
    Parallel Q (writeTable t i) (writeTable t i) := by
  refine (parallel_memoryOperand 0).bind fun x => .modify (fun _ => rfl) fun s io => ?_
  rw [System.write_withIo, System.write_withIo]

end Exec

theorem SystemOp.parallel (o : SystemOp) : Parallel Q (o.perform i) (o.perform i) := by
  cases o
  case hlt =>
    refine (Parallel.gets fun _ _ => rfl).bind fun enabled => ?_
    split_ifs
    · exact .pure _
    · exact .throw _
  case nop => exact .pure _
  case lgdt | lidt =>
    exact parallel_readTable.bind fun _ => (Parallel.modifyCpu _).bind fun _ => .pure _
  case sgdt | sidt =>
    exact (Parallel.gets fun _ _ => rfl).bind fun _ => (parallel_writeTable _).bind fun _ => .pure _
  case lmsw =>
    exact (parallel_readOperand 0).bind fun _ => (Parallel.modifyCpu _).bind fun _ => .pure _
  case smsw =>
    exact (Parallel.gets fun _ _ => rfl).bind fun _ => (parallel_writeOperand 0 _).bind fun _ =>
      .pure _

/-! ## Instructions -/

/-- Any instruction will do, even one that no bytes encode. -/
theorem Instruction.parallel_perform (hQ : Io.Alike Q) (i : Instruction) (next : UInt32) :
    Parallel Q (i.perform next) (i.perform next) := by
  unfold perform
  split
  case h_1 o _ _ => exact o.parallel next
  case h_2 o _ _ => exact o.parallel.bind fun _ => .pure _
  case h_3 o _ _ => exact o.parallel.bind fun _ => .pure _
  case h_4 o _ _ => exact o.parallel.bind fun _ => .pure _
  case h_5 o _ _ => exact o.parallel.bind fun _ => .pure _
  case h_6 o _ _ => exact o.parallel.bind fun _ => .pure _
  case h_7 o _ _ => exact o.parallel.bind fun _ => .pure _
  case h_8 o _ _ =>
    exact .bind (.modify_of fun s io h => o.perform_withIo hQ h) fun _ => .pure _
  case h_9 =>
    refine (Parallel.gets fun _ _ => rfl).bind fun n => ?_
    split_ifs
    · exact .pure _
    · exact .throw _
  case h_10 o _ _ => exact (o.parallel hQ).bind fun _ => .pure _
  case h_11 o _ _ => exact (Parallel.modifyCpu _).bind fun _ => .pure _
  case h_12 o _ _ => exact o.parallel
  case h_13 => exact .throw _

theorem Exec.parallel_execute (hQ : Io.Alike Q) (i : Instruction) :
    Parallel Q (execute i) (execute i) := by
  refine (Parallel.gets fun _ _ => rfl).bind fun next =>
    (i.parallel_perform hQ next).bind fun o => ?_
  cases o with
  | next => exact (Parallel.modifyCpu _).bind fun _ => .pure _
  | branch => exact .pure _
  | halt => exact (Parallel.modifyCpu _).bind fun _ => .pure _

end Ia32
