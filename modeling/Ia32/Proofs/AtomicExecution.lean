/-
  Faults are atomic: a cycle that faults leaves a residue only.

  This holds for every well-formed instruction.  What a disassembler gives is well formed if it
  keeps to the forms of the instruction set reference, or is a move into CS, which is refused at
  once.

  Main definitions:
  - `Fault.Expected` : the faults that well-formed instructions raise

  Main statements:
  - `ArithmeticOp.guarded`, … : the operations of each unit
  - `Instruction.guarded_perform` : well-formed instructions do what can fault first
  - `Exec.faultAtomic_execute`, `Exec.faultAtomic_cycle` : well-formed instructions, and cycles
    with them
  - `Exec.run_of_movesToCode` : a move into CS is refused as invalid
  - `Exec.faultAtomic_of_decode` : decoded instructions, and cycles
-/
import Ia32.Processor
import Ia32.Proofs.Atomicity
import Ia32.Proofs.Decoding

namespace Ia32

variable {δ : Type} {i : Instruction}

/-- The faults that well-formed instructions raise. -/
def Fault.Expected (f : Fault) : Prop := f ≠ .invalidOpcode

namespace Exec

variable {k : Nat} {x y : Operand}

theorem reads_readOperand (h : i.operands[k]? = some x) :
    Reads (readOperand i k : Exec δ UInt32) := by
  rw [readOperand_eq h]
  exact .gets fun _ _ => rfl

theorem total_readOperand (h : i.operands[k]? = some x) :
    Total (readOperand i k : Exec δ UInt32) := by
  rw [readOperand_eq h]
  exact .gets _

theorem total_operand (h : i.operands[k]? = some x) : Total (operand i k : Exec δ Operand) := by
  rw [operand_eq h]
  exact .pure x

theorem total_writeOperand (h : i.operands[k]? = some x) (hx : OperandTest.place x.class = true)
    (v : UInt32) : Total (writeOperand i k v : Exec δ Unit) :=
  fun s => ⟨(), _, run_writeOperand h hx v s⟩

theorem total_transform (h : i.operands[0]? = some x) (hx : OperandTest.place x.class = true)
    (f : Flags → Width → UInt32 → UInt32 × Flags) : Total (transform i f : Exec δ Unit) :=
  fun s => ⟨(), _, run_transform h hx f s⟩

theorem total_examine (h : i.operands[0]? = some x)
    (f : Flags → Width → UInt32 → UInt32 × Flags) : Total (examine i f : Exec δ Unit) :=
  fun s => ⟨(), _, run_examine h f s⟩

/-! ## Arithmetic -/

theorem total_multiplyWide (h : i.operands[0]? = some x)
    (f : Flags → Width → UInt32 → UInt32 → (UInt32 × UInt32) × Flags) :
    Total (multiplyWide i f : Exec δ Unit) :=
  (total_operand h).bind fun _ => (total_readOperand h).bind fun _ => .modifyCpu _

theorem total_multiplyInto {l : Nat} {z : Operand} (hx : i.operands[0]? = some x)
    (hclass : OperandTest.place x.class = true) (hk : i.operands[k]? = some y)
    (hl : i.operands[l]? = some z) : Total (multiplyInto i k l : Exec δ Unit) :=
  (total_operand hx).bind fun _ => (total_readOperand hk).bind fun _ =>
    (total_readOperand hl).bind fun _ => (Total.gets _).bind fun _ =>
      (Total.modifyCpu _).bind fun _ => total_writeOperand hx hclass _

/-- A quotient that does not fit is noticed before anything is written. -/
theorem guarded_divideWide (h : i.operands[0]? = some x)
    {f : Width → UInt64 → UInt32 → Except Fault (UInt32 × UInt32)}
    (hf : ∀ w n d e, f w n d = .error e → e = .divideError) :
    Guarded (divideWide i f : Exec δ Unit) := by
  rw [divideWide, operand_eq h]
  exact .reads_bind (.pure x) fun x => .reads_bind (reads_readOperand h) fun d =>
    .gets_bind (fun _ _ => rfl) fun n => .bind_total (.divide (hf _ _ _)) fun _ => .modifyCpu _

end Exec

open Exec OperandTest
open Instruction (operands_zero operands_one operands_two)

theorem divideError_of_div {w : Width} {n : UInt64} {d : UInt32} {e : Fault}
    (h : Alu.div w n d = .error e) : e = .divideError := by
  unfold Alu.div at h
  dsimp only at h
  split_ifs at h <;> cases h <;> rfl

theorem divideError_of_idiv {w : Width} {n : UInt64} {d : UInt32} {e : Fault}
    (h : Alu.idiv w n d = .error e) : e = .divideError := by
  unfold Alu.idiv at h
  dsimp only at h
  split_ifs at h <;> cases h <;> rfl

theorem divideError_of_aam {f : Flags} {al base : UInt8} {e : Fault}
    (h : Alu.aam f al base = .error e) : e = .divideError := by
  unfold Alu.aam at h
  split_ifs at h
  cases h
  rfl

theorem ArithmeticOp.guarded (o : ArithmeticOp)
    (h : (Operation.arithmetic o).accepts (i.operands.map Operand.class) = true) :
    Guarded (o.perform i : Exec δ Unit) := by
  cases o
  case add | adc | sub | sbb =>
    obtain ⟨x, y, hops, hx, -⟩ := Operation.operands_of_accepts h rfl
    exact .of_total ((total_readOperand (operands_one hops)).bind fun _ =>
      total_transform (operands_zero hops) hx _)
  case cmp =>
    obtain ⟨x, y, hops, -, -⟩ := Operation.operands_of_accepts h rfl
    exact .of_total ((total_readOperand (operands_one hops)).bind fun _ =>
      total_examine (operands_zero hops) _)
  case inc | dec | neg =>
    obtain ⟨x, hops, hx⟩ := Operation.operand_of_accepts h rfl
    rw [perform]
    exact .of_total (total_transform (operands_zero hops) hx _)
  case mul =>
    obtain ⟨x, hops, -⟩ := Operation.operand_of_accepts h rfl
    rw [perform]
    exact .of_total (total_multiplyWide (operands_zero hops) _)
  case imul =>
    rw [perform]
    rcases ArithmeticOp.operands_of_imul h with ⟨x, hops⟩ | ⟨x, y, hops, hx⟩ | ⟨x, y, z, hops, hx⟩
    · rw [hops]
      exact .of_total (total_multiplyWide (operands_zero hops) _)
    · rw [hops]
      exact .of_total (total_multiplyInto (operands_zero hops) (place_of_general hx)
        (operands_zero hops) (operands_one hops))
    · rw [hops]
      exact .of_total (total_multiplyInto (operands_zero hops) (place_of_general hx)
        (operands_one hops) (operands_two hops))
  case div =>
    obtain ⟨x, hops, -⟩ := Operation.operand_of_accepts h rfl
    exact guarded_divideWide (operands_zero hops) fun _ _ _ _ => divideError_of_div
  case idiv =>
    obtain ⟨x, hops, -⟩ := Operation.operand_of_accepts h rfl
    exact guarded_divideWide (operands_zero hops) fun _ _ _ _ => divideError_of_idiv
  case cbw | cwd => exact .of_total (.modifyCpu _)

theorem DecimalOp.guarded (o : DecimalOp)
    (h : (Operation.decimal o).accepts (i.operands.map Operand.class) = true) :
    Guarded (o.perform i : Exec δ Unit) := by
  have hbase {x : Operand} (hops : i.operands = [x]) : Reads (digitBase i : Exec δ UInt8) := by
    rw [digitBase, hops]
    exact (reads_readOperand (operands_zero hops)).bind fun _ => .pure _
  cases o
  case daa | das | aaa | aas => exact .of_total ((Total.gets _).bind fun _ => .modifyCpu _)
  case aam =>
    obtain ⟨x, hops, -⟩ := Operation.operand_of_accepts h rfl
    exact .reads_bind (hbase hops) fun b => .gets_bind (fun _ _ => rfl) fun c =>
      .bind_total (.divide fun _ => divideError_of_aam) fun _ => .modifyCpu _
  case aad =>
    obtain ⟨x, hops, -⟩ := Operation.operand_of_accepts h rfl
    exact .reads_bind (hbase hops) fun b => .of_total ((Total.gets _).bind fun _ => .modifyCpu _)

/-! ## Logic and bits -/

theorem LogicOp.guarded (o : LogicOp)
    (h : (Operation.logic o).accepts (i.operands.map Operand.class) = true) :
    Guarded (o.perform i : Exec δ Unit) := by
  cases o
  case and | or | xor =>
    obtain ⟨x, y, hops, hx, -⟩ := Operation.operands_of_accepts h rfl
    exact .of_total ((total_readOperand (operands_one hops)).bind fun _ =>
      total_transform (operands_zero hops) hx _)
  case test =>
    obtain ⟨x, y, hops, -, -⟩ := Operation.operands_of_accepts h rfl
    exact .of_total ((total_readOperand (operands_one hops)).bind fun _ =>
      total_examine (operands_zero hops) _)
  case not =>
    obtain ⟨x, hops, hx⟩ := Operation.operand_of_accepts h rfl
    rw [perform]
    exact .of_total (total_transform (operands_zero hops) hx _)

theorem ShiftRotateOp.guarded (o : ShiftRotateOp)
    (h : (Operation.shiftRotate o).accepts (i.operands.map Operand.class) = true) :
    Guarded (o.perform i : Exec δ Unit) := by
  obtain ⟨x, y, hops, hx, -⟩ := Operation.operands_of_accepts h rfl
  rw [perform, hops, if_pos (by simp)]
  refine .of_total ((total_readOperand (operands_one hops)).bind fun _ => ?_)
  cases o <;> exact total_transform (operands_zero hops) hx _

namespace Exec

variable {x y : Operand}

theorem total_testBit (u : BitUpdate) (hx : i.operands[0]? = some x)
    (hy : i.operands[1]? = some y) (h : place x.class = true) :
    Total (testBit u i : Exec δ Unit) := fun s => by
  obtain ⟨l, n, hrun, hl⟩ := run_locateBit hx hy h s
  rw [testBit, operand_eq hx, run_pure_bind, run_bind_of_ok hrun]
  refine ((Total.gets _).bind fun v => (Total.modifyCpu _).bind fun _ => ?_) s
  split_ifs
  · exact .pure _
  · exact .store hl _ _

theorem total_scanBits (scan : UInt32 → Option Nat) (hx : i.operands[0]? = some x)
    (hy : i.operands[1]? = some y) (h : place x.class = true) :
    Total (scanBits scan i : Exec δ Unit) := by
  rw [scanBits]
  refine (total_operand hx).bind fun x => (total_readOperand hy).bind fun v => ?_
  cases scan (x.width.truncate v) with
  | none => exact .modifyCpu _
  | some n => exact (Total.modifyCpu _).bind fun _ => total_writeOperand hx h _

end Exec

theorem BitByteOp.guarded (o : BitByteOp)
    (h : (Operation.bitByte o).accepts (i.operands.map Operand.class) = true) :
    Guarded (o.perform i : Exec δ Unit) := by
  cases o
  case setcc c =>
    obtain ⟨x, hops, hx⟩ := Operation.operand_of_accepts h rfl
    exact .of_total ((Total.gets _).bind fun _ =>
      total_writeOperand (operands_zero hops) hx _)
  case bitTest u =>
    obtain ⟨x, y, hops, hx, -⟩ := Operation.operands_of_accepts h rfl
    exact .of_total (total_testBit u (operands_zero hops)
      (operands_one hops) hx)
  case scanForward | scanReverse =>
    obtain ⟨x, y, hops, hx, -⟩ := Operation.operands_of_accepts h rfl
    exact .of_total (total_scanBits _ (operands_zero hops)
      (operands_one hops) (place_of_general hx))

/-! ## Transfers of data -/

namespace Exec

variable {k : Nat} {x y : Operand}

theorem guarded_writeOperand_segment (h : i.operands[k]? = some x)
    (hx : segment x.class = true) (v : UInt32) :
    Guarded (writeOperand i k v : Exec δ Unit) := by
  obtain ⟨n, -, e⟩ := writeOperand_segment h hx v
  rw [e]
  exact .select n _

theorem total_writeOperand_control (h : i.operands[k]? = some x) (hx : control x.class = true)
    (v : UInt32) : Total (writeOperand i k v : Exec δ Unit) := by
  obtain ⟨n, hn, -, e⟩ := writeOperand_control h hx v
  rw [e]
  exact .modifyCpu _

theorem total_writeOperand_debug (h : i.operands[k]? = some x) (hx : debug x.class = true)
    (v : UInt32) : Total (writeOperand i k v : Exec δ Unit) := by
  obtain ⟨n, hn, e⟩ := writeOperand_debug h hx v
  rw [e]
  exact .modifyCpu _

theorem total_loadAddress {m : MemoryOperand} {w : Width} (hx : i.operands[0]? = some x)
    (h : place x.class = true) (hy : i.operands[1]? = some (.memory m w)) :
    Total (loadAddress i : Exec δ Unit) := by
  rw [loadAddress, memoryOperand_eq hy]
  exact (Total.gets _).bind fun _ => total_writeOperand hx h _

theorem total_exchange (hx : i.operands[0]? = some x) (hy : i.operands[1]? = some y)
    (h : place x.class = true) (h' : place y.class = true) :
    Total (exchange i : Exec δ Unit) := fun s => by
  rw [exchange, operand_eq hx, operand_eq hy, run_pure_bind, run_pure_bind, run_get_bind]
  exact ((Total.store (s.cpu.isPlace_locate _ h) _ _).bind fun _ =>
    Total.store (s.cpu.isPlace_locate _ h') _ _) s

/-- The pointer moves only when a segment register has accepted the selector. -/
theorem guarded_popOperand_segment (h : i.operands[0]? = some x)
    (hx : segment x.class = true) : Guarded (popOperand i : Exec δ Unit) := by
  obtain ⟨n, -, e⟩ := popOperand_segment h hx
  rw [e]
  exact .gets_bind (fun _ _ => rfl) fun v => .bind_total (.select n _) fun _ => .modifyCpu _

theorem total_popOperand (h : i.operands[0]? = some x) (hx : place x.class = true) :
    Total (popOperand i : Exec δ Unit) := by
  rw [popOperand_place h hx]
  exact (Total.gets _).bind fun v => (Total.modifyCpu _).bind fun _ => total_writeOperand h hx v

/-- The selector is looked at before the other register is written. -/
theorem guarded_loadFarPointer (n : SegmentName) {m : MemoryOperand} {w : Width}
    (hx : i.operands[0]? = some x) (h : place x.class = true)
    (hy : i.operands[1]? = some (.memory m w)) :
    Guarded (loadFarPointer n i : Exec δ Unit) := by
  rw [loadFarPointer, readFarPointer_eq hy]
  exact .gets_bind (fun _ _ => rfl) fun p => .bind_total (.select n _) fun _ =>
    total_writeOperand hx h _

end Exec

theorem TransferOp.guarded (o : TransferOp)
    (h : (Operation.transfer o).accepts (i.operands.map Operand.class) = true) :
    Guarded (o.perform i : Exec δ Unit) := by
  cases o
  case mov =>
    obtain ⟨x, y, hops, hx⟩ := TransferOp.operands_of_mov h
    rw [perform]
    refine .reads_bind (reads_readOperand (operands_one hops)) fun v => ?_
    rcases hx with hx | hx | hx | hx
    · exact .of_total (total_writeOperand (operands_zero hops) hx _)
    · exact guarded_writeOperand_segment (operands_zero hops) hx _
    · exact .of_total (total_writeOperand_control (operands_zero hops) hx _)
    · exact .of_total (total_writeOperand_debug (operands_zero hops) hx _)
  case movzx | movsx =>
    obtain ⟨x, y, hops, hx, -⟩ := Operation.operands_of_accepts h rfl
    exact .of_total ((total_operand (operands_one hops)).bind fun _ =>
      (total_readOperand (operands_one hops)).bind fun _ =>
        total_writeOperand (operands_zero hops) (place_of_general hx) _)
  case xchg =>
    obtain ⟨x, y, hops, hx, hy⟩ := Operation.operands_of_accepts h rfl
    rw [perform]
    exact .of_total (total_exchange (operands_zero hops) (operands_one hops)
      hx hy)
  case lea =>
    obtain ⟨x, y, hops, hx, hy⟩ := Operation.operands_of_accepts h rfl
    obtain ⟨m, w, rfl⟩ := Operand.memory_of_class (beq_iff_eq.1 hy)
    rw [perform]
    exact .of_total (total_loadAddress (operands_zero hops) (place_of_general hx)
      (operands_one hops))
  case push =>
    obtain ⟨x, hops, -⟩ := Operation.operand_of_accepts h rfl
    exact .of_total ((total_readOperand (operands_zero hops)).bind fun _ => .modify _)
  case pop =>
    obtain ⟨x, hops, hx⟩ := TransferOp.operand_of_pop h
    rw [perform]
    rcases hx with hx | hx
    · exact .of_total (total_popOperand (operands_zero hops) hx)
    · exact guarded_popOperand_segment (operands_zero hops) hx
  case loadFar n =>
    obtain ⟨-, x, m, w, hops, hx⟩ := TransferOp.operands_of_loadFar h
    rw [perform]
    exact guarded_loadFarPointer n (operands_zero hops) (place_of_general hx)
      (operands_one hops)
  case pusha | popa | pushf | popf => exact .of_total (.modify _)
  case lahf | sahf => exact .of_total (.modifyCpu _)
  case xlat => exact .of_total (Total.bind .get fun _ => .modifyCpu _)

/-! ## Transfers of control -/

namespace Exec

variable {x : Operand}

theorem reads_nearTarget (h : i.operands[0]? = some x) :
    Reads (nearTarget i : Exec δ UInt32) := by
  rw [nearTarget, operand_eq h]
  refine (reads_readOperand h).bind fun v => ?_
  cases x <;> exact .pure _

theorem guarded_jumpIf (taken : Bool) (h : i.operands[0]? = some x) :
    Guarded (jumpIf taken i : Exec δ Outcome) := by
  rw [jumpIf]
  split_ifs
  · exact .reads_bind (reads_readOperand h) fun v =>
      .bind_total (.near v) fun _ => .pure _
  · exact .of_total (.pure _)

/-- The count is stored once the target has been reached. -/
theorem guarded_countDown (t : LoopTest) (h : i.operands[0]? = some x) :
    Guarded (countDown t i : Exec δ Outcome) := by
  rw [countDown]
  exact .gets_bind (fun _ _ => rfl) fun c => (guarded_jumpIf _ h).bind_total fun o =>
    (Total.modifyCpu _).bind fun _ => .pure o

theorem guarded_nearCall (next : UInt32) (h : i.operands[0]? = some x) :
    Guarded (nearCall i next : Exec δ Unit) :=
  .reads_bind (reads_nearTarget h) fun v =>
    .bind_total (.near v) fun _ => .modify _

theorem reads_farTarget (h : (Operation.branch .jmpFar).accepts (i.operands.map Operand.class)) :
    Reads (farTarget i : Exec δ (UInt16 × UInt32)) := by
  obtain ⟨ts, hts, hfits⟩ := Operation.accepts_iff.1 h
  rcases List.mem_cons.1 hts with rfl | hts
  · obtain ⟨x, y, hops, hx, -⟩ := fits_two.1 hfits
    obtain ⟨v, w, rfl⟩ := Operand.immediate_of_class (beq_iff_eq.1 hx)
    rw [farTarget, operand_eq (operands_zero hops)]
    exact (reads_readOperand (operands_one hops)).bind fun _ => .pure _
  · cases List.mem_singleton.1 hts
    obtain ⟨x, hops, hx⟩ := fits_one.1 hfits
    obtain ⟨m, w, rfl⟩ := Operand.memory_of_class (beq_iff_eq.1 hx)
    rw [farTarget, operand_eq (operands_zero hops),
      readFarPointer_eq (operands_zero hops)]
    exact .gets fun _ _ => rfl

theorem guarded_farCall (next : UInt32)
    (h : (Operation.branch .jmpFar).accepts (i.operands.map Operand.class)) :
    Guarded (farCall i next : Exec δ Unit) :=
  .reads_bind (reads_farTarget h) fun p => .gets_bind (fun _ _ => rfl) fun _ =>
    .bind_total (.far p.1 p.2) fun _ => .modify _

theorem guarded_nearReturn : Guarded (nearReturn i : Exec δ Unit) :=
  .gets_bind (fun _ _ => rfl) fun v => .bind_total (.near v) fun _ => .modifyCpu _

theorem guarded_farReturn : Guarded (farReturn i : Exec δ Unit) :=
  .get_bind (fun _ _ => rfl) fun _ => .bind_total (.far _ _) fun _ => .modifyCpu _

end Exec

theorem BranchOp.guarded (o : BranchOp) (next : UInt32)
    (h : (Operation.branch o).accepts (i.operands.map Operand.class) = true) :
    Guarded (o.perform i next : Exec δ Outcome) := by
  cases o
  case jmp =>
    obtain ⟨x, hops, -⟩ := Operation.operand_of_accepts h rfl
    exact .reads_bind (reads_nearTarget (operands_zero hops)) fun v =>
      .bind_total (.near v) fun _ => .pure _
  case jmpFar =>
    exact .reads_bind (reads_farTarget h) fun p =>
      .bind_total (.far p.1 p.2) fun _ => .pure _
  case jcc c =>
    obtain ⟨x, hops, -⟩ := Operation.operand_of_accepts h rfl
    exact .gets_bind (fun _ _ => rfl) fun _ => guarded_jumpIf _ (operands_zero hops)
  case jcxz =>
    obtain ⟨x, hops, -⟩ := Operation.operand_of_accepts h rfl
    exact .gets_bind (fun _ _ => rfl) fun _ => guarded_jumpIf _ (operands_zero hops)
  case loop t =>
    obtain ⟨x, hops, -⟩ := Operation.operand_of_accepts h rfl
    exact guarded_countDown t (operands_zero hops)
  case call =>
    obtain ⟨x, hops, -⟩ := Operation.operand_of_accepts h rfl
    exact (guarded_nearCall next (operands_zero hops)).bind_total fun _ => .pure _
  case callFar => exact (guarded_farCall next h).bind_total fun _ => .pure _
  case ret => exact guarded_nearReturn.bind_total fun _ => .pure _
  case retFar => exact guarded_farReturn.bind_total fun _ => .pure _
  case int =>
    obtain ⟨x, hops, -⟩ := Operation.operand_of_accepts h rfl
    exact .reads_bind (reads_readOperand (operands_zero hops)) fun v =>
      .bind_total (.enter _ next) fun _ => .pure _
  case int3 => exact .bind_total (.enter 3 next) fun _ => .pure _
  case into =>
    rw [perform]
    refine .gets_bind (fun _ _ => rfl) fun taken => ?_
    split_ifs
    · exact .bind_total (.enter 4 next) fun _ => .pure _
    · exact .of_total (.pure _)
  case iret => exact .bind_total (.interruptReturn _) fun _ => .pure _
  case enter =>
    obtain ⟨x, y, hops, -, -⟩ := Operation.operands_of_accepts h rfl
    exact .of_total ((total_readOperand (operands_zero hops)).bind fun _ =>
      (total_readOperand (operands_one hops)).bind fun _ =>
        (Total.modify _).bind fun _ => .pure _)
  case leave => exact .of_total ((Total.modify _).bind fun _ => .pure _)

/-! ## Ports and the processor itself -/

/-- A port is accessed only when nothing can fault any more. -/
theorem PortOp.guarded (o : PortOp)
    (h : (Operation.port o).accepts (i.operands.map Operand.class) = true) :
    Guarded (o.perform i : Exec δ Unit) := by
  cases o
  case input =>
    obtain ⟨x, y, hops, hx, -⟩ := Operation.operands_of_accepts h rfl
    exact .of_total ((total_operand (operands_zero hops)).bind fun _ =>
      (total_readOperand (operands_one hops)).bind fun _ =>
        Total.get.bind fun _ => (Total.set _).bind fun _ =>
          total_writeOperand (operands_zero hops) (place_of_general hx) _)
  case output =>
    obtain ⟨x, y, hops, -, -⟩ := Operation.operands_of_accepts h rfl
    exact .of_total ((total_operand (operands_one hops)).bind fun _ =>
      (total_readOperand (operands_zero hops)).bind fun _ =>
        (total_readOperand (operands_one hops)).bind fun _ => .modify _)

namespace Exec

variable {m : MemoryOperand} {w : Width}

theorem total_readTable (h : i.operands[0]? = some (.memory m w)) :
    Total (readTable i : Exec δ TableRegister) := by
  rw [readTable, memoryOperand_eq h]
  exact (Total.gets _).bind fun _ => Total.get.bind fun _ => .pure _

theorem total_writeTable (t : TableRegister) (h : i.operands[0]? = some (.memory m w)) :
    Total (writeTable t i : Exec δ Unit) := by
  rw [writeTable, memoryOperand_eq h]
  exact (Total.gets _).bind fun _ => .modify _

end Exec

theorem SystemOp.guarded (o : SystemOp)
    (h : (Operation.system o).accepts (i.operands.map Operand.class) = true) :
    Guarded (o.perform i : Exec δ Outcome) := by
  cases o
  case hlt =>
    rw [perform]
    refine .gets_bind (fun _ _ => rfl) fun enabled => ?_
    split_ifs
    · exact .of_total (.pure _)
    · exact .halt
  case nop => exact .of_total (.pure _)
  case lgdt | lidt =>
    obtain ⟨x, hops, hx⟩ := Operation.operand_of_accepts h rfl
    obtain ⟨m, w, rfl⟩ := Operand.memory_of_class (beq_iff_eq.1 hx)
    exact .of_total ((total_readTable (operands_zero hops)).bind fun _ =>
      (Total.modifyCpu _).bind fun _ => .pure _)
  case sgdt | sidt =>
    obtain ⟨x, hops, hx⟩ := Operation.operand_of_accepts h rfl
    obtain ⟨m, w, rfl⟩ := Operand.memory_of_class (beq_iff_eq.1 hx)
    exact .of_total ((Total.gets _).bind fun _ =>
      (total_writeTable _ (operands_zero hops)).bind fun _ => .pure _)
  case lmsw =>
    obtain ⟨x, hops, -⟩ := Operation.operand_of_accepts h rfl
    exact .of_total ((total_readOperand (operands_zero hops)).bind fun _ =>
      (Total.modifyCpu _).bind fun _ => .pure _)
  case smsw =>
    obtain ⟨x, hops, hx⟩ := Operation.operand_of_accepts h rfl
    exact .of_total ((Total.gets _).bind fun _ =>
      (total_writeOperand (operands_zero hops) hx _).bind fun _ => .pure _)

/-! ## Instructions and cycles -/

theorem Instruction.guarded_perform (h : i.WellFormed) (next : UInt32) :
    Guarded (i.perform next : Exec δ Outcome) := by
  have hunit := h.unit
  have haccepts := h.accepts
  rw [perform, hunit]
  cases ho : i.operation with
  | branch o =>
    rw [ho] at haccepts
    exact o.guarded next haccepts
  | arithmetic o => rw [ho] at haccepts; exact (o.guarded haccepts).bind_total fun _ => .pure _
  | decimal o => rw [ho] at haccepts; exact (o.guarded haccepts).bind_total fun _ => .pure _
  | logic o => rw [ho] at haccepts; exact (o.guarded haccepts).bind_total fun _ => .pure _
  | shiftRotate o => rw [ho] at haccepts; exact (o.guarded haccepts).bind_total fun _ => .pure _
  | bitByte o => rw [ho] at haccepts; exact (o.guarded haccepts).bind_total fun _ => .pure _
  | transfer o => rw [ho] at haccepts; exact (o.guarded haccepts).bind_total fun _ => .pure _
  | string o => exact .of_total ((Total.modify _).bind fun _ => .pure _)
  | port o => rw [ho] at haccepts; exact (o.guarded haccepts).bind_total fun _ => .pure _
  | flag o => exact .of_total ((Total.modifyCpu _).bind fun _ => .pure _)
  | system o => rw [ho] at haccepts; exact o.guarded haccepts

namespace Exec

theorem guarded_execute (h : i.WellFormed) : Guarded (execute i : Exec δ CycleExit) := by
  rw [execute]
  refine .gets_bind (fun _ _ => rfl) fun next =>
    (Instruction.guarded_perform h next).bind_total fun o => ?_
  cases o with
  | next => exact (Total.modifyCpu _).bind fun _ => .pure _
  | branch => exact .pure _
  | halt => exact (Total.modifyCpu _).bind fun _ => .pure _

theorem faultAtomic_execute (h : i.WellFormed) :
    FaultAtomic Fault.Expected (execute i : Exec δ CycleExit) :=
  (guarded_execute h).faultAtomic

/-- A cycle, by what is latched. -/
theorem run_cycleWith (x : Exec δ CycleExit) (s : System δ) :
    (cycleWith x).run s = match s.io.latch with
      | none => if s.cpu.halted then .ok .idle s else x.run s
      | some v => match (deliver v s.cpu.eip).run s with
        | .ok _ t => .ok (.interrupted v)
            { t with io.latch := (Latch.acknowledge t.io.latch v).2 }
        | .error f t => .error f t := by
  rw [cycleWith, run_bind, servicePending, run_get_bind]
  cases s.io.latch with
  | none =>
    simp only [run_pure, run_gets_bind]
    split_ifs <;> rfl
  | some v =>
    simp only [run_bind]
    cases (deliver v s.cpu.eip).run s <;> rfl

/-- A processor that is neither interrupted nor halted carries out what it fetches. -/
theorem run_step_of_ready {s : System δ} (hlatch : s.io.latch = none)
    (hready : s.cpu.halted = false) : (step : Exec δ CycleExit).run s = match s.fetch with
      | .ok i => (execute i).run s
      | .error f => .error f s := by
  rw [step, stepBy, run_cycleWith, hlatch]
  dsimp only
  rw [hready, if_neg Bool.false_ne_true, run_gets_bind, run_bind, run_ofExcept, System.fetch]
  cases s.fetchBy Encoding.disassemble <;> rfl

/-- The latch is emptied once the interrupt has been delivered. -/
theorem faultAtomic_cycleWith {F : Fault → Prop} (hF : ∀ f, f.IsRefusal → F f)
    {x : Exec δ CycleExit} (hx : FaultAtomic F x) : FaultAtomic F (cycleWith x) := by
  intro s f t h
  rw [run_cycleWith] at h
  cases hlatch : s.io.latch with
  | none =>
    rw [hlatch] at h
    dsimp only at h
    split_ifs at h with hhalted
    obtain ⟨hf, hres, hblind⟩ := hx s f t h
    refine ⟨hf, hres, fun io hio => ?_⟩
    rw [run_cycleWith]
    dsimp only
    rw [hio]
    dsimp only
    rw [if_neg hhalted]
    exact hblind io (hio.trans hlatch.symm)
  | some v =>
    rw [hlatch] at h
    dsimp only at h
    cases e : (deliver v s.cpu.eip).run s with
    | ok _ u => rw [e] at h; cases h
    | error g u =>
      rw [e] at h
      cases h
      obtain ⟨hf, hres, hblind⟩ := faultAtomic_deliver v s.cpu.eip s f t e
      refine ⟨hF f hf, hres, fun io hio => ?_⟩
      rw [run_cycleWith]
      dsimp only
      rw [hio]
      dsimp only
      rw [hblind io (hio.trans hlatch.symm)]

/-- So do cycles with a well-formed instruction. -/
theorem faultAtomic_cycle (h : i.WellFormed) :
    FaultAtomic Fault.Expected (cycle i : Exec δ CycleExit) :=
  faultAtomic_cycleWith (fun _ => Fault.IsRefusal.ne_invalidOpcode) (faultAtomic_execute h)

end Exec

/-! ## Moves into CS -/

/-- No signature has CS as a destination. -/
theorem Instruction.WellFormed.not_movesToCode (h : i.WellFormed) : ¬ i.MovesToCode := by
  rintro ⟨ho, r, hr, hcode⟩
  have hfile := RegisterRef.file_of_segmentName? hcode
  have haccepts := h.accepts
  rw [ho] at haccepts
  obtain ⟨x, y, hops, hx⟩ := TransferOp.operands_of_mov haccepts
  rw [hops] at hr
  cases hr
  have hclass : (Operand.register r).class = .special r := by
    simp [Operand.class, RegisterRef.class, hfile]
  rw [hclass] at hx
  rcases hx with hx | hx | hx | hx
  · cases hx
  · simp [OperandTest.segment, hcode] at hx
  · simp [OperandTest.control, hfile] at hx
  · simp [OperandTest.debug, hfile] at hx

/-- What fits its operation is well formed, or a move into CS. -/
theorem Instruction.Fit.wellFormed_or (h : i.Fit) :
    i.WellFormed ∨ i.unit = .transfer ∧ i.MovesToCode := by
  rcases h.accepts with haccepts | hmoves
  · exact .inl ⟨h.unit, haccepts⟩
  · refine .inr ⟨?_, hmoves⟩
    rw [h.unit, hmoves.1]
    rfl

namespace Exec

theorem storeRegister_code {r : RegisterRef} (h : r.segmentName? = some .cs) (v : UInt32) :
    (storeRegister r v : Exec δ Unit) = throw .invalidOpcode := by
  rw [storeRegister, RegisterRef.file_of_segmentName? h]
  dsimp only
  rw [h]

/-- A move into CS is refused, and changes nothing. -/
theorem run_of_movesToCode (hunit : i.unit = .transfer) (h : i.MovesToCode) (s : System δ) :
    (execute i).run s = .error .invalidOpcode s := by
  obtain ⟨ho, r, hr, hcode⟩ := h
  have hmov : (TransferOp.mov.perform i : Exec δ Unit).run s = .error .invalidOpcode s := by
    rw [TransferOp.perform]
    cases hy : i.operands[1]? with
    | none =>
      rw [readOperand, operand, hy]
      rfl
    | some y =>
      rw [readOperand_eq hy, run_gets_bind, writeOperand_register hr, storeRegister_code hcode]
      rfl
  rw [run_execute, Instruction.perform_transfer hunit ho, run_bind_of_error hmov]

theorem faultAtomic_of_movesToCode {F : Fault → Prop} (hF : F .invalidOpcode)
    (hunit : i.unit = .transfer) (h : i.MovesToCode) :
    FaultAtomic F (execute i : Exec δ CycleExit) := by
  intro s f t hrun
  rw [run_of_movesToCode hunit h] at hrun
  cases hrun
  exact ⟨hF, .refl s, fun io _ => run_of_movesToCode hunit h _⟩

/-- Whatever fits its operation leaves a residue only, if it faults; and it is a move into CS, if
the fault is that it is invalid. -/
theorem faultAtomic_of_fit (h : i.Fit) :
    FaultAtomic (fun f => f = .invalidOpcode → i.MovesToCode) (execute i : Exec δ CycleExit) := by
  rcases h.wellFormed_or with hwf | ⟨hunit, hmoves⟩
  · exact (faultAtomic_execute hwf).mono fun f hf hinvalid => absurd hinvalid hf
  · exact faultAtomic_of_movesToCode (fun _ => hmoves) hunit hmoves

end Exec

/-! ## Decoded instructions -/

variable {d : Disassembler} {bs : List UInt8} {wide : Bool} {ip : UInt32}

/-- What is fetched has been decoded. -/
theorem System.decode_of_fetchBy {s : System δ} (h : s.fetchBy d = .ok i) :
    ∃ a : UInt32, s.cpu.codeAddress s.cpu.eip = .ok a ∧
      Instruction.decodeBy d (s.ram.readBytes a.toUInt64 maxInstructionLength)
        s.cpu.segments.cs.descriptor.wide s.cpu.eip = .ok i := by
  unfold System.fetchBy at h
  cases ha : s.cpu.codeAddress s.cpu.eip with
  | error f => rw [ha] at h; cases h
  | ok a =>
    refine ⟨a, rfl, ?_⟩
    rw [ha] at h
    dsimp only [bind, Except.bind] at h
    split at h
    · cases h; assumption
    · cases h

theorem System.wellFormed_of_fetch {s : System δ} (h : s.fetch = .ok i) : i.WellFormed := by
  obtain ⟨a, -, hdecode⟩ := System.decode_of_fetchBy h
  exact Instruction.wellFormed_of_decode hdecode

namespace Exec

theorem faultAtomic_stepBy (hd : d.KeepsForms) :
    FaultAtomic (fun _ => True) (stepBy d : Exec δ CycleExit) := by
  refine faultAtomic_cycleWith (fun _ _ => trivial) (.gets_bind_of (fun _ _ => rfl) fun s => ?_)
  cases h : s.fetchBy d with
  | error f => exact .throw trivial
  | ok i =>
    obtain ⟨a, -, hdecode⟩ := System.decode_of_fetchBy h
    exact (faultAtomic_of_fit (Instruction.fit_of_decodeBy hd hdecode)).mono fun _ _ => trivial

theorem faultAtomic_step : FaultAtomic (fun _ => True) (step : Exec δ CycleExit) :=
  faultAtomic_stepBy Encoding.disassemble_keepsForms

/-- **Faults are atomic**, with any disassembler that keeps to the forms of the instruction set
reference: if a decoded instruction faults, or a cycle with it or with the instruction that is
fetched, delivery of a latched interrupt included, then all is as it was, except that the mode may
have been sampled and one table entry marked as accessed.  Of the decoded instructions only moves
into CS are invalid. -/
theorem faultAtomic_of_decode (hd : d.KeepsForms) (h : Instruction.decodeBy d bs wide ip = .ok i) :
    FaultAtomic (fun f => f = .invalidOpcode → i.MovesToCode) (execute i : Exec δ CycleExit) ∧
    FaultAtomic (fun f => f = .invalidOpcode → i.MovesToCode) (cycle i : Exec δ CycleExit) ∧
    FaultAtomic (fun _ => True) (stepBy d : Exec δ CycleExit) := by
  have hexecute := faultAtomic_of_fit (δ := δ) (Instruction.fit_of_decodeBy hd h)
  have hrefused (f : Fault) (hf : f.IsRefusal) : f = .invalidOpcode → i.MovesToCode :=
    fun hinvalid => absurd hinvalid hf.ne_invalidOpcode
  exact ⟨hexecute, faultAtomic_cycleWith hrefused hexecute, faultAtomic_stepBy hd⟩

/-- A far jump, which may mark a table entry before it faults. -/
theorem faultAtomic_farJump :
    let i := Instruction.ofOperands (.branch .jmpFar) [.immediate 0 .word, .immediate 8 .word] 5
    Instruction.decode [0xEA, 0, 0, 8, 0] false 0 = .ok i ∧
      FaultAtomic Fault.Expected (execute i : Exec Unit CycleExit) ∧
      FaultAtomic Fault.Expected (cycle i : Exec Unit CycleExit) ∧
      FaultAtomic (fun _ => True) (step : Exec Unit CycleExit) := by
  have hdecode : Instruction.decode [0xEA, 0, 0, 8, 0] false 0 =
      .ok (.ofOperands (.branch .jmpFar) [.immediate 0 .word, .immediate 8 .word] 5) := rfl
  have hjump {f : Fault} (h : f = .invalidOpcode →
      (Instruction.ofOperands (.branch .jmpFar)
        [.immediate 0 .word, .immediate 8 .word] 5).MovesToCode) : f.Expected :=
    fun hinvalid => by cases (h hinvalid).1
  obtain ⟨hexecute, hcycle, hstep⟩ := faultAtomic_of_decode Encoding.disassemble_keepsForms hdecode
  exact ⟨hdecode, hexecute.mono fun _ => hjump, hcycle.mono fun _ => hjump, hstep⟩

end Exec

end Ia32
