/-
  16-bit code does not look at the upper halves of the general registers.

  Operations that go by the operand size, the address size or the size of the stack use lower halves
  only where these are words.  A pop into the stack segment register is left out: it changes the
  size of the stack before it moves the pointer.

  Main definitions:
  - `Instruction.PopsStack` : a pop into the stack segment register

  Main statements:
  - `ArithmeticOp.blind`, … : the operations of each unit
  - `Instruction.blind_perform`, `Exec.blind_execute` : instructions
-/
import Ia32.Processor
import Ia32.Proofs.Blindness
import Ia32.Proofs.OperandWidths

namespace Ia32

variable {δ : Type} {i : Instruction} {P : System δ → Prop}

open OperandTest Exec
open Instruction (operands_zero operands_one operands_two)

/-! ## Arithmetic -/

namespace Cpu

variable {w : Width}

theorem widePair_under (hw : w ≠ .dword) (c : Cpu) (h : Gprs) :
    (c.under h).widePair w = c.widePair w := by
  unfold widePair
  cases w
  case dword => exact absurd rfl hw
  all_goals simp only [ax_under, dx_under]

theorem setWidePair_under (hw : w ≠ .dword) (c : Cpu) (h : Gprs) (lo hi : UInt32) :
    (c.under h).setWidePair w lo hi = (c.setWidePair w lo hi).under h := by
  unfold setWidePair
  cases w
  case dword => exact absurd rfl hw
  case byte => exact setLow_under (by decide) c h .eax _
  case word =>
    change ((c.under h).setLow .eax .word lo).setLow .edx .word hi = _
    rw [setLow_under (by decide), setLow_under (by decide)]

end Cpu

namespace Exec

variable {k : Nat} {x y z : Operand}

theorem blind_multiplyWide (hi : i.IsNarrow) (h : i.operands[0]? = some x)
    (hw : x.width ≠ .dword)
    (f : Flags → Width → UInt32 → UInt32 → (UInt32 × UInt32) × Flags) :
    Blind P (multiplyWide i f : Exec δ Unit) := by
  rw [multiplyWide, operand_eq h, pure_bind]
  refine blind_readOperand_bind hi h fun b =>
    .modifyCpu fun s g _ => ?_
  have hlow : (s.cpu.under g).low .eax x.width = s.cpu.low .eax x.width :=
    s.cpu.low_under hw g .eax
  rw [hlow]
  exact congrArg (fun c => { c with
    flags := (f s.cpu.flags x.width (s.cpu.low .eax x.width) b).2 })
    (s.cpu.setWidePair_under hw g _ _)

theorem blind_divideWide (hi : i.IsNarrow) (h : i.operands[0]? = some x)
    (hw : x.width ≠ .dword)
    (f : Width → UInt64 → UInt32 → Except Fault (UInt32 × UInt32)) :
    Blind P (divideWide i f : Exec δ Unit) := by
  rw [divideWide, operand_eq h, pure_bind]
  refine blind_readOperand_bind hi h fun d =>
    .gets_bind (fun s g _ => s.cpu.widePair_under hw g) fun n =>
      (Blind.ofExcept _).bind fun r => .modifyCpu fun s g _ => ?_
  exact s.cpu.setWidePair_under hw g _ _

theorem blind_multiplyInto {l : Nat} (hi : i.IsNarrow) (hx : i.operands[0]? = some x)
    (hclass : place x.class = true) (hk : i.operands[k]? = some y) (hl : i.operands[l]? = some z) :
    Blind P (multiplyInto i k l : Exec δ Unit) := by
  rw [multiplyInto, operand_eq hx, pure_bind]
  exact blind_readOperand_bind hi hk fun a =>
    blind_readOperand_bind hi hl fun b =>
      .gets_bind (fun _ _ _ => rfl) fun f => (Blind.modifyCpu fun _ _ _ => rfl).bind fun _ =>
        blind_writeOperand hi hx hclass _

end Exec

theorem ArithmeticOp.blind (o : ArithmeticOp) (hi : i.IsNarrow)
    (hw : (Operation.arithmetic o).isProduct = true → ∀ x ∈ i.operands, x.width ≠ .dword)
    (h : (Operation.arithmetic o).accepts (i.operands.map Operand.class) = true) :
    Blind P (o.perform i : Exec δ Unit) := by
  have hwidth {x : Operand} {xs : List Operand} (hops : i.operands = x :: xs)
      (hp : (Operation.arithmetic o).isProduct = true) : x.width ≠ .dword :=
    hw hp x (by rw [hops]; exact List.mem_cons_self)
  cases o
  case add | adc | sub | sbb =>
    obtain ⟨x, y, hops, hx, -⟩ := Operation.operands_of_accepts h rfl
    exact blind_readOperand_bind hi (operands_one hops) fun b =>
      blind_transform hi (operands_zero hops) hx _
  case cmp =>
    obtain ⟨x, y, hops, -, -⟩ := Operation.operands_of_accepts h rfl
    exact blind_readOperand_bind hi (operands_one hops) fun b =>
      blind_examine hi (operands_zero hops) _
  case inc | dec | neg =>
    obtain ⟨x, hops, hx⟩ := Operation.operand_of_accepts h rfl
    rw [perform]
    exact blind_transform hi (operands_zero hops) hx _
  case mul =>
    obtain ⟨x, hops, -⟩ := Operation.operand_of_accepts h rfl
    rw [perform]
    exact blind_multiplyWide hi (operands_zero hops) (hwidth hops rfl) _
  case imul =>
    rw [perform]
    rcases ArithmeticOp.operands_of_imul h with ⟨x, hops⟩ | ⟨x, y, hops, hx⟩ | ⟨x, y, z, hops, hx⟩
    · rw [hops]
      exact blind_multiplyWide hi (operands_zero hops) (hwidth hops rfl) _
    · rw [hops]
      exact blind_multiplyInto hi (operands_zero hops) (place_of_general hx)
        (operands_zero hops) (operands_one hops)
    · rw [hops]
      exact blind_multiplyInto hi (operands_zero hops) (place_of_general hx)
        (operands_one hops) (operands_two hops)
  case div | idiv =>
    obtain ⟨x, hops, -⟩ := Operation.operand_of_accepts h rfl
    rw [perform]
    exact blind_divideWide hi (operands_zero hops) (hwidth hops rfl) _
  case cbw =>
    rw [perform, hi.operandWidth]
    refine .modifyCpu fun s g _ => ?_
    change (s.cpu.under g).setLow .eax .word
      (Width.signExtend .byte (Width.merge .word g.eax s.cpu.gprs.eax)) = _
    rw [Width.signExtend_merge_word (by decide), Cpu.setLow_under (by decide)]
  case cwd =>
    rw [perform, hi.operandWidth]
    refine .modifyCpu fun s g _ => ?_
    change (s.cpu.under g).setLow .edx .word
      (if Width.sign .word (Width.merge .word g.eax s.cpu.gprs.eax) then Width.mask .word else 0) = _
    rw [Width.sign_merge_word (by decide), Cpu.setLow_under (by decide)]

theorem DecimalOp.blind (o : DecimalOp) (hi : i.IsNarrow)
    (h : (Operation.decimal o).accepts (i.operands.map Operand.class) = true) :
    Blind P (o.perform i : Exec δ Unit) := by
  have hset {Q : System δ → Prop} {w : Width} (hw : w ≠ .dword) (v : UInt32) (f : Flags) :
      Blind Q (Exec.modifyCpu fun c => { c.setLow .eax w v with flags := f } : Exec δ Unit) :=
    .modifyCpu fun s g _ => congrArg (fun c => { c with flags := f }) (s.cpu.setLow_under hw g _ v)
  have hbase {x : Operand} (hops : i.operands = [x]) {f : UInt8 → Exec δ Unit}
      (hf : ∀ b, Blind P (f b)) : Blind P (digitBase i >>= f) := by
    rw [digitBase, hops, if_neg (by simp), bind_assoc]
    exact blind_readOperand_bind hi (operands_zero hops) fun v => hf v.toUInt8
  cases o
  case daa | das =>
    refine .gets_bind_of (fun s g _ => ?_) fun s => hset (by decide) _ _
    rw [s.cpu_under, Cpu.al_under, Cpu.flags_under]
  case aaa | aas =>
    refine .gets_bind_of (fun s g _ => ?_) fun s => hset (by decide) _ _
    rw [s.cpu_under, Cpu.ax_under, Cpu.flags_under]
  case aam =>
    obtain ⟨x, hops, -⟩ := Operation.operand_of_accepts h rfl
    refine hbase hops fun b => .gets_bind_of (fun s g _ => ?_) fun s =>
      (Blind.ofExcept _).bind fun r => hset (w := .word) (by decide) _ _
    rw [s.cpu_under, Cpu.al_under, Cpu.flags_under]
  case aad =>
    obtain ⟨x, hops, -⟩ := Operation.operand_of_accepts h rfl
    refine hbase hops fun b => .gets_bind_of (fun s g _ => ?_) fun s => hset (by decide) _ _
    rw [s.cpu_under, Cpu.ax_under, Cpu.flags_under]

/-! ## Logic and bits -/

theorem LogicOp.blind (o : LogicOp) (hi : i.IsNarrow)
    (h : (Operation.logic o).accepts (i.operands.map Operand.class) = true) :
    Blind P (o.perform i : Exec δ Unit) := by
  cases o
  case and | or | xor =>
    obtain ⟨x, y, hops, hx, -⟩ := Operation.operands_of_accepts h rfl
    exact blind_readOperand_bind hi (operands_one hops) fun b =>
      blind_transform hi (operands_zero hops) hx _
  case test =>
    obtain ⟨x, y, hops, -, -⟩ := Operation.operands_of_accepts h rfl
    exact blind_readOperand_bind hi (operands_one hops) fun b =>
      blind_examine hi (operands_zero hops) _
  case not =>
    obtain ⟨x, hops, hx⟩ := Operation.operand_of_accepts h rfl
    rw [perform]
    exact blind_transform hi (operands_zero hops) hx _

theorem ShiftRotateOp.blind (o : ShiftRotateOp) (hi : i.IsNarrow)
    (h : (Operation.shiftRotate o).accepts (i.operands.map Operand.class) = true) :
    Blind P (o.perform i : Exec δ Unit) := by
  obtain ⟨x, y, hops, hx, -⟩ := Operation.operands_of_accepts h rfl
  rw [perform, hops, if_pos (by simp)]
  refine blind_readOperand_bind hi (operands_one hops) fun n => ?_
  cases o <;> exact blind_transform hi (operands_zero hops) hx _

namespace Exec

variable {x y : Operand}

/-- The bit that is tested lies in a narrow place. -/
theorem blind_locateBit_bind {α : Type} {f : Location × Nat → Exec δ α} (hi : i.IsNarrow)
    (hx : i.operands[0]? = some x) (hplace : place x.class = true)
    (hy : i.operands[1]? = some y)
    (hf : ∀ l n, l.IsPlace → l.Narrow → Blind P (f (l, n))) :
    Blind P (locateBit i >>= f) := by
  rw [locateBit, operand_eq hx, operand_eq hy, pure_bind, pure_bind, bind_assoc]
  refine blind_readOperand_bind hi hy fun n => ?_
  rw [bind_assoc, hi.addressSize]
  refine .gets_bind_of (fun s g _ => by rw [s.locate_under]) fun s => ?_
  have hl := s.cpu.isPlace_locate .word hplace
  have hn := (hi.operand hx).locate s.cpu .word
  cases hloc : s.cpu.locate .word x with
  | immediate v => rw [hloc] at hl; exact hl.elim
  | register r => rw [hloc] at hl hn; exact hf _ _ hl hn
  | memory m offset => cases y <;> exact hf _ _ trivial (Location.narrow_memory _ _)

theorem blind_testBit (u : BitUpdate) (hi : i.IsNarrow) (hx : i.operands[0]? = some x)
    (hplace : place x.class = true) (hy : i.operands[1]? = some y) :
    Blind P (testBit u i : Exec δ Unit) := by
  rw [testBit, operand_eq hx, pure_bind]
  refine blind_locateBit_bind hi hx hplace hy fun l n hl hn =>
    .gets_bind (fun s g _ => System.load_under hn s g) fun v =>
      (Blind.modifyCpu fun _ _ _ => rfl).bind fun _ => ?_
  split_ifs
  · exact .pure _
  · exact blind_store hl hn _ _

theorem blind_scanBits (scan : UInt32 → Option Nat) (hi : i.IsNarrow)
    (hx : i.operands[0]? = some x) (hplace : place x.class = true)
    (hy : i.operands[1]? = some y) : Blind P (scanBits scan i : Exec δ Unit) := by
  rw [scanBits, operand_eq hx, pure_bind]
  refine blind_readOperand_bind hi hy fun v => ?_
  cases scan (x.width.truncate v) with
  | none => exact .modifyCpu fun _ _ _ => rfl
  | some n =>
    exact (Blind.modifyCpu fun _ _ _ => rfl).bind fun _ => blind_writeOperand hi hx hplace _

end Exec

theorem BitByteOp.blind (o : BitByteOp) (hi : i.IsNarrow)
    (h : (Operation.bitByte o).accepts (i.operands.map Operand.class) = true) :
    Blind P (o.perform i : Exec δ Unit) := by
  cases o
  case setcc c =>
    obtain ⟨x, hops, hx⟩ := Operation.operand_of_accepts h rfl
    exact .gets_bind (fun _ _ _ => rfl) fun f => blind_writeOperand hi (operands_zero hops) hx _
  case bitTest u =>
    obtain ⟨x, y, hops, hx, -⟩ := Operation.operands_of_accepts h rfl
    exact blind_testBit u hi (operands_zero hops) hx (operands_one hops)
  case scanForward | scanReverse =>
    obtain ⟨x, y, hops, hx, -⟩ := Operation.operands_of_accepts h rfl
    exact blind_scanBits _ hi (operands_zero hops) (place_of_general hx) (operands_one hops)

/-! ## Transfers of data -/

/-- The operation is a pop into the stack segment register. -/
def Instruction.PopsStack (i : Instruction) : Prop :=
  i.operation = .transfer .pop ∧ ∃ r, i.operands[0]? = some (.register r) ∧
    r.segmentName? = some .ss

namespace Exec

variable {x y : Operand}

theorem blind_exchange (hi : i.IsNarrow) (hx : i.operands[0]? = some x)
    (hy : i.operands[1]? = some y) (hplace : place x.class = true)
    (hplace' : place y.class = true) : Blind P (exchange i : Exec δ Unit) := by
  rw [exchange, operand_eq hx, operand_eq hy, pure_bind, pure_bind, hi.addressSize]
  refine .get_bind (fun s g _ => ?_) fun s => ?_
  · dsimp only
    rw [s.locate_under, s.locate_under, System.load_under ((hi.operand hx).locate s.cpu .word),
      System.load_under ((hi.operand hy).locate s.cpu .word)]
  · exact (blind_store (s.cpu.isPlace_locate _ hplace) ((hi.operand hx).locate _ _) _ _).bind
      fun _ => blind_store (s.cpu.isPlace_locate _ hplace') ((hi.operand hy).locate _ _) _ _

theorem blind_loadAddress {m : MemoryOperand} {w : Width} (hi : i.IsNarrow)
    (hx : i.operands[0]? = some x) (hplace : place x.class = true)
    (hy : i.operands[1]? = some (.memory m w)) : Blind P (loadAddress i : Exec δ Unit) := by
  rw [loadAddress, memoryOperand_eq hy, hi.addressSize]
  refine .gets_bind (fun s g _ => ?_) fun p => blind_writeOperand hi hx hplace _
  rw [s.cpu_under, Cpu.effectiveOffset_under]

theorem blind_loadFarPointer (n : SegmentName) {m : MemoryOperand} {w : Width} (hi : i.IsNarrow)
    (hx : i.operands[0]? = some x) (hplace : place x.class = true)
    (hy : i.operands[1]? = some (.memory m w)) :
    Blind P (loadFarPointer n i : Exec δ Unit) := by
  rw [loadFarPointer, readFarPointer_eq hy]
  exact .gets_bind (fun s g _ => farPointerAt_under hi m s g) fun p =>
    (blind_setSelector n _).bind fun _ => blind_writeOperand hi hx hplace _

theorem blind_lookUp (hi : i.IsNarrow) : Blind P (lookUp i : Exec δ Unit) := by
  rw [lookUp, hi.addressSize]
  refine .get_bind (fun s g _ => ?_) fun s => .modifyCpu fun t g _ =>
    t.cpu.setLow_under (by decide) g _ _
  have hindex : AddressSize.word.wrap ((s.cpu.under g).gprs.ebx + s.cpu.al.toUInt32) =
      AddressSize.word.wrap (s.cpu.gprs.ebx + s.cpu.al.toUInt32) := by
    rw [Cpu.wrap_word, Cpu.wrap_word, UInt32.toUInt16_add, UInt32.toUInt16_add]
    exact congrArg (fun x => (x + s.cpu.al.toUInt32.toUInt16).toUInt32)
      (Width.toUInt16_merge_word g.ebx s.cpu.gprs.ebx)
  dsimp only
  rw [s.cpu_under, Cpu.al_under, hindex]
  rfl

theorem blind_popOperand_place (hi : i.IsNarrow) (hx : i.operands[0]? = some x)
    (hplace : place x.class = true) : Blind Narrow (popOperand i : Exec δ Unit) := by
  rw [popOperand_place hx hplace]
  exact .gets_bind (fun s g hs => System.peek_under hs g 0 _) fun v =>
    (Blind.modifyCpu fun s g hs => Cpu.adjustStack_under hs g _).bind fun _ =>
      blind_writeOperand hi hx hplace v

/-- A segment register other than that of the stack is loaded. -/
theorem blind_popOperand_register {r : RegisterRef} {n : SegmentName}
    (h : i.operands[0]? = some (.register r)) (hr : r.segmentName? = some n) (hn : n ≠ .cs)
    (hss : n ≠ .ss) : Blind Narrow (popOperand i : Exec δ Unit) := by
  rw [popOperand_register h hr hn]
  exact .gets_bind (fun s g hs => System.peek_under hs g 0 _) fun v =>
    (blind_setSelector n _).bind_of fun s _ t hs ht =>
      ⟨narrow_of_setSelector hss hs ht, .modifyCpu fun u g hu => Cpu.adjustStack_under hu g _⟩

end Exec

/-- A pop into the stack segment register is left out, which may widen the stack before the
pointer moves. -/
theorem TransferOp.blind (o : TransferOp) (hi : i.IsNarrow)
    (hpops : o = .pop → ∀ r, i.operands[0]? = some (.register r) → r.segmentName? ≠ some .ss)
    (h : (Operation.transfer o).accepts (i.operands.map Operand.class) = true) :
    Blind Narrow (o.perform i : Exec δ Unit) := by
  have hword : i.operandWidth ≠ .dword := by rw [hi.operandWidth]; decide
  cases o
  case mov =>
    obtain ⟨x, y, hops, hx⟩ := TransferOp.operands_of_mov h
    rw [perform]
    refine blind_readOperand_bind hi (operands_one hops) fun v => ?_
    rcases hx with hx | hx | hx | hx
    · exact blind_writeOperand hi (operands_zero hops) hx v
    · exact blind_writeOperand_segment (operands_zero hops) hx v
    · exact blind_writeOperand_control (operands_zero hops) hx v
    · exact blind_writeOperand_debug (operands_zero hops) hx v
  case movzx | movsx =>
    obtain ⟨x, y, hops, hx, -⟩ := Operation.operands_of_accepts h rfl
    rw [perform, operand_eq (operands_one hops), pure_bind]
    exact blind_readOperand_bind hi (operands_one hops) fun v =>
      blind_writeOperand hi (operands_zero hops) (place_of_general hx) _
  case xchg =>
    obtain ⟨x, y, hops, hx, hy⟩ := Operation.operands_of_accepts h rfl
    rw [perform]
    exact blind_exchange hi (operands_zero hops) (operands_one hops) hx hy
  case lea =>
    obtain ⟨x, y, hops, hx, hy⟩ := Operation.operands_of_accepts h rfl
    obtain ⟨m, w, rfl⟩ := Operand.memory_of_class (beq_iff_eq.1 hy)
    rw [perform]
    exact blind_loadAddress hi (operands_zero hops) (place_of_general hx) (operands_one hops)
  case push =>
    obtain ⟨x, hops, -⟩ := Operation.operand_of_accepts h rfl
    exact blind_readOperand_bind hi (operands_zero hops) fun v =>
      .modify fun s g hs => System.push_under hs g _ v
  case pop =>
    obtain ⟨x, hops, hx⟩ := TransferOp.operand_of_pop h
    rw [perform]
    rcases hx with hx | hx
    · exact blind_popOperand_place hi (operands_zero hops) hx
    · obtain ⟨r, n, rfl, hr, hn⟩ := Operand.register_of_segment hx
      have hss : n ≠ .ss := fun e => hpops rfl r (operands_zero hops) (e ▸ hr)
      exact blind_popOperand_register (operands_zero hops) hr hn hss
  case pusha => exact .modify fun s g hs => System.pushAll_under hword hs g
  case popa => exact .modify fun s g hs => System.popAll_under hword hs g
  case pushf => exact .modify fun s g hs => System.push_under hs g _ _
  case popf =>
    refine .modify fun s g hs => ?_
    rw [System.pop_under hs]
    rfl
  case lahf => exact .modifyCpu fun s g _ => s.cpu.setHigh_under g .eax _
  case sahf =>
    refine .modifyCpu fun s g _ => ?_
    have hhigh : (s.cpu.under g).gprs.high .eax = s.cpu.gprs.high .eax := Gprs.high_under _ _ _
    rw [hhigh]
    rfl
  case loadFar n =>
    obtain ⟨-, x, m, w, hops, hx⟩ := TransferOp.operands_of_loadFar h
    rw [perform]
    exact blind_loadFarPointer n hi (operands_zero hops) (place_of_general hx)
      (operands_one hops)
  case xlat => exact blind_lookUp hi

/-! ## Transfers of control -/

namespace Exec

variable {x : Operand}

theorem blind_nearTarget_bind {α : Type} {f : UInt32 → Exec δ α} (hi : i.IsNarrow)
    (hx : i.operands[0]? = some x) (hf : ∀ v, Blind P (f v)) :
    Blind P (nearTarget i >>= f) := by
  rw [nearTarget, bind_assoc]
  refine blind_readOperand_bind hi hx fun v => ?_
  rw [operand_eq hx, pure_bind]
  cases x <;> exact hf _

theorem blind_farTarget_bind {α : Type} {f : UInt16 × UInt32 → Exec δ α} (hi : i.IsNarrow)
    (h : (Operation.branch .jmpFar).accepts (i.operands.map Operand.class))
    (hf : ∀ p, Blind P (f p)) : Blind P (farTarget i >>= f) := by
  obtain ⟨ts, hts, hfits⟩ := Operation.accepts_iff.1 h
  rcases List.mem_cons.1 hts with rfl | hts
  · obtain ⟨x, y, hops, hx, -⟩ := fits_two.1 hfits
    obtain ⟨v, w, rfl⟩ := Operand.immediate_of_class (beq_iff_eq.1 hx)
    rw [farTarget, operand_eq (operands_zero hops), pure_bind, bind_assoc]
    exact blind_readOperand_bind hi (operands_one hops) fun c => hf (c.toUInt16, v)
  · cases List.mem_singleton.1 hts
    obtain ⟨x, hops, hx⟩ := fits_one.1 hfits
    obtain ⟨m, w, rfl⟩ := Operand.memory_of_class (beq_iff_eq.1 hx)
    rw [farTarget, operand_eq (operands_zero hops), pure_bind,
      readFarPointer_eq (operands_zero hops)]
    exact .gets_bind (fun s g _ => farPointerAt_under hi m s g) hf

theorem blind_jumpIf (taken : Bool) (hi : i.IsNarrow) (hx : i.operands[0]? = some x) :
    Blind P (jumpIf taken i : Exec δ Outcome) := by
  rw [jumpIf]
  split_ifs
  · exact blind_readOperand_bind hi hx fun v => (blind_nearTransfer v).bind fun _ => .pure _
  · exact .pure _

theorem blind_countDown (t : LoopTest) (hi : i.IsNarrow) (hx : i.operands[0]? = some x) :
    Blind P (countDown t i : Exec δ Outcome) := by
  have hcount (c : Cpu) (g : Gprs) : (c.under g).low .ecx .word = c.low .ecx .word :=
    c.low_under (by decide) g .ecx
  rw [countDown, hi.addressSize]
  refine .gets_bind_of (fun s g _ => ?_) fun s => (blind_jumpIf _ hi hx).bind fun o =>
    (Blind.modifyCpu fun u g _ => u.cpu.setLow_under (by decide) g _ _).bind fun _ => .pure o
  dsimp only [AddressSize.width]
  rw [s.cpu_under, hcount, Cpu.flags_under]

/-! What is saved or taken back lies on a narrow stack. -/

theorem blind_nearCall (next : UInt32) (hi : i.IsNarrow) (hx : i.operands[0]? = some x) :
    Blind Narrow (nearCall i next : Exec δ Unit) :=
  blind_nearTarget_bind hi hx fun v => (blind_nearTransfer v).bind_of fun _ _ _ hs ht =>
    ⟨narrow_of_nearTransfer hs ht, .modify fun _ g hu => System.push_under hu g _ next⟩

theorem blind_farCall (next : UInt32) (hi : i.IsNarrow)
    (h : (Operation.branch .jmpFar).accepts (i.operands.map Operand.class)) :
    Blind Narrow (farCall i next : Exec δ Unit) := by
  refine blind_farTarget_bind hi h fun p => .gets_bind (fun _ _ _ => rfl) fun cs =>
    (blind_farTransfer p.1 p.2).bind_of fun _ _ _ hs ht =>
      ⟨narrow_of_farTransfer hs ht, .modify fun u g hu => ?_⟩
  rw [System.push_under hu, System.push_under (s := u.push _ _) hu]

theorem blind_nearReturn : Blind Narrow (nearReturn i : Exec δ Unit) :=
  .gets_bind (fun _ g hs => System.peek_under hs g 0 _) fun v =>
    (blind_nearTransfer v).bind_of fun _ _ _ hs ht =>
      ⟨narrow_of_nearTransfer hs ht, .modifyCpu fun _ g hu => Cpu.adjustStack_under hu g _⟩

theorem blind_farReturn : Blind Narrow (farReturn i : Exec δ Unit) := by
  refine .get_bind (fun s g hs => ?_) fun s => (blind_farTransfer _ _).bind_of fun _ _ _ hs ht =>
    ⟨narrow_of_farTransfer hs ht, .modifyCpu fun _ g hu => Cpu.adjustStack_under hu g _⟩
  rw [System.peek_under hs, System.peek_under hs]

end Exec

theorem BranchOp.blind (o : BranchOp) (next : UInt32) (hi : i.IsNarrow)
    (h : (Operation.branch o).accepts (i.operands.map Operand.class) = true) :
    Blind Narrow (o.perform i next : Exec δ Outcome) := by
  have hword : i.operandWidth ≠ .dword := by rw [hi.operandWidth]; decide
  cases o
  case jmp =>
    obtain ⟨x, hops, -⟩ := Operation.operand_of_accepts h rfl
    exact blind_nearTarget_bind hi (operands_zero hops) fun v =>
      (blind_nearTransfer v).bind fun _ => .pure _
  case jmpFar =>
    exact blind_farTarget_bind hi h fun p => (blind_farTransfer p.1 p.2).bind fun _ => .pure _
  case jcc c =>
    obtain ⟨x, hops, -⟩ := Operation.operand_of_accepts h rfl
    exact .gets_bind (fun _ _ _ => rfl) fun _ => blind_jumpIf _ hi (operands_zero hops)
  case jcxz =>
    obtain ⟨x, hops, -⟩ := Operation.operand_of_accepts h rfl
    rw [perform, hi.addressSize]
    exact .gets_bind (fun s g _ => s.cpu.low_under (by decide) g .ecx) fun _ =>
      blind_jumpIf _ hi (operands_zero hops)
  case loop t =>
    obtain ⟨x, hops, -⟩ := Operation.operand_of_accepts h rfl
    exact blind_countDown t hi (operands_zero hops)
  case call =>
    obtain ⟨x, hops, -⟩ := Operation.operand_of_accepts h rfl
    exact (blind_nearCall next hi (operands_zero hops)).bind fun _ => .pure _
  case callFar => exact (blind_farCall next hi h).bind fun _ => .pure _
  case ret => exact blind_nearReturn.bind fun _ => .pure _
  case retFar => exact blind_farReturn.bind fun _ => .pure _
  case int =>
    obtain ⟨x, hops, -⟩ := Operation.operand_of_accepts h rfl
    exact blind_readOperand_bind hi (operands_zero hops) fun v =>
      (blind_deliver _ next).bind fun _ => .pure _
  case int3 => exact (blind_deliver 3 next).bind fun _ => .pure _
  case into =>
    rw [perform]
    refine .gets_bind (fun _ _ _ => rfl) fun taken => ?_
    split_ifs
    · exact (blind_deliver 4 next).bind fun _ => .pure _
    · exact .pure _
  case iret => exact (blind_interruptReturn _).bind fun _ => .pure _
  case enter =>
    obtain ⟨x, y, hops, -, -⟩ := Operation.operands_of_accepts h rfl
    exact blind_readOperand_bind hi (operands_zero hops) fun space =>
      blind_readOperand_bind hi (operands_one hops) fun depth =>
        (Blind.modify fun s g hs => System.enterFrame_under hword hs g _ _).bind fun _ => .pure _
  case leave =>
    exact (Blind.modify fun s g hs => System.leaveFrame_under hword hs g).bind fun _ => .pure _

/-! ## Strings -/

theorem Cpu.advance_under (c : Cpu) (h : Gprs) (r : Gpr) (e : Width) :
    (c.under h).advance r .word e = (c.advance r .word e).under h := by
  have hlow : (c.under h).low r .word = c.low r .word := c.low_under (by decide) h r
  unfold advance
  dsimp only [AddressSize.width]
  rw [hlow, setLow_under (by decide)]
  rfl

namespace StringOp

theorem element_under (o : StringOp) (hi : i.IsNarrow) (he : i.dataWidth ≠ .dword)
    (s : System δ) (h : Gprs) : o.element i (s.under h) = (o.element i s).under h := by
  have hsource : (s.under h).cpu.low .esi .word = s.cpu.low .esi .word :=
    s.cpu.low_under (by decide) h .esi
  have hdestination : (s.under h).cpu.low .edi .word = s.cpu.low .edi .word :=
    s.cpu.low_under (by decide) h .edi
  have hvalue : (s.under h).cpu.low .eax i.dataWidth = s.cpu.low .eax i.dataWidth :=
    s.cpu.low_under he h .eax
  have hport : (s.under h).cpu.dx = s.cpu.dx := s.cpu.dx_under h
  have hboth (c : Cpu) : ((c.under h).advance .esi .word i.dataWidth).advance .edi .word
      i.dataWidth = ((c.advance .esi .word i.dataWidth).advance .edi .word i.dataWidth).under h := by
    rw [Cpu.advance_under, Cpu.advance_under]
  let x := s.read (i.prefixes.segment.getD .ds) (s.cpu.low .esi .word) i.dataWidth
  let y := s.read .es (s.cpu.low .edi .word) i.dataWidth
  let stored (v : UInt32) := s.write .es (s.cpu.low .edi .word) i.dataWidth v
  unfold element
  simp only [hi.addressSize, AddressSize.width, hsource, hdestination, hport, hvalue]
  cases o
  case movs => exact System.modifyCpu_under (s := stored x) (hboth s.cpu)
  case cmps =>
    let f := (Alu.sub s.cpu.flags i.dataWidth x y false).2
    exact System.modifyCpu_under (hboth { s.cpu with flags := f })
  case stos =>
    let t := stored (s.cpu.low .eax i.dataWidth)
    exact System.modifyCpu_under (s := t) (t.cpu.advance_under h .edi i.dataWidth)
  case lods =>
    refine System.modifyCpu_under ?_
    rw [Cpu.setLow_under he, Cpu.advance_under]
  case scas =>
    let f := (Alu.sub s.cpu.flags i.dataWidth (s.cpu.low .eax i.dataWidth) y false).2
    refine System.modifyCpu_under (Eq.trans ?_
      (Cpu.advance_under { s.cpu with flags := f } h .edi i.dataWidth))
    rw [← s.cpu_under, hvalue]
    rfl
  case ins =>
    let r := s.readPort s.cpu.dx i.dataWidth
    let t := r.2.write .es (s.cpu.low .edi .word) i.dataWidth r.1
    exact System.modifyCpu_under (s := t) (t.cpu.advance_under h .edi i.dataWidth)
  case outs =>
    let t := s.writePort s.cpu.dx i.dataWidth x
    exact System.modifyCpu_under (s := t) (t.cpu.advance_under h .esi i.dataWidth)

/-- The count is a lower half, too. -/
theorem repetition_under (o : StringOp) (hi : i.IsNarrow) (he : i.dataWidth ≠ .dword)
    (p : Repeat) (n : Nat) (s : System δ) (h : Gprs) :
    o.repetition i p n (s.under h) = (o.repetition i p n s).under h := by
  induction n generalizing s with
  | zero => rfl
  | succ n ih =>
    let t := (o.element i s).modifyCpu (·.setLow .ecx .word (UInt32.ofNat n))
    have hstep : (o.element i (s.under h)).modifyCpu (·.setLow .ecx .word (UInt32.ofNat n)) =
        t.under h := by
      rw [element_under o hi he]
      exact System.modifyCpu_under
        ((o.element i s).cpu.setLow_under (w := .word) (by decide) h .ecx _)
    unfold repetition
    simp only [hi.addressSize, AddressSize.width, hstep]
    change (if o.goesOn p t.cpu.flags then _ else _) =
      System.under (if o.goesOn p t.cpu.flags then _ else _) h
    split_ifs
    · exact ih t
    · rfl

theorem blind (o : StringOp) (hi : i.IsNarrow) (he : i.dataWidth ≠ .dword) :
    Blind P (modify (o.perform i) : Exec δ PUnit) := by
  refine .modify fun s h _ => ?_
  have hcount : (s.under h).cpu.low .ecx .word = s.cpu.low .ecx .word :=
    s.cpu.low_under (by decide) h .ecx
  unfold perform
  simp only [hi.addressSize, AddressSize.width, hcount]
  cases i.prefixes.rep with
  | none => exact element_under o hi he s h
  | some p => exact repetition_under o hi he p _ s h

end StringOp

/-! ## Ports and the processor itself -/

theorem PortOp.blind (o : PortOp) (hi : i.IsNarrow)
    (h : (Operation.port o).accepts (i.operands.map Operand.class) = true) :
    Blind P (o.perform i : Exec δ Unit) := by
  cases o
  case input =>
    obtain ⟨x, y, hops, hx, -⟩ := Operation.operands_of_accepts h rfl
    rw [perform, operand_eq (operands_zero hops), pure_bind]
    refine blind_readOperand_bind hi (operands_one hops) fun port s g _ => ?_
    let r := s.readPort port.toUInt16 x.width
    exact blind_writeOperand (P := Always) hi (operands_zero hops) (place_of_general hx) r.1 r.2 g
      trivial
  case output =>
    obtain ⟨x, y, hops, -, -⟩ := Operation.operands_of_accepts h rfl
    rw [perform, operand_eq (operands_one hops), pure_bind]
    exact blind_readOperand_bind hi (operands_zero hops) fun port =>
      blind_readOperand_bind hi (operands_one hops) fun v => .modify fun _ _ _ => rfl

namespace Exec

variable {m : MemoryOperand} {w : Width}

/-- The limit and the base at a place in memory. -/
def tableAt (i : Instruction) (m : MemoryOperand) (s : System δ) : TableRegister :=
  let offset := s.cpu.effectiveOffset i.addressSize m
  let base := s.read m.segment (i.addressSize.wrap (offset + 2)) .dword
  { base := match i.operandWidth with
      | .word => base &&& 0xFFFFFF
      | _ => base
    limit := (s.read m.segment offset .word).toUInt16 }

theorem readTable_eq (h : i.operands[0]? = some (.memory m w)) :
    (readTable i : Exec δ TableRegister) = gets (tableAt i m) := by
  rw [readTable, memoryOperand_eq h]
  rfl

theorem tableAt_under (hi : i.IsNarrow) (m : MemoryOperand) (s : System δ) (h : Gprs) :
    tableAt i m (s.under h) = tableAt i m s := by
  unfold tableAt
  rw [hi.addressSize, s.cpu_under, Cpu.effectiveOffset_under]
  rfl

theorem blind_writeTable (t : TableRegister) (hi : i.IsNarrow)
    (h : i.operands[0]? = some (.memory m w)) : Blind P (writeTable t i : Exec δ Unit) := by
  rw [writeTable, memoryOperand_eq h, hi.addressSize]
  refine .gets_bind (fun s g _ => by rw [s.cpu_under, Cpu.effectiveOffset_under]) fun p =>
    .modify fun s g _ => ?_
  rw [System.write_under, System.write_under]

end Exec

theorem SystemOp.blind (o : SystemOp) (hi : i.IsNarrow)
    (h : (Operation.system o).accepts (i.operands.map Operand.class) = true) :
    Blind P (o.perform i : Exec δ Outcome) := by
  cases o
  case hlt =>
    rw [perform]
    refine .gets_bind (fun _ _ _ => rfl) fun enabled => ?_
    split_ifs
    · exact .pure _
    · exact .throw _
  case nop => exact .pure _
  case lgdt | lidt =>
    obtain ⟨x, hops, hx⟩ := Operation.operand_of_accepts h rfl
    obtain ⟨m, w, rfl⟩ := Operand.memory_of_class (beq_iff_eq.1 hx)
    rw [perform, readTable_eq (operands_zero hops)]
    exact .gets_bind (fun s g _ => tableAt_under hi m s g) fun t =>
      (Blind.modifyCpu fun _ _ _ => rfl).bind fun _ => .pure _
  case sgdt | sidt =>
    obtain ⟨x, hops, hx⟩ := Operation.operand_of_accepts h rfl
    obtain ⟨m, w, rfl⟩ := Operand.memory_of_class (beq_iff_eq.1 hx)
    exact .gets_bind (fun _ _ _ => rfl) fun t =>
      (blind_writeTable t hi (operands_zero hops)).bind fun _ => .pure _
  case lmsw =>
    obtain ⟨x, hops, -⟩ := Operation.operand_of_accepts h rfl
    exact blind_readOperand_bind hi (operands_zero hops) fun v =>
      (Blind.modifyCpu fun _ _ _ => rfl).bind fun _ => .pure _
  case smsw =>
    obtain ⟨x, hops, hx⟩ := Operation.operand_of_accepts h rfl
    exact .gets_bind (fun _ _ _ => rfl) fun v =>
      (blind_writeOperand hi (operands_zero hops) hx _).bind fun _ => .pure _

/-! ## Instructions -/

theorem Instruction.blind_perform (h : i.WellFormed) (hi : i.IsNarrow)
    (hwidth : i.operation.isProduct = true → ∀ x ∈ i.operands, x.width ≠ .dword)
    (hpops : ¬ i.PopsStack) (next : UInt32) : Blind Narrow (i.perform next : Exec δ Outcome) := by
  have hunit := h.unit
  have haccepts := h.accepts
  rw [perform, hunit]
  cases ho : i.operation with
  | branch o => rw [ho] at haccepts; exact o.blind next hi haccepts
  | arithmetic o =>
    rw [ho] at haccepts hwidth
    exact (o.blind hi hwidth haccepts).bind fun _ => .pure _
  | decimal o => rw [ho] at haccepts; exact (o.blind hi haccepts).bind fun _ => .pure _
  | logic o => rw [ho] at haccepts; exact (o.blind hi haccepts).bind fun _ => .pure _
  | shiftRotate o => rw [ho] at haccepts; exact (o.blind hi haccepts).bind fun _ => .pure _
  | bitByte o => rw [ho] at haccepts; exact (o.blind hi haccepts).bind fun _ => .pure _
  | transfer o =>
    rw [ho] at haccepts
    have hss (e : o = .pop) (r : RegisterRef) (hr : i.operands[0]? = some (.register r)) :
        r.segmentName? ≠ some .ss := fun hn => hpops ⟨ho.trans (congrArg _ e), r, hr, hn⟩
    exact (o.blind hi hss haccepts).bind fun _ => .pure _
  | string o => exact (o.blind hi (hi.elements o ho)).bind fun _ => .pure _
  | port o => rw [ho] at haccepts; exact (o.blind hi haccepts).bind fun _ => .pure _
  | flag o => exact (Blind.modifyCpu fun _ _ _ => rfl).bind fun _ => .pure _
  | system o => rw [ho] at haccepts; exact o.blind hi haccepts

theorem Exec.blind_execute (h : i.WellFormed) (hi : i.IsNarrow)
    (hwidth : i.operation.isProduct = true → ∀ x ∈ i.operands, x.width ≠ .dword)
    (hpops : ¬ i.PopsStack) : Blind Narrow (execute i : Exec δ CycleExit) := by
  refine .gets_bind (fun _ _ _ => rfl) fun next =>
    (Instruction.blind_perform h hi hwidth hpops next).bind fun o => ?_
  cases o with
  | next => exact (Blind.modifyCpu fun _ _ _ => rfl).bind fun _ => .pure _
  | branch => exact .pure _
  | halt => exact (Blind.modifyCpu fun _ _ _ => rfl).bind fun _ => .pure _

end Ia32
