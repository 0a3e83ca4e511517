/-
  Operations stay within their frames.

  Main definitions:
  - `Instruction.touches` : the parts that an instruction is made to change

  Main statements:
  - `ArithmeticOp.keeps`, … : the operations of each unit but the one for transfers of control
  - `Instruction.keeps_perform` : a well-formed instruction changes what it touches only
-/
import Ia32.Execute.Dispatch
import Ia32.Proofs.Frame

namespace Ia32

variable {δ : Type} {i : Instruction} {p : Part → Prop}

open OperandTest
open Instruction (operands_zero operands_one operands_two)

/-! ## Status flags -/

namespace Alu

/-- A function of an operand changes the status flags only. -/
def KeepsModes (f : Flags → Width → UInt32 → UInt32 × Flags) : Prop :=
  ∀ g w a, (f g w a).2.modes = g.modes

theorem modes_shift (f : Flags) (k : Shift) (w : Width) (a n : UInt32) :
    (shift f k w a n).2.modes = f.modes := by
  unfold shift
  dsimp only
  split_ifs <;> rfl

theorem modes_rotate (f : Flags) (k : Rotate) (w : Width) (a n : UInt32) :
    (rotate f k w a n).2.modes = f.modes := by
  unfold rotate
  dsimp only
  split_ifs <;> rfl

theorem modes_aam {f : Flags} {al base : UInt8} {r : UInt16 × Flags}
    (h : aam f al base = .ok r) : r.2.modes = f.modes := by
  unfold aam at h
  split_ifs at h
  cases h
  rfl

theorem modes_mul (f : Flags) (w : Width) (a b : UInt32) : (mul f w a b).2.modes = f.modes := rfl

theorem modes_imul (f : Flags) (w : Width) (a b : UInt32) : (imul f w a b).2.modes = f.modes := rfl

end Alu

namespace Exec

variable {k : Nat} {x y : Operand}

theorem keeps_readOperand (h : i.operands[k]? = some x) :
    Keeps p (readOperand i k : Exec δ UInt32) := by
  rw [readOperand_eq h]
  exact .gets _

theorem keeps_operand (h : i.operands[k]? = some x) : Keeps p (operand i k : Exec δ Operand) := by
  rw [operand_eq h]
  exact .pure x

theorem keeps_writeOperand (h : i.operands[k]? = some x) (hx : place x.class = true)
    (v : UInt32) : Keeps p (writeOperand i k v : Exec δ Unit) :=
  .of_run (fun s => run_writeOperand h hx v s) fun s => .stored s _ _ _

theorem keeps_transform (h : i.operands[0]? = some x) (hx : place x.class = true)
    {f : Flags → Width → UInt32 → UInt32 × Flags} (hf : Alu.KeepsModes f) :
    Keeps p (transform i f : Exec δ Unit) :=
  .of_run (fun s => run_transform h hx f s) fun s =>
    (Frame.setFlags s (hf _ _ _)).trans (.stored _ _ _ _)

theorem keeps_examine (h : i.operands[0]? = some x)
    {f : Flags → Width → UInt32 → UInt32 × Flags} (hf : Alu.KeepsModes f) :
    Keeps p (examine i f : Exec δ Unit) :=
  .of_run (fun s => run_examine h f s) fun s => Frame.setFlags s (hf _ _ _)

/-- The accumulator pair is made of general registers. -/
theorem setWidePair_eq (c : Cpu) (w : Width) (lo hi : UInt32) :
    ∃ g, c.setWidePair w lo hi = { c with gprs := g } := by
  cases w <;> exact ⟨_, rfl⟩

theorem keeps_multiplyWide (h : i.operands[0]? = some x)
    {f : Flags → Width → UInt32 → UInt32 → (UInt32 × UInt32) × Flags}
    (hf : ∀ g w a b, (f g w a b).2.modes = g.modes) :
    Keeps p (multiplyWide i f : Exec δ Unit) := by
  refine (keeps_operand h).bind fun x => (keeps_readOperand h).bind fun b => .modifyCpu fun s => ?_
  dsimp only
  obtain ⟨g, hg⟩ := setWidePair_eq s.cpu x.width
    (f s.cpu.flags x.width (s.cpu.low .eax x.width) b).1.1
    (f s.cpu.flags x.width (s.cpu.low .eax x.width) b).1.2
  rw [System.modifyCpu, hg]
  exact .of_eq rfl (hf _ _ _ _) rfl

theorem keeps_divideWide (h : i.operands[0]? = some x)
    (f : Width → UInt64 → UInt32 → Except Fault (UInt32 × UInt32)) :
    Keeps p (divideWide i f : Exec δ Unit) := by
  refine (keeps_operand h).bind fun x => (keeps_readOperand h).bind fun d =>
    (Keeps.gets _).bind fun n => (Keeps.ofExcept _).bind fun r => .modifyCpu fun s => ?_
  obtain ⟨g, hg⟩ := setWidePair_eq s.cpu x.width r.1 r.2
  rw [System.modifyCpu, hg]
  exact .of_eq rfl rfl rfl

theorem keeps_multiplyInto {l : Nat} {z : Operand} (hx : i.operands[0]? = some x)
    (hclass : place x.class = true) (hk : i.operands[k]? = some y)
    (hl : i.operands[l]? = some z) : Keeps p (multiplyInto i k l : Exec δ Unit) := by
  intro s _ t h
  rw [multiplyInto, operand_eq hx, readOperand_eq hk, readOperand_eq hl] at h
  simp only [run_pure_bind, run_gets_bind, run_modifyCpu_bind, run_writeOperand hx hclass] at h
  cases h
  have hflags (a b : UInt32) : Frame p s
      (s.modifyCpu fun c => { c with flags := (Alu.imul s.cpu.flags x.width a b).2 }) :=
    .setFlags s (Alu.modes_imul _ _ _ _)
  exact (hflags _ _).trans (.stored _ _ _ _)

end Exec

/-! ## The units -/

open Exec

theorem ArithmeticOp.keeps (o : ArithmeticOp)
    (h : (Operation.arithmetic o).accepts (i.operands.map Operand.class) = true) :
    Keeps p (o.perform i : Exec δ Unit) := by
  cases o
  case add | adc | sub | sbb =>
    obtain ⟨x, y, hops, hx, -⟩ := Operation.operands_of_accepts h rfl
    exact (keeps_readOperand (operands_one hops)).bind fun _ =>
      keeps_transform (operands_zero hops) hx fun _ _ _ => rfl
  case cmp =>
    obtain ⟨x, y, hops, -, -⟩ := Operation.operands_of_accepts h rfl
    exact (keeps_readOperand (operands_one hops)).bind fun _ =>
      keeps_examine (operands_zero hops) fun _ _ _ => rfl
  case inc | dec | neg =>
    obtain ⟨x, hops, hx⟩ := Operation.operand_of_accepts h rfl
    rw [perform]
    exact keeps_transform (operands_zero hops) hx fun _ _ _ => rfl
  case mul =>
    obtain ⟨x, hops, -⟩ := Operation.operand_of_accepts h rfl
    rw [perform]
    exact keeps_multiplyWide (operands_zero hops) Alu.modes_mul
  case imul =>
    rw [perform]
    rcases ArithmeticOp.operands_of_imul h with ⟨x, hops⟩ | ⟨x, y, hops, hx⟩ | ⟨x, y, z, hops, hx⟩
    · rw [hops]
      exact keeps_multiplyWide (operands_zero hops) Alu.modes_imul
    · rw [hops]
      exact keeps_multiplyInto (operands_zero hops) (place_of_general hx) (operands_zero hops)
        (operands_one hops)
    · rw [hops]
      exact keeps_multiplyInto (operands_zero hops) (place_of_general hx) (operands_one hops)
        (operands_two hops)
  case div | idiv =>
    obtain ⟨x, hops, -⟩ := Operation.operand_of_accepts h rfl
    rw [perform]
    exact keeps_divideWide (operands_zero hops) _
  case cbw =>
    refine .modifyCpu fun s => ?_
    cases i.operandWidth <;> exact .of_eq rfl rfl rfl
  case cwd => exact .modifyCpu fun s => .of_eq rfl rfl rfl

theorem DecimalOp.keeps (o : DecimalOp)
    (h : (Operation.decimal o).accepts (i.operands.map Operand.class) = true) :
    Keeps p (o.perform i : Exec δ Unit) := by
  have hbase {x : Operand} (hops : i.operands = [x]) : Keeps p (digitBase i : Exec δ UInt8) := by
    rw [digitBase, hops]
    exact (keeps_readOperand (operands_zero hops)).bind fun _ => .pure _
  cases o
  case daa | das | aaa | aas =>
    rintro s _ _ ⟨⟩
    exact .of_eq rfl rfl rfl
  case aam =>
    obtain ⟨x, hops, -⟩ := Operation.operand_of_accepts h rfl
    refine (hbase hops).bind fun b => ?_
    intro s _ t h
    rw [run_gets_bind, run_bind, run_ofExcept] at h
    cases e : Alu.aam s.cpu.flags s.cpu.al b with
    | error f => rw [e] at h; cases h
    | ok r =>
      rw [e] at h
      cases h
      exact .of_eq rfl (Alu.modes_aam e) rfl
  case aad =>
    obtain ⟨x, hops, -⟩ := Operation.operand_of_accepts h rfl
    refine (hbase hops).bind fun b => ?_
    rintro s _ _ ⟨⟩
    exact .of_eq rfl rfl rfl

theorem LogicOp.keeps (o : LogicOp)
    (h : (Operation.logic o).accepts (i.operands.map Operand.class) = true) :
    Keeps p (o.perform i : Exec δ Unit) := by
  cases o
  case and | or | xor =>
    obtain ⟨x, y, hops, hx, -⟩ := Operation.operands_of_accepts h rfl
    exact (keeps_readOperand (operands_one hops)).bind fun _ =>
      keeps_transform (operands_zero hops) hx fun _ _ _ => rfl
  case test =>
    obtain ⟨x, y, hops, -, -⟩ := Operation.operands_of_accepts h rfl
    exact (keeps_readOperand (operands_one hops)).bind fun _ =>
      keeps_examine (operands_zero hops) fun _ _ _ => rfl
  case not =>
    obtain ⟨x, hops, hx⟩ := Operation.operand_of_accepts h rfl
    rw [perform]
    exact keeps_transform (operands_zero hops) hx fun _ _ _ => rfl

theorem ShiftRotateOp.keeps (o : ShiftRotateOp)
    (h : (Operation.shiftRotate o).accepts (i.operands.map Operand.class) = true) :
    Keeps p (o.perform i : Exec δ Unit) := by
  obtain ⟨x, y, hops, hx, -⟩ := Operation.operands_of_accepts h rfl
  rw [perform, hops, if_pos (by simp)]
  refine (keeps_readOperand (operands_one hops)).bind fun n => ?_
  cases o with
  | shift k => exact keeps_transform (operands_zero hops) hx fun f w a => Alu.modes_shift f k w a n
  | rotate k =>
    exact keeps_transform (operands_zero hops) hx fun f w a => Alu.modes_rotate f k w a n

namespace Exec

variable {x y : Operand}

theorem keeps_testBit (u : BitUpdate) (hx : i.operands[0]? = some x)
    (hy : i.operands[1]? = some y) (h : place x.class = true) :
    Keeps p (testBit u i : Exec δ Unit) := by
  intro s _ t e
  have hcarry (b : Bool) : Frame p s (s.modifyCpu fun c => { c with flags.carry := b }) :=
    .of_eq rfl rfl rfl
  obtain ⟨l, n, hrun, hl⟩ := run_locateBit hx hy h s
  rw [testBit, operand_eq hx, run_pure_bind, run_bind_of_ok hrun] at e
  simp only [run_gets_bind, run_modifyCpu_bind] at e
  split_ifs at e
  · cases e
    exact hcarry _
  · rw [run_store hl] at e
    cases e
    exact (hcarry _).trans (.stored _ _ _ _)

theorem keeps_scanBits (scan : UInt32 → Option Nat) (hx : i.operands[0]? = some x)
    (hy : i.operands[1]? = some y) (h : place x.class = true) :
    Keeps p (scanBits scan i : Exec δ Unit) := by
  have hzero (b : Bool) : Keeps p (Exec.modifyCpu fun c => { c with flags.zero := b } :
      Exec δ Unit) := .modifyCpu fun s => .of_eq rfl rfl rfl
  rw [scanBits]
  refine (keeps_operand hx).bind fun x => (keeps_readOperand hy).bind fun v => ?_
  cases scan (x.width.truncate v) with
  | none => exact hzero true
  | some n => exact (hzero false).bind fun _ => keeps_writeOperand hx h _

end Exec

theorem BitByteOp.keeps (o : BitByteOp)
    (h : (Operation.bitByte o).accepts (i.operands.map Operand.class) = true) :
    Keeps p (o.perform i : Exec δ Unit) := by
  cases o
  case setcc c =>
    obtain ⟨x, hops, hx⟩ := Operation.operand_of_accepts h rfl
    exact (Keeps.gets _).bind fun _ => keeps_writeOperand (operands_zero hops) hx _
  case bitTest u =>
    obtain ⟨x, y, hops, hx, -⟩ := Operation.operands_of_accepts h rfl
    exact keeps_testBit u (operands_zero hops) (operands_one hops) hx
  case scanForward | scanReverse =>
    obtain ⟨x, y, hops, hx, -⟩ := Operation.operands_of_accepts h rfl
    exact keeps_scanBits _ (operands_zero hops) (operands_one hops) (place_of_general hx)

/-! ## Parts that instructions are made for -/

/-- The first operand of the instruction passes the test. -/
def Instruction.writes (i : Instruction) (t : OperandTest) : Bool :=
  i.operands.head?.any (t ·.class)

/-- The parts that the instruction is made to change. -/
def Instruction.touches (i : Instruction) : Part → Bool
  | .segments => match i.operation with
    | .transfer .mov | .transfer .pop => i.writes segment
    | .transfer (.loadFar _) => true
    | _ => false
  | .control => match i.operation with
    | .transfer .mov => i.writes control
    | .system .lmsw => true
    | _ => false
  | .debug => match i.operation with
    | .transfer .mov => i.writes debug
    | _ => false
  | .gdtr => i.operation == .system .lgdt
  | .idtr => i.operation == .system .lidt
  | .modes => match i.operation with
    | .transfer .popf | .flag .cld | .flag .std | .flag .cli | .flag .sti => true
    | _ => false
  | .ports => match i.operation with
    | .port _ | .string .ins | .string .outs => true
    | _ => false

theorem Instruction.writes_of_operands {x : Operand} {xs : List Operand}
    (h : i.operands = x :: xs) (t : OperandTest) : i.writes t = t x.class := by
  rw [writes, h]
  rfl

/-- A computation within the parts that an instruction touches. -/
abbrev Exec.KeepsTo (i : Instruction) {α : Type} (x : Exec δ α) : Prop :=
  Keeps (fun k => i.touches k = true) x

/-! ## Transfers of data -/

namespace Exec

variable {k : Nat} {x y : Operand}

theorem keeps_adjustStack (d : UInt32) :
    Keeps p (Exec.modifyCpu (·.adjustStack d) : Exec δ Unit) :=
  .modifyCpu fun _ => .of_eq rfl rfl rfl

theorem keeps_writeOperand_segment (h : i.operands[k]? = some x) (hx : segment x.class = true)
    (hp : p .segments) (v : UInt32) : Keeps p (writeOperand i k v : Exec δ Unit) := by
  obtain ⟨n, hn, e⟩ := writeOperand_segment h hx v
  rw [e]
  exact keeps_setSelector hn hp _

theorem keeps_writeOperand_control (h : i.operands[k]? = some x) (hx : control x.class = true)
    (hp : p .control) (v : UInt32) : Keeps p (writeOperand i k v : Exec δ Unit) := by
  obtain ⟨n, hn, -, e⟩ := writeOperand_control h hx v
  rw [e]
  exact .modifyCpu fun s => .setControl s _ hp

theorem keeps_writeOperand_debug (h : i.operands[k]? = some x) (hx : debug x.class = true)
    (hp : p .debug) (v : UInt32) : Keeps p (writeOperand i k v : Exec δ Unit) := by
  obtain ⟨n, hn, e⟩ := writeOperand_debug h hx v
  rw [e]
  exact .modifyCpu fun s => .setDebug s _ hp

theorem keeps_exchange (hx : i.operands[0]? = some x) (hy : i.operands[1]? = some y)
    (h : place x.class = true) (h' : place y.class = true) :
    Keeps p (exchange i : Exec δ Unit) := by
  intro s _ t e
  rw [exchange, operand_eq hx, operand_eq hy, run_pure_bind, run_pure_bind, run_get_bind,
    run_bind_of_ok (run_store (s.cpu.isPlace_locate _ h) _ _ _),
    run_store (s.cpu.isPlace_locate _ h')] at e
  cases e
  exact (Frame.stored _ _ _ _).trans (.stored _ _ _ _)

theorem keeps_popOperand (hx : i.operands[0]? = some x) (h : place x.class = true) :
    Keeps p (popOperand i : Exec δ Unit) := by
  rw [popOperand_place hx h]
  exact (Keeps.gets _).bind fun v => (keeps_adjustStack _).bind fun _ => keeps_writeOperand hx h v

theorem keeps_popOperand_segment (hx : i.operands[0]? = some x) (h : segment x.class = true)
    (hp : p .segments) : Keeps p (popOperand i : Exec δ Unit) := by
  obtain ⟨n, hn, e⟩ := popOperand_segment hx h
  rw [e]
  exact (Keeps.gets _).bind fun v => (keeps_setSelector hn hp _).bind fun _ => keeps_adjustStack _

theorem keeps_loadFarPointer {n : SegmentName} (hn : n ≠ .cs) {m : MemoryOperand} {w : Width}
    (hx : i.operands[0]? = some x) (h : place x.class = true)
    (hy : i.operands[1]? = some (.memory m w)) (hp : p .segments) :
    Keeps p (loadFarPointer n i : Exec δ Unit) := by
  rw [loadFarPointer, readFarPointer_eq hy]
  exact (Keeps.gets _).bind fun r => (keeps_setSelector hn hp _).bind fun _ =>
    keeps_writeOperand hx h _

theorem frame_pushAll (s : System δ) (w : Width) : Frame p s (s.pushAll w) :=
  .foldl (fun t r => .push t w (s.cpu.low r w)) Gpr.all s

theorem frame_popAll (s : System δ) (w : Width) : Frame p s (s.popAll w) := by
  refine .foldl (fun t r => ?_) Gpr.all.reverse s
  dsimp only [System.pop]
  split_ifs <;> exact .of_eq rfl rfl rfl

/-- Restoring the flags keeps the resume and the virtual-8086 flag. -/
theorem frame_popFlags (s : System δ) (w : Width) (hp : p .modes) : Frame p s
    ((s.pop w).2.modifyCpu fun c => { c with flags := c.flags.restore w (s.pop w).1 }) := by
  have hpop : Frame p s (s.pop w).2 := .of_eq rfl rfl rfl
  exact hpop.trans (.setModes _ rfl rfl hp)

end Exec

theorem TransferOp.keeps (o : TransferOp) (ho : i.operation = .transfer o)
    (h : (Operation.transfer o).accepts (i.operands.map Operand.class) = true) :
    KeepsTo i (o.perform i : Exec δ Unit) := by
  have htouch {x : Operand} {xs : List Operand} {k : Part} {u : OperandTest}
      (hk : i.touches k = i.writes u) (hops : i.operands = x :: xs) (hx : u x.class = true) :
      i.touches k = true :=
    hk.trans ((Instruction.writes_of_operands hops u).trans hx)
  cases o
  case mov =>
    obtain ⟨x, y, hops, hx⟩ := TransferOp.operands_of_mov h
    rw [perform]
    refine (keeps_readOperand (operands_one hops)).bind fun v => ?_
    rcases hx with hx | hx | hx | hx
    · exact keeps_writeOperand (operands_zero hops) hx _
    · have hk : i.touches .segments = i.writes segment := by rw [Instruction.touches, ho]
      exact keeps_writeOperand_segment (operands_zero hops) hx (htouch hk hops hx) _
    · have hk : i.touches .control = i.writes control := by rw [Instruction.touches, ho]
      exact keeps_writeOperand_control (operands_zero hops) hx (htouch hk hops hx) _
    · have hk : i.touches .debug = i.writes debug := by rw [Instruction.touches, ho]
      exact keeps_writeOperand_debug (operands_zero hops) hx (htouch hk hops hx) _
  case movzx | movsx =>
    obtain ⟨x, y, hops, hx, -⟩ := Operation.operands_of_accepts h rfl
    exact (keeps_operand (operands_one hops)).bind fun _ =>
      (keeps_readOperand (operands_one hops)).bind fun _ =>
        keeps_writeOperand (operands_zero hops) (place_of_general hx) _
  case xchg =>
    obtain ⟨x, y, hops, hx, hy⟩ := Operation.operands_of_accepts h rfl
    rw [perform]
    exact keeps_exchange (operands_zero hops) (operands_one hops) hx hy
  case lea =>
    obtain ⟨x, y, hops, hx, hy⟩ := Operation.operands_of_accepts h rfl
    obtain ⟨m, w, rfl⟩ := Operand.memory_of_class (beq_iff_eq.1 hy)
    rw [perform, loadAddress, memoryOperand_eq (operands_one hops)]
    exact (Keeps.gets _).bind fun _ =>
      keeps_writeOperand (operands_zero hops) (place_of_general hx) _
  case push =>
    obtain ⟨x, hops, -⟩ := Operation.operand_of_accepts h rfl
    exact (keeps_readOperand (operands_zero hops)).bind fun _ => .modify fun s => .push s _ _
  case pop =>
    obtain ⟨x, hops, hx⟩ := TransferOp.operand_of_pop h
    rw [perform]
    rcases hx with hx | hx
    · exact keeps_popOperand (operands_zero hops) hx
    · have hk : i.touches .segments = i.writes segment := by rw [Instruction.touches, ho]
      exact keeps_popOperand_segment (operands_zero hops) hx (htouch hk hops hx)
  case loadFar n =>
    obtain ⟨hn, x, m, w, hops, hx⟩ := TransferOp.operands_of_loadFar h
    have hp : i.touches .segments = true := by rw [Instruction.touches, ho]
    rw [perform]
    exact keeps_loadFarPointer hn (operands_zero hops) (place_of_general hx) (operands_one hops) hp
  case pusha => exact .modify fun s => frame_pushAll s _
  case popa => exact .modify fun s => frame_popAll s _
  case pushf => exact .modify fun s => .push s _ _
  case popf =>
    have htouch : i.touches .modes = true := by rw [Instruction.touches, ho]
    exact .modify fun s => frame_popFlags s _ htouch
  case lahf => exact .modifyCpu fun s => .of_eq rfl rfl rfl
  case sahf => exact .modifyCpu fun s => .of_eq rfl rfl rfl
  case xlat => exact Keeps.get.bind fun s => .modifyCpu fun t => .of_eq rfl rfl rfl

/-! ## Strings -/

/-- The port operations among the string operations reach devices. -/
theorem StringOp.frame_element (o : StringOp) (hp : o = .ins ∨ o = .outs → p .ports)
    (i : Instruction) (s : System δ) : Frame p s (o.element i s) := by
  cases o
  case ins => exact (Frame.setIo s _ (hp (.inl rfl))).trans (.of_eq rfl rfl rfl)
  case outs => exact (Frame.setIo s _ (hp (.inr rfl))).trans (.of_eq rfl rfl rfl)
  all_goals exact .of_eq rfl rfl rfl

theorem StringOp.frame_repetition (o : StringOp) (hp : o = .ins ∨ o = .outs → p .ports)
    (i : Instruction) (r : Repeat) (n : Nat) (s : System δ) :
    Frame p s (o.repetition i r n s) := by
  induction n generalizing s with
  | zero => exact .refl s
  | succ n ih =>
    have hcount (t : System δ) (v : UInt32) : Frame p t
        (t.modifyCpu (·.setLow .ecx i.addressSize.width v)) := .of_eq rfl rfl rfl
    have hone := (o.frame_element hp i s).trans (hcount _ (UInt32.ofNat n))
    rw [repetition]
    split_ifs
    · exact hone.trans (ih _)
    · exact hone

theorem StringOp.frame_perform (o : StringOp) (hp : o = .ins ∨ o = .outs → p .ports)
    (i : Instruction) (s : System δ) : Frame p s (o.perform i s) := by
  unfold perform
  split
  · exact o.frame_element hp i s
  · exact o.frame_repetition hp i _ _ s

/-! ## Ports and the processor itself -/

theorem PortOp.keeps (o : PortOp) (hp : p .ports)
    (h : (Operation.port o).accepts (i.operands.map Operand.class) = true) :
    Keeps p (o.perform i : Exec δ Unit) := by
  cases o
  case input =>
    obtain ⟨x, y, hops, hx, -⟩ := Operation.operands_of_accepts h rfl
    refine (keeps_operand (operands_zero hops)).bind fun x =>
      (keeps_readOperand (operands_one hops)).bind fun port => ?_
    intro s _ t e
    rw [run_get_bind, run_bind, run_set] at e
    have hread : Frame p s (s.readPort port.toUInt16 x.width).2 := .setIo s _ hp
    exact hread.trans
      (keeps_writeOperand (operands_zero hops) (place_of_general hx) _ _ _ _ e)
  case output =>
    obtain ⟨x, y, hops, -, -⟩ := Operation.operands_of_accepts h rfl
    exact (keeps_operand (operands_one hops)).bind fun x =>
      (keeps_readOperand (operands_zero hops)).bind fun port =>
        (keeps_readOperand (operands_one hops)).bind fun v =>
          .modify fun s => .setIo s _ hp

theorem FlagOp.frame_apply (o : FlagOp) (ho : i.operation = .flag o) (s : System δ) :
    Frame (fun k => i.touches k = true) s
      (s.modifyCpu fun c => { c with flags := o.apply c.flags }) := by
  cases o
  case clc | stc | cmc => exact .of_eq rfl rfl rfl
  all_goals
    have htouch : i.touches .modes = true := by rw [Instruction.touches, ho]
    exact .setModes s rfl rfl htouch

theorem Exec.keeps_readTable {m : MemoryOperand} {w : Width}
    (h : i.operands[0]? = some (.memory m w)) :
    Keeps p (readTable i : Exec δ TableRegister) := by
  rw [readTable, memoryOperand_eq h]
  exact (Keeps.gets _).bind fun _ => Keeps.get.bind fun _ => .pure _

theorem Exec.keeps_writeTable {m : MemoryOperand} {w : Width}
    (h : i.operands[0]? = some (.memory m w)) (t : TableRegister) :
    Keeps p (writeTable t i : Exec δ Unit) := by
  rw [writeTable, memoryOperand_eq h]
  refine (Keeps.gets _).bind fun _ => .modify fun s => ?_
  exact (Frame.write s _ _ _ _).trans (.write _ _ _ _ _)

theorem SystemOp.keeps (o : SystemOp) (ho : i.operation = .system o)
    (h : (Operation.system o).accepts (i.operands.map Operand.class) = true) :
    KeepsTo i (o.perform i : Exec δ Outcome) := by
  cases o
  case hlt =>
    rw [perform]
    refine (Keeps.gets _).bind fun enabled => ?_
    split_ifs
    · exact .pure _
    · exact .throw _
  case nop => exact .pure _
  case lgdt =>
    obtain ⟨x, hops, hx⟩ := Operation.operand_of_accepts h rfl
    obtain ⟨m, w, rfl⟩ := Operand.memory_of_class (beq_iff_eq.1 hx)
    have htouch : i.touches .gdtr = true := by simp [Instruction.touches, ho]
    rw [perform]
    exact (keeps_readTable (operands_zero hops)).bind fun t =>
      (Keeps.modifyCpu fun s => .setGdtr s t htouch).bind fun _ => .pure _
  case lidt =>
    obtain ⟨x, hops, hx⟩ := Operation.operand_of_accepts h rfl
    obtain ⟨m, w, rfl⟩ := Operand.memory_of_class (beq_iff_eq.1 hx)
    have htouch : i.touches .idtr = true := by simp [Instruction.touches, ho]
    rw [perform]
    exact (keeps_readTable (operands_zero hops)).bind fun t =>
      (Keeps.modifyCpu fun s => .setIdtr s t htouch).bind fun _ => .pure _
  case sgdt | sidt =>
    obtain ⟨x, hops, hx⟩ := Operation.operand_of_accepts h rfl
    obtain ⟨m, w, rfl⟩ := Operand.memory_of_class (beq_iff_eq.1 hx)
    rw [perform]
    exact (Keeps.gets _).bind fun t =>
      (keeps_writeTable (operands_zero hops) t).bind fun _ => .pure _
  case lmsw =>
    obtain ⟨x, hops, -⟩ := Operation.operand_of_accepts h rfl
    have htouch : i.touches .control = true := by rw [Instruction.touches, ho]
    exact (keeps_readOperand (operands_zero hops)).bind fun v =>
      (Keeps.modifyCpu fun s =>
        .setControl s (fun c => (c.loadStatusWord v).control) htouch).bind fun _ => .pure _
  case smsw =>
    obtain ⟨x, hops, hx⟩ := Operation.operand_of_accepts h rfl
    exact (Keeps.gets _).bind fun v =>
      (keeps_writeOperand (operands_zero hops) hx _).bind fun _ => .pure _

/-- **An instruction changes what it touches only**, unless it transfers control. -/
theorem Instruction.keeps_perform (h : i.WellFormed) (hunit : i.unit ≠ .branch) (next : UInt32) :
    KeepsTo i (i.perform next : Exec δ Outcome) := by
  have haccepts := h.accepts
  have hu := h.unit
  rw [perform, hu]
  cases ho : i.operation with
  | branch o => rw [hu, ho] at hunit; exact absurd rfl hunit
  | arithmetic o => rw [ho] at haccepts; exact (o.keeps haccepts).bind fun _ => .pure _
  | decimal o => rw [ho] at haccepts; exact (o.keeps haccepts).bind fun _ => .pure _
  | logic o => rw [ho] at haccepts; exact (o.keeps haccepts).bind fun _ => .pure _
  | shiftRotate o => rw [ho] at haccepts; exact (o.keeps haccepts).bind fun _ => .pure _
  | bitByte o => rw [ho] at haccepts; exact (o.keeps haccepts).bind fun _ => .pure _
  | transfer o => rw [ho] at haccepts; exact (o.keeps ho haccepts).bind fun _ => .pure _
  | string o =>
    have htouch : o = .ins ∨ o = .outs → i.touches .ports = true := by
      rintro (rfl | rfl) <;> rw [touches, ho]
    exact (Keeps.modify fun s => o.frame_perform htouch i s).bind fun _ => .pure _
  | port o =>
    have htouch : i.touches .ports = true := by rw [touches, ho]
    rw [ho] at haccepts
    exact (o.keeps htouch haccepts).bind fun _ => .pure _
  | flag o => exact (Keeps.modifyCpu fun s => o.frame_apply ho s).bind fun _ => .pure _
  | system o => rw [ho] at haccepts; exact o.keeps ho haccepts

end Ia32
