/-
  Access to the operands of an instruction, once they are known.

  Main definitions:
  - `Location.IsPlace` : a location that any value can be written to
  - `System.stored` : the system after such a write

  Main statements:
  - `Exec.operand_eq`, `Exec.readOperand_eq`, `Exec.memoryOperand_eq`, `Exec.readFarPointer_eq` :
    reading operands
  - `Exec.run_store`, `Exec.run_writeOperand`, `Exec.run_transform` : writing to places
  - `Exec.writeOperand_segment`, `Exec.writeOperand_control`, `Exec.writeOperand_debug` : writing to
    other registers
  - `Exec.popOperand_place`, `Exec.popOperand_register` : popping
-/
import Ia32.Execute.Bits
import Ia32.Execute.Transfer
import Ia32.Proofs.Computation
import Ia32.Proofs.Signature

namespace Ia32

theorem RegisterRef.file_of_segmentName? {r : RegisterRef} {n : SegmentName}
    (h : r.segmentName? = some n) : r.file = .segment := by
  by_contra hne
  rw [segmentName?, if_neg hne] at h
  cases h

/-- Replace a general register, given by reference. -/
def Cpu.setGeneral (c : Cpu) (r : RegisterRef) (v : UInt32) : Cpu :=
  match r.slot with
  | (g, true) => c.setHigh g v
  | (g, false) => c.setLow g r.width v

/-- Nothing but general registers changes. -/
theorem Cpu.setGeneral_eq (c : Cpu) (r : RegisterRef) (v : UInt32) :
    ∃ g, c.setGeneral r v = { c with gprs := g } := by
  unfold setGeneral
  rcases r.slot with ⟨g, _ | _⟩ <;> exact ⟨_, rfl⟩

theorem Cpu.writeRegister?_general (c : Cpu) {r : RegisterRef} (h : r.file = .general)
    (v : UInt32) : c.writeRegister? r v = some (c.setGeneral r v) := by
  unfold writeRegister? setGeneral
  rw [h]
  rcases r.slot with ⟨g, _ | _⟩ <;> rfl

/-- A general register or a place in memory: any value can be written there. -/
def Location.IsPlace : Location → Prop
  | register r => r.file = .general
  | memory _ _ => True
  | immediate _ => False

theorem Cpu.isPlace_locate (c : Cpu) (a : AddressSize) {x : Operand}
    (h : OperandTest.place x.class = true) : (c.locate a x).IsPlace := by
  rcases Bool.or_eq_true_iff.1 h with h | h
  · obtain ⟨r, rfl, hr⟩ := Operand.register_of_general (beq_iff_eq.1 h)
    exact hr
  · obtain ⟨m, w, rfl⟩ := Operand.memory_of_class (beq_iff_eq.1 h)
    trivial

/-- The system after the low end of `v` has been written to a place. -/
def System.stored {δ : Type} (s : System δ) (w : Width) (v : UInt32) : Location → System δ
  | .register r => s.modifyCpu (·.setGeneral r v)
  | .memory n offset => s.write n offset w v
  | .immediate _ => s

namespace Instruction

variable {i : Instruction} {x y z : Operand} {xs : List Operand}

theorem operands_zero (h : i.operands = x :: xs) : i.operands[0]? = some x := by rw [h]; rfl

theorem operands_one (h : i.operands = x :: y :: xs) : i.operands[1]? = some y := by rw [h]; rfl

theorem operands_two (h : i.operands = x :: y :: z :: xs) : i.operands[2]? = some z := by
  rw [h]; rfl

end Instruction

theorem OperandTest.place_of_general {c : OperandClass} (h : general c = true) :
    place c = true := by
  rw [place, Bool.or_eq_true_iff]
  exact .inl h

namespace Exec

variable {δ : Type} {i : Instruction} {k : Nat} {x : Operand}

theorem run_store {l : Location} (h : l.IsPlace) (w : Width) (v : UInt32) (s : System δ) :
    (store w v l).run s = .ok () (s.stored w v l) := by
  cases l with
  | register r =>
    have hr : r.file = .general := h
    rw [store, storeRegister]
    split
    · rename_i hs
      rw [hr] at hs
      cases hs
    · rw [run_gets_bind, s.cpu.writeRegister?_general hr]
      rfl
  | memory n offset => rfl
  | immediate v => exact h.elim

/-! ## Reading -/

theorem operand_eq (h : i.operands[k]? = some x) : (operand i k : Exec δ Operand) = pure x := by
  rw [operand, h]

theorem readOperand_eq (h : i.operands[k]? = some x) :
    (readOperand i k : Exec δ UInt32) = gets (·.value i.addressSize x) := by
  rw [readOperand, operand_eq h]
  rfl

theorem memoryOperand_eq {m : MemoryOperand} {w : Width}
    (h : i.operands[k]? = some (.memory m w)) :
    (memoryOperand i k : Exec δ (SegmentName × UInt32)) =
      gets fun s => (m.segment, s.cpu.effectiveOffset i.addressSize m) := by
  rw [memoryOperand, operand_eq h]
  rfl

/-- The far pointer at a place in memory. -/
def farPointerAt (i : Instruction) (m : MemoryOperand) (s : System δ) : UInt16 × UInt32 :=
  let offset := s.cpu.effectiveOffset i.addressSize m
  let w := i.operandWidth
  ((s.read m.segment (i.addressSize.wrap (offset + w.stride)) .word).toUInt16,
    s.read m.segment offset w)

theorem readFarPointer_eq {m : MemoryOperand} {w : Width}
    (h : i.operands[k]? = some (.memory m w)) :
    (readFarPointer i k : Exec δ (UInt16 × UInt32)) = gets (farPointerAt i m) := by
  rw [readFarPointer, memoryOperand_eq h]
  rfl

/-! ## Writing -/

theorem writeOperand_eq (h : i.operands[k]? = some x) (v : UInt32) :
    (writeOperand i k v : Exec δ Unit) =
      gets (·.cpu.locate i.addressSize x) >>= fun l => store x.width v l := by
  rw [writeOperand, operand_eq h]
  rfl

theorem run_writeOperand (h : i.operands[k]? = some x) (hx : OperandTest.place x.class = true)
    (v : UInt32) (s : System δ) :
    (writeOperand i k v).run s = .ok () (s.stored x.width v (s.cpu.locate i.addressSize x)) := by
  rw [writeOperand_eq h, run_gets_bind]
  exact run_store (s.cpu.isPlace_locate _ hx) _ _ _

theorem run_transform (h : i.operands[0]? = some x) (hx : OperandTest.place x.class = true)
    (f : Flags → Width → UInt32 → UInt32 × Flags) (s : System δ) :
    (transform i f).run s =
      let l := s.cpu.locate i.addressSize x
      let r := f s.cpu.flags x.width (s.load x.width l)
      .ok () ((s.modifyCpu fun c => { c with flags := r.2 }).stored x.width r.1 l) := by
  rw [transform, operand_eq h, run_pure_bind, run_get_bind]
  exact run_store (s.cpu.isPlace_locate _ hx) _ _ _

theorem run_examine (h : i.operands[0]? = some x)
    (f : Flags → Width → UInt32 → UInt32 × Flags) (s : System δ) :
    (examine i f).run s = .ok () (s.modifyCpu fun c =>
      { c with flags := (f c.flags x.width (s.value i.addressSize x)).2 }) := by
  rw [examine, operand_eq h, readOperand_eq h]
  rfl

theorem writeOperand_register {r : RegisterRef} (h : i.operands[k]? = some (.register r))
    (v : UInt32) : (writeOperand i k v : Exec δ Unit) = storeRegister r v := by
  rw [writeOperand_eq h]
  rfl

theorem storeRegister_segment {r : RegisterRef} {n : SegmentName} (hr : r.segmentName? = some n)
    (hn : n ≠ .cs) (v : UInt32) : (storeRegister r v : Exec δ Unit) = setSelector n v.toUInt16 := by
  rw [storeRegister, RegisterRef.file_of_segmentName? hr]
  dsimp only
  rw [hr]
  cases n
  case cs => exact absurd rfl hn
  all_goals rfl

theorem storeRegister_control {r : RegisterRef} (hr : OperandTest.control (.special r) = true)
    (v : UInt32) : ∃ h : r.index < 5, r.index ≠ 1 ∧ (storeRegister r v : Exec δ Unit) =
      modifyCpu fun c => { c with control := c.control.set r.index v } := by
  simp only [OperandTest.control, Bool.and_eq_true, beq_iff_eq, bne_iff_ne, decide_eq_true_eq]
    at hr
  obtain ⟨⟨hfile, hne⟩, hlt⟩ := hr
  refine ⟨hlt, hne, ?_⟩
  rw [storeRegister, hfile]
  funext s
  simp [Cpu.writeRegister?, hfile, hne, hlt]
  rfl

theorem storeRegister_debug {r : RegisterRef} (hr : OperandTest.debug (.special r) = true)
    (v : UInt32) : ∃ h : r.index < 8, (storeRegister r v : Exec δ Unit) =
      modifyCpu fun c => { c with debug := c.debug.set r.index v } := by
  simp only [OperandTest.debug, Bool.and_eq_true, beq_iff_eq, decide_eq_true_eq] at hr
  obtain ⟨hfile, hlt⟩ := hr
  refine ⟨hlt, ?_⟩
  rw [storeRegister, hfile]
  funext s
  simp [Cpu.writeRegister?, hfile, hlt]
  rfl

/-- The bit that is tested lies in a place if the first operand is one. -/
theorem run_locateBit {y : Operand} (hx : i.operands[0]? = some x) (hy : i.operands[1]? = some y)
    (h : OperandTest.place x.class = true) (s : System δ) :
    ∃ l n, (locateBit i).run s = .ok (l, n) s ∧ l.IsPlace := by
  rw [locateBit, operand_eq hx, operand_eq hy, readOperand_eq hy, run_pure_bind, run_pure_bind,
    run_gets_bind, run_gets_bind]
  have hl := s.cpu.isPlace_locate i.addressSize h
  cases hloc : s.cpu.locate i.addressSize x with
  | immediate v => rw [hloc] at hl; exact hl.elim
  | register r => rw [hloc] at hl; exact ⟨_, _, rfl, hl⟩
  | memory n offset =>
    cases y with
    | register r => exact ⟨_, _, rfl, trivial⟩
    | memory m w => exact ⟨_, _, rfl, trivial⟩
    | immediate v w => exact ⟨_, _, rfl, trivial⟩

/-- Writing to a segment register loads it. -/
theorem writeOperand_segment (h : i.operands[k]? = some x)
    (hx : OperandTest.segment x.class = true) (v : UInt32) : ∃ n ≠ SegmentName.cs,
      (writeOperand i k v : Exec δ Unit) = setSelector n v.toUInt16 := by
  obtain ⟨r, n, rfl, hr, hn⟩ := Operand.register_of_segment hx
  exact ⟨n, hn, (writeOperand_register h v).trans (storeRegister_segment hr hn v)⟩

/-- Control registers other than the second are written. -/
theorem writeOperand_control (h : i.operands[k]? = some x)
    (hx : OperandTest.control x.class = true) (v : UInt32) :
    ∃ (n : Nat) (hn : n < 5), n ≠ 1 ∧ (writeOperand i k v : Exec δ Unit) =
      modifyCpu fun c => { c with control := c.control.set n v } := by
  obtain ⟨r, rfl, hr⟩ := Operand.register_of_control hx
  obtain ⟨hlt, hne, e⟩ := storeRegister_control hr v
  exact ⟨r.index, hlt, hne, (writeOperand_register h v).trans e⟩

theorem writeOperand_debug (h : i.operands[k]? = some x)
    (hx : OperandTest.debug x.class = true) (v : UInt32) :
    ∃ (n : Nat) (hn : n < 8), (writeOperand i k v : Exec δ Unit) =
      modifyCpu fun c => { c with debug := c.debug.set n v } := by
  obtain ⟨r, rfl, hr⟩ := Operand.register_of_debug hx
  obtain ⟨hlt, e⟩ := storeRegister_debug hr v
  exact ⟨r.index, hlt, (writeOperand_register h v).trans e⟩

/-! ## Popping -/

theorem popOperand_place (h : i.operands[0]? = some x) (hx : OperandTest.place x.class = true) :
    (popOperand i : Exec δ Unit) = gets (·.peek 0 i.operandWidth) >>= fun v =>
      modifyCpu (·.adjustStack i.operandWidth.stride) >>= fun _ => writeOperand i 0 v := by
  rw [popOperand, operand_eq h]
  rcases Bool.or_eq_true_iff.1 hx with hc | hc
  · obtain ⟨⟨file, index, w⟩, rfl, rfl⟩ := Operand.register_of_general (beq_iff_eq.1 hc)
    rfl
  · obtain ⟨m, w, rfl⟩ := Operand.memory_of_class (beq_iff_eq.1 hc)
    rfl

/-- A segment register is loaded before the pointer moves. -/
theorem popOperand_register {r : RegisterRef} {n : SegmentName}
    (h : i.operands[0]? = some (.register r)) (hr : r.segmentName? = some n) (hn : n ≠ .cs) :
    (popOperand i : Exec δ Unit) = gets (·.peek 0 i.operandWidth) >>= fun v =>
      setSelector n v.toUInt16 >>= fun _ => modifyCpu (·.adjustStack i.operandWidth.stride) := by
  obtain ⟨file, index, w⟩ := r
  obtain rfl : file = .segment := RegisterRef.file_of_segmentName? hr
  have hstore (v : UInt32) : (storeRegister ⟨.segment, index, w⟩ v : Exec δ Unit) =
      setSelector n v.toUInt16 := storeRegister_segment hr hn v
  rw [popOperand, operand_eq h]
  simp only [← hstore]
  rfl

theorem popOperand_segment (h : i.operands[0]? = some x)
    (hx : OperandTest.segment x.class = true) : ∃ n ≠ SegmentName.cs,
    (popOperand i : Exec δ Unit) = gets (·.peek 0 i.operandWidth) >>= fun v =>
      setSelector n v.toUInt16 >>= fun _ => modifyCpu (·.adjustStack i.operandWidth.stride) := by
  obtain ⟨r, n, rfl, hr, hn⟩ := Operand.register_of_segment hx
  exact ⟨n, hn, popOperand_register h hr hn⟩

end Exec

end Ia32
