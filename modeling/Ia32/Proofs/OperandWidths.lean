/-
  Operands are as wide as the operand size allows.

  Multiplications and divisions work on as many bits of the accumulator as their operands have.
  Where operands are words, none of these has 32, as long as the disassembler gives them the sizes
  of the instruction set reference.

  Main definitions:
  - `Operation.isProduct`, `Mnemonic.isProduct` : a multiplication or a division
  - `RawOperand.count` : the number of bytes of an operand
  - `Disassembler.KeepsSizes` : operands of products are bytes, or have the operand size

  Main statements:
  - `RawOperand.width_of_convert?` : sizes and widths
  - `Instruction.width_of_decodeBy` : the operands of products, as they are decoded
-/
import Ia32.Proofs.LegacyBytes
import Ia32.Proofs.OperandKinds

namespace Ia32

/-- A multiplication or a division. -/
def Operation.isProduct : Operation → Bool
  | .arithmetic .mul | .arithmetic .imul | .arithmetic .div | .arithmetic .idiv => true
  | _ => false

def Mnemonic.isProduct : Mnemonic → Bool
  | mul | imul | div | idiv => true
  | _ => false

theorem Mnemonic.isProduct_of_operation? {m : Mnemonic} {far string : Bool} {o : Operation}
    (h : m.operation? far string = some o) (ho : o.isProduct = true) : m.isProduct = true := by
  cases m with
  | mul | imul | div | idiv => rfl
  | movsb | movsw | movsd | cmpsb | cmpsw | cmpsd =>
    cases string <;> cases h
    cases ho
  | _ => cases h <;> cases ho

/-! ## Sizes of operands -/

/-- The number of bytes of a register. -/
def RegisterName.count : RegisterName → Nat
  | al | cl | dl | bl | ah | ch | dh | bh => 1
  | ax | cx | dx | bx | sp | bp | si | di => 2
  | es | cs | ss | ds | fs | gs => 2
  | absent | other => 0
  | _ => 4

/-- The number of bytes of an operand.  Elements of strings leave it open. -/
def RawOperand.count : RawOperand → Nat
  | register r => r.count
  | immediate8 _ | second8 _ => 1
  | immediate16 _ | extended16 _ | near16 _ => 2
  | immediate32 _ | extended32 _ | near32 _ => 4
  | far16 _ _ => 4
  | far32 _ _ => 6
  | memory p => p.size.count
  | source _ | destination _ | other => 0

@[simp] theorem RawOperand.count_relocate (a : UInt32) (x : RawOperand) :
    (x.relocate a).count = x.count := by
  cases x <;> rfl

/-- **Operands of products** are bytes, or have the size that the legacy bytes ask for. -/
def Disassembler.KeepsSizes (d : Disassembler) : Prop :=
  ∀ wide bs ip r n, d wide bs ip = .ok (r, n) → r.mnemonic.isProduct = true →
    ∀ x ∈ r.operands, x.count = 1 ∨
      x.count = (Sizes.ofPrefixes wide (.ofBytes (PrefixSet.leading bs))).operand.bytes

theorem RegisterName.count_of_ref? {r : RegisterName} {q : RegisterRef} (h : r.ref? = some q) :
    q.width.bytes = r.count := by
  cases r with
  | absent | other => cases h
  | cr n | dr n =>
    rw [ref?] at h
    split_ifs at h
    cases h
    rfl
  | _ => cases h; rfl

namespace RawOperand

variable {segment : Option SegmentName} {w : Width}

/-- What is as long as a word or shorter becomes no doubleword. -/
theorem width_of_convert? {x : RawOperand} {ys : List Operand}
    (h : x.convert? segment .word = some ys) (hx : x.count = 1 ∨ x.count = 2) :
    ∀ y ∈ ys, y.width ≠ .dword := by
  cases x with
  | register r =>
    obtain ⟨q, hq, hys⟩ := Option.bind_eq_some_iff.1 h
    cases hys
    intro y hy hdword
    cases List.mem_singleton.1 hy
    have hcount := RegisterName.count_of_ref? hq
    rw [Operand.width] at hdword
    rw [count, ← hcount, hdword] at hx
    exact absurd hx (by decide)
  | memory p =>
    obtain ⟨m, -, hys⟩ := Option.bind_eq_some_iff.1 h
    cases hys
    have hp : p.size.count = 1 ∨ p.size.count = 2 := hx
    rcases hp with hp | hp <;> simp [Operand.width, Width.ofBytes?, hp]
  | near32 _ | immediate32 _ | extended32 _ | far16 _ _ | far32 _ _ =>
    exact absurd hx (by rw [count]; decide)
  | source a | destination a | other => cases h
  | _ => cases h; simp [Operand.width]

theorem width_of_convertAll? {xs : List RawOperand} {ys : List Operand}
    (h : convertAll? segment .word xs = some ys) (hxs : ∀ x ∈ xs, x.count = 1 ∨ x.count = 2) :
    ∀ y ∈ ys, y.width ≠ .dword := by
  induction xs generalizing ys with
  | nil =>
    cases h
    exact List.forall_mem_nil _
  | cons x xs ih =>
    obtain ⟨a, ha, h⟩ := Option.bind_eq_some_iff.1 h
    obtain ⟨b, hb, hys⟩ := Option.bind_eq_some_iff.1 h
    cases hys
    rw [List.forall_mem_cons] at hxs
    intro y hy
    rcases List.mem_append.1 hy with hy | hy
    · exact width_of_convert? ha hxs.1 y hy
    · exact ih hb hxs.2 y hy

end RawOperand

namespace Instruction

variable {d : Disassembler} {bs : List UInt8} {wide : Bool} {ip : UInt32} {i : Instruction}

/-- **No doublewords are multiplied or divided** by an instruction whose operands are words. -/
theorem width_of_decodeBy (hd : d.KeepsSizes) (h : decodeBy d bs wide ip = .ok i)
    (hw : i.operandWidth = .word) (hp : i.operation.isProduct = true) :
    ∀ x ∈ i.operands, x.width ≠ .dword := by
  obtain ⟨p, rest, r, n, hscan, hr, -, hi⟩ := decodeBy_eq_ok.1 h
  have hbecomes := RawInstruction.becomes_of_convert? hi
  have hmnemonic := Mnemonic.isProduct_of_operation? hbecomes.operation hp
  have hsize : (Sizes.ofPrefixes wide (.ofBytes (PrefixSet.leading bs))).operand = .word := by
    rw [← (PrefixSet.scan_eq_ok.1 hscan).2.2.1, ← hbecomes.operandWidth, hw]
  have hcounts := hd _ _ _ _ _ hr hmnemonic
  rw [PrefixSet.leading_take (n := maxInstructionLength) (PrefixSet.scan_eq_ok.1 hscan).1,
    hsize] at hcounts
  obtain ⟨himplied, -⟩ | ⟨-, ys, hys, htake⟩ :=
    RawInstruction.operands_of_operands? hbecomes.operands
  · cases ho : i.operation <;> rw [ho] at hp himplied <;> first | cases hp | cases himplied
  · rw [hw] at hys
    intro x hx
    rw [htake] at hx
    exact RawOperand.width_of_convertAll? hys hcounts x (List.mem_of_mem_take hx)

end Instruction

end Ia32
