/-
  What conditional instructions learn from a comparison.

  Main definitions:
  - `Condition.Relates` : what a condition says of two numbers that have been compared
  - `Instruction.Compares` : the instruction compares two operands

  Main statements:
  - `Condition.holds_sub` : the flags of a difference answer every condition
  - `Exec.run_comparison` : so does the instruction
-/
import Ia32.Execute.Dispatch
import Ia32.Proofs.Operands
import Ia32.Proofs.Sums

namespace Ia32

/-! ## Signs of a difference -/

namespace Alu

/-- The result is the low end of the difference of the whole words. -/
theorem sub_eq_truncate (f : Flags) (w : Width) (a b : UInt32) :
    (sub f w a b false).1 = w.truncate (a - b) := by
  have hresult := toNat_sub f w a b false
  have ha := a.toNat_lt
  have hb := b.toNat_lt
  rw [Width.unsigned_eq, Width.unsigned_eq] at hresult
  rw [← UInt32.toNat_inj, Width.toNat_truncate, UInt32.toNat_sub]
  cases w <;> simp only [Width.modulus, Bool.toNat_false] at * <;> omega

/-- A difference has the wrong sign exactly if it leaves the range of numbers with a sign. -/
theorem sign_ne_overflow_sub (f : Flags) (w : Width) (a b : UInt32) :
    ((sub f w a b false).2.sign != (sub f w a b false).2.overflow) = true ↔
      w.signed a < w.signed b := by
  have hexact := exact_sub f w a b false
  have hequation := sub_equation f w a b false
  have ha := w.unsigned_lt a
  have hb := w.unsigned_lt b
  have hr := w.unsigned_lt (sub f w a b false).1
  rw [← unsigned_sub] at hequation
  rw [bne_iff_ne, ne_eq, Bool.eq_iff_iff, hexact.sign, hexact.overflow, Width.InSignedRange,
    Width.signed_eq, Width.signed_eq, Width.signed_eq]
  rw [Width.modulus_eq_half] at *
  generalize (sub f w a b false).2.carry = d at hequation
  cases d <;> simp only [Bool.toNat_true, Bool.toNat_false] at * <;> split_ifs <;> omega

end Alu

namespace Condition

/-- What the condition says of `a` and `b` after `a` has been compared with `b`. -/
def Relates (w : Width) (a b : UInt32) : Condition → Prop
  | overflow => ¬ w.InSignedRange (w.signed a - w.signed b)
  | notOverflow => w.InSignedRange (w.signed a - w.signed b)
  | below => w.unsigned a < w.unsigned b
  | aboveEqual => w.unsigned b ≤ w.unsigned a
  | equal => w.unsigned a = w.unsigned b
  | notEqual => w.unsigned a ≠ w.unsigned b
  | belowEqual => w.unsigned a ≤ w.unsigned b
  | above => w.unsigned b < w.unsigned a
  | sign => w.sign (w.truncate (a - b)) = true
  | notSign => w.sign (w.truncate (a - b)) = false
  | parity => Even (w.truncate (a - b)).toUInt8.toBitVec.cpop.toNat
  | notParity => ¬ Even (w.truncate (a - b)).toUInt8.toBitVec.cpop.toNat
  | less => w.signed a < w.signed b
  | greaterEqual => w.signed b ≤ w.signed a
  | lessEqual => w.signed a ≤ w.signed b
  | greater => w.signed b < w.signed a

instance (w : Width) (a b : UInt32) : (c : Condition) → Decidable (c.Relates w a b)
  | overflow | notEqual | notParity => instDecidableNot
  | notOverflow => inferInstanceAs (Decidable (w.InSignedRange _))
  | below | above => Nat.decLt _ _
  | aboveEqual | belowEqual => Nat.decLe _ _
  | equal => Nat.decEq _ _
  | sign | notSign => instDecidableEqBool _ _
  | parity => inferInstanceAs (Decidable (Even _))
  | less | greater => Int.decLt _ _
  | greaterEqual | lessEqual => Int.decLe _ _

variable (f : Flags) (w : Width) (a b : UInt32)

/-- The carry or the zero flag is set. -/
theorem belowEqual_sub : holds (Alu.sub f w a b false).2 belowEqual = true ↔
    w.unsigned a ≤ w.unsigned b := by
  rw [holds, Bool.or_eq_true, Alu.carry_sub, Alu.zero_sub, ← UInt32.toNat_inj]
  exact Nat.le_iff_lt_or_eq.symm

/-- The zero flag is set, or the sign is negative after all. -/
theorem lessEqual_sub : holds (Alu.sub f w a b false).2 lessEqual = true ↔
    w.signed a ≤ w.signed b := by
  rw [holds, Bool.or_eq_true, Alu.sign_ne_overflow_sub, Alu.zero_sub, ← Width.signed_inj, or_comm]
  exact Int.le_iff_lt_or_eq.symm

/-- The flags of a difference answer every condition. -/
theorem holds_sub (c : Condition) :
    c.holds (Alu.sub f w a b false).2 = true ↔ c.Relates w a b := by
  have hnot {x : Bool} {P : Prop} (h : x = true ↔ P) : (!x) = true ↔ ¬ P := by
    rw [Bool.not_eq_true', ← Bool.not_eq_true, h]
  have hbeq (x y : Bool) : (x == y) = !(x != y) := (Bool.not_not _).symm
  have hoverflow := Alu.overflow_sub f w a b false
  have hbelow := Alu.carry_sub f w a b false
  have hequal := Alu.zero_sub f w a b
  have hsign : (Alu.sub f w a b false).2.sign = w.sign (w.truncate (a - b)) :=
    congrArg w.sign (Alu.sub_eq_truncate f w a b)
  have hparity := (Alu.exact_sub f w a b false).parity
  have hless := Alu.sign_ne_overflow_sub f w a b
  rw [Bool.toNat_false, Int.natCast_zero, Int.sub_zero] at hoverflow
  rw [← UInt32.toNat_inj] at hequal
  rw [Alu.sub_eq_truncate] at hparity
  cases c with
  | overflow => exact hoverflow
  | notOverflow => exact (hnot hoverflow).trans not_not
  | below => exact hbelow
  | aboveEqual => exact (hnot hbelow).trans Nat.not_lt
  | equal => exact hequal
  | notEqual => exact hnot hequal
  | belowEqual => exact belowEqual_sub f w a b
  | above =>
    rw [holds, ← Bool.not_or]
    exact (hnot (belowEqual_sub f w a b)).trans Nat.not_le
  | sign => rw [holds, hsign, Relates]
  | notSign => rw [holds, hsign, Relates, Bool.not_eq_true']
  | parity => exact hparity
  | notParity => exact hnot hparity
  | less => exact hless
  | greaterEqual =>
    rw [holds, hbeq]
    exact (hnot hless).trans Int.not_lt
  | lessEqual => exact lessEqual_sub f w a b
  | greater =>
    rw [holds, hbeq, ← Bool.not_or]
    exact (hnot (lessEqual_sub f w a b)).trans Int.not_le

end Condition

/-! ## The instruction -/

/-- A comparison of operand `x` with operand `y`. -/
structure Instruction.Compares (i : Instruction) (x y : Operand) : Prop where
  operation : i.operation = .arithmetic .cmp
  unit : i.unit = .arithmetic
  operands : i.operands = [x, y]

namespace Exec

theorem run_perform_of_compares {δ : Type} {i : Instruction} {x y : Operand} (hi : i.Compares x y)
    (next : UInt32) (s : System δ) :
    (i.perform next).run s = .ok .next (s.modifyCpu fun c =>
      { c with flags := (Alu.sub c.flags x.width (s.value i.addressSize x)
        (s.value i.addressSize y) false).2 }) := by
  have hy : i.operands[1]? = some y := Instruction.operands_one hi.operands
  rw [Instruction.perform_arithmetic hi.unit hi.operation, ArithmeticOp.perform, bind_assoc,
    readOperand_eq hy, run_gets_bind]
  exact run_bind_of_ok (run_examine (Instruction.operands_zero hi.operands) _ s) _

/-- **Comparisons and conditions agree**: the flags of a difference answer each condition by the
relation of the operands.  These are the flags that a comparison leaves, and it does nothing else. -/
theorem run_comparison :
    (∀ (f : Flags) (w : Width) (a b : UInt32) (c : Condition),
      c.holds (Alu.sub f w a b false).2 = true ↔ c.Relates w a b) ∧
    ∀ (δ : Type) (i : Instruction) (x y : Operand), i.Compares x y →
      ∀ (next : UInt32) (s : System δ), ∃ f : Flags,
        (i.perform next).run s = .ok .next (s.modifyCpu fun c => { c with flags := f }) ∧
        ∀ c : Condition, c.holds f = true ↔
          c.Relates x.width (s.value i.addressSize x) (s.value i.addressSize y) :=
  ⟨Condition.holds_sub, fun _ _ _ _ hi next s =>
    ⟨_, run_perform_of_compares hi next s, Condition.holds_sub _ _ _ _⟩⟩

/-- A system in real mode whose AX is the least number with a sign, and whose BX is one. -/
def leastAndOne : System Unit where
  cpu := { Cpu.reset with gprs := { eax := 0xFFFF8000, ebx := 0xABCD0001 } }
  ram := Ram.zeroed 0x1000
  io := Io.init ()

/-- The difference of the least number and one overflows: it is less, though neither below nor
negative. -/
theorem run_comparison_leastAndOne :
    let x := Operand.register (.general 0 .word)
    let y := Operand.register (.general 3 .word)
    let i := Instruction.ofOperands (.arithmetic .cmp) [x, y] 2
    i.Compares x y ∧
      ∃ f : Flags,
        (i.perform 2).run leastAndOne = .ok .next (leastAndOne.modifyCpu fun c =>
          { c with flags := f }) ∧
        Condition.less.holds f = true ∧ Condition.overflow.holds f = true ∧
        ¬ Condition.below.holds f = true ∧ ¬ Condition.sign.holds f = true := by
  intro x y i
  have hi : i.Compares x y := ⟨rfl, rfl, rfl⟩
  obtain ⟨f, hrun, hf⟩ := run_comparison.2 Unit i x y hi 2 leastAndOne
  refine ⟨hi, f, hrun, (hf _).2 ?_, (hf _).2 ?_, mt (hf _).1 ?_, mt (hf _).1 ?_⟩
  · decide
  · decide
  · decide
  · decide

end Exec

end Ia32
