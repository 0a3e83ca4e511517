/-
  Sums and differences within a width, and what the flags say about them.

  Main definitions:
  - `Width.unsigned` : the low end of a word as a number
  - `Width.InUnsignedRange`, `Width.InSignedRange` : the numbers that a low end can stand for
  - `Alu.Exact` : a result and its flags tell the whole truth about an exact result

  Main statements:
  - `Alu.toNat_add`, `Alu.toNat_sub` : results are residues
  - `Alu.exact_add`, `Alu.exact_sub` : so are the flags those of the exact sum and difference
  - `Alu.arithmetic_exact` : the same of `inc`, `dec` and `neg`
-/
import Ia32.Alu.Sum
import Mathlib.Algebra.Group.Nat.Even
import Mathlib.Data.Nat.Bitwise
import Mathlib.Tactic.Common

namespace Ia32

/-! ## Numbers of a width -/

/-- A masked word as one bit. -/
theorem and_bit_ne_zero (x : UInt32) {m : UInt32} {k : Nat} (hm : m.toNat = 2 ^ k) :
    (x &&& m != 0) = x.toNat.testBit k := by
  rw [Bool.eq_iff_iff, bne_iff_ne, ne_eq, ← UInt32.toNat_inj, UInt32.toNat_and, hm,
    UInt32.toNat_zero, Nat.and_two_pow]
  cases x.toNat.testBit k <;> simp

/-- The exclusive or of three bits is the parity of their sum. -/
theorem xor_bit_four (x y z : UInt32) : ((x ^^^ y ^^^ z) &&& 0x10 != 0) = true ↔
    (x.toNat / 16 + y.toNat / 16 + z.toNat / 16) % 2 = 1 := by
  have hparity (m n : Nat) : (decide (m % 2 = 1) ^^ decide (n % 2 = 1)) = decide ((m + n) % 2 = 1) := by
    rcases Nat.mod_two_eq_zero_or_one m with hm | hm <;>
      rcases Nat.mod_two_eq_zero_or_one n with hn | hn <;> simp [Nat.add_mod, hm, hn]
  rw [and_bit_ne_zero (k := 4) _ rfl, UInt32.toNat_xor, UInt32.toNat_xor, Nat.testBit_xor,
    Nat.testBit_xor, Nat.testBit_eq_decide_div_mod_eq, Nat.testBit_eq_decide_div_mod_eq,
    Nat.testBit_eq_decide_div_mod_eq, hparity, hparity, decide_eq_true_iff]

namespace Width

/-- The low end of `x` as a number. -/
def unsigned (w : Width) (x : UInt32) : Nat := (w.truncate x).toNat

/-- The numbers that a low end can stand for. -/
def InUnsignedRange (w : Width) (i : Int) : Prop := 0 ≤ i ∧ i < w.modulus

/-- Half the number of values; the top bit alone stands for this. -/
def half (w : Width) : Nat := 2 ^ (w.bits - 1)

/-- The numbers that a low end can stand for in two's complement. -/
def InSignedRange (w : Width) (i : Int) : Prop := -w.half ≤ i ∧ i < w.half

instance (w : Width) (i : Int) : Decidable (w.InUnsignedRange i) :=
  inferInstanceAs (Decidable (_ ∧ _))

instance (w : Width) (i : Int) : Decidable (w.InSignedRange i) :=
  inferInstanceAs (Decidable (_ ∧ _))

theorem modulus_eq (w : Width) : w.modulus = 2 ^ w.bits := by cases w <;> rfl

theorem modulus_eq_half (w : Width) : w.modulus = 2 * w.half := by cases w <;> rfl

theorem unsigned_eq (w : Width) (x : UInt32) : w.unsigned x = x.toNat % w.modulus :=
  w.toNat_truncate x

theorem unsigned_lt (w : Width) (x : UInt32) : w.unsigned x < w.modulus := by
  rw [unsigned_eq]
  exact Nat.mod_lt _ w.modulus_pos

theorem truncate_eq_self {w : Width} {x : UInt32} (h : x.toNat < w.modulus) : w.truncate x = x := by
  rw [← UInt32.toNat_inj, toNat_truncate, Nat.mod_eq_of_lt h]

theorem sign_eq_testBit (w : Width) (x : UInt32) : w.sign x = x.toNat.testBit (w.bits - 1) :=
  and_bit_ne_zero x (by cases w <;> rfl)

theorem sign_and (w : Width) (x y : UInt32) : w.sign (x &&& y) = (w.sign x && w.sign y) := by
  rw [sign_eq_testBit, sign_eq_testBit, sign_eq_testBit, UInt32.toNat_and, Nat.testBit_and]

theorem sign_xor (w : Width) (x y : UInt32) : w.sign (x ^^^ y) = (w.sign x ^^ w.sign y) := by
  rw [sign_eq_testBit, sign_eq_testBit, sign_eq_testBit, UInt32.toNat_xor, Nat.testBit_xor]

/-- The top bit tells the upper half of the numbers from the lower one. -/
theorem sign_eq (w : Width) (x : UInt32) : w.sign x = decide (w.half ≤ w.unsigned x) := by
  rw [sign_eq_testBit, Nat.testBit_eq_decide_div_mod_eq, unsigned_eq, decide_eq_decide]
  cases w <;> simp only [modulus, half, bits] <;> omega

theorem unsigned_truncate (w : Width) (x : UInt32) : w.unsigned (w.truncate x) = w.unsigned x := by
  rw [unsigned, truncate_truncate, unsigned]

theorem sign_truncate (w : Width) (x : UInt32) : w.sign (w.truncate x) = w.sign x := by
  rw [sign_eq, sign_eq, unsigned_truncate]

theorem signed_eq (w : Width) (x : UInt32) :
    w.signed x = if w.half ≤ w.unsigned x then (w.unsigned x : Int) - w.modulus
      else w.unsigned x := by
  simp only [signed, sign_eq, decide_eq_true_eq]
  rfl

theorem signed_neg_iff (w : Width) (x : UInt32) : w.signed x < 0 ↔ w.sign x = true := by
  have hlt := w.unsigned_lt x
  rw [signed_eq, sign_eq, decide_eq_true_iff]
  split_ifs with h
  · exact iff_of_true (by omega) h
  · exact iff_of_false (by omega) h

/-- Words have the same low end if it stands for the same number. -/
theorem signed_inj {w : Width} {x y : UInt32} :
    w.signed x = w.signed y ↔ w.truncate x = w.truncate y := by
  have hx := w.unsigned_lt x
  have hy := w.unsigned_lt y
  rw [← UInt32.toNat_inj, signed_eq, signed_eq, modulus_eq_half]
  change _ ↔ w.unsigned x = w.unsigned y
  rw [modulus_eq_half] at hx hy
  split_ifs <;> omega

theorem inSignedRange_signed (w : Width) (x : UInt32) : w.InSignedRange (w.signed x) := by
  have hlt := w.unsigned_lt x
  rw [InSignedRange, signed_eq]
  rw [modulus_eq_half] at *
  split_ifs <;> omega

/-- The low end is the residue of the number with a sign, too. -/
theorem signed_emod (w : Width) (x : UInt32) : w.signed x % w.modulus = w.unsigned x := by
  have hlt := w.unsigned_lt x
  rw [signed_eq]
  split_ifs
  · rw [← Int.add_emod_right, Int.sub_add_cancel]
    exact Int.emod_eq_of_lt (by omega) (by omega)
  · exact Int.emod_eq_of_lt (by omega) (by omega)

/-- A number within the range is what its residue stands for. -/
theorem signed_eq_of_emod {w : Width} {x : UInt32} {i : Int} (hi : w.InSignedRange i)
    (hx : (w.unsigned x : Int) = i % w.modulus) : w.signed x = i := by
  obtain ⟨hlow, hhigh⟩ := hi
  rw [signed_eq]
  rw [modulus_eq_half] at *
  push_cast at hx
  rcases Int.lt_or_le i 0 with hneg | hpos
  · rw [← Int.add_emod_right, Int.emod_eq_of_lt (by omega) (by omega)] at hx
    split_ifs <;> omega
  · rw [Int.emod_eq_of_lt hpos (by omega)] at hx
    split_ifs <;> omega

end Width

/-- The parity flag is set for an even number of ones. -/
theorem evenParity_iff (b : UInt8) : evenParity b = true ↔ Even b.toBitVec.cpop.toNat := by
  have hall : ∀ x : BitVec 8, evenParity ⟨x⟩ = decide (x.cpop.toNat % 2 = 0) := by decide
  rw [show b = ⟨b.toBitVec⟩ from rfl, hall, decide_eq_true_iff, Nat.even_iff]

namespace Alu

variable {f : Flags} {w : Width}

/-- The result and the flags of an operation whose exact result is `u` for operands without a sign,
`v` for operands with a sign and `d` for their low digits. -/
structure Exact (w : Width) (f : Flags) (u v d : Int) (p : UInt32 × Flags) : Prop where
  result : (p.1.toNat : Int) = u % w.modulus
  carry : p.2.carry = true ↔ ¬ w.InUnsignedRange u
  overflow : p.2.overflow = true ↔ ¬ w.InSignedRange v
  adjust : p.2.adjust = true ↔ ¬ (0 ≤ d ∧ d < 16)
  zero : p.2.zero = true ↔ p.1 = 0
  sign : p.2.sign = true ↔ w.signed p.1 < 0
  parity : p.2.parity = true ↔ Even p.1.toUInt8.toBitVec.cpop.toNat
  others : p.2 = { f with
    carry := p.2.carry
    parity := p.2.parity
    adjust := p.2.adjust
    zero := p.2.zero
    sign := p.2.sign
    overflow := p.2.overflow }

/-! ## Sums -/

theorem toNat_toUInt64 (c : Bool) : c.toUInt64.toNat = c.toNat := by cases c <;> rfl

/-- The sum is exact before it is cut to the width. -/
theorem toNat_sum (w : Width) (a b : UInt32) (c : Bool) :
    ((w.truncate a).toUInt64 + (w.truncate b).toUInt64 + c.toUInt64).toNat =
      w.unsigned a + w.unsigned b + c.toNat := by
  have ha := (w.truncate a).toNat_lt
  have hb := (w.truncate b).toNat_lt
  have hc := c.toNat_le
  simp only [UInt64.toNat_add, UInt32.toNat_toUInt64, toNat_toUInt64, Width.unsigned]
  omega

theorem toNat_subtrahend (w : Width) (b : UInt32) (c : Bool) :
    ((w.truncate b).toUInt64 + c.toUInt64).toNat = w.unsigned b + c.toNat := by
  have hb := (w.truncate b).toNat_lt
  have hc := c.toNat_le
  simp only [UInt64.toNat_add, UInt32.toNat_toUInt64, toNat_toUInt64, Width.unsigned]
  omega

theorem toNat_add (f : Flags) (w : Width) (a b : UInt32) (c : Bool) :
    (add f w a b c).1.toNat = (w.unsigned a + w.unsigned b + c.toNat) % w.modulus := by
  change (w.truncate (UInt64.toUInt32 _)).toNat = _
  rw [Width.toNat_truncate, UInt64.toNat_toUInt32, toNat_sum]
  exact Nat.mod_mod_of_dvd _ (by cases w <;> decide)

theorem carry_add (f : Flags) (w : Width) (a b : UInt32) (c : Bool) :
    (add f w a b c).2.carry = true ↔ w.modulus ≤ w.unsigned a + w.unsigned b + c.toNat := by
  change decide (w.mask.toUInt64 < _) = true ↔ _
  rw [decide_eq_true_iff, UInt64.lt_iff_toNat_lt, toNat_sum, UInt32.toNat_toUInt64,
    Width.mask_toNat]
  have hpos := w.unsigned_lt a
  omega

theorem unsigned_add (f : Flags) (w : Width) (a b : UInt32) (c : Bool) :
    w.unsigned (add f w a b c).1 = (add f w a b c).1.toNat := w.unsigned_truncate _

/-- Nothing is lost: what does not fit is in the carry flag. -/
theorem add_equation (f : Flags) (w : Width) (a b : UInt32) (c : Bool) :
    (add f w a b c).1.toNat + w.modulus * (add f w a b c).2.carry.toNat =
      w.unsigned a + w.unsigned b + c.toNat := by
  have ha := w.unsigned_lt a
  have hb := w.unsigned_lt b
  have hc := c.toNat_le
  rw [toNat_add]
  by_cases h : w.modulus ≤ w.unsigned a + w.unsigned b + c.toNat
  · rw [(carry_add f w a b c).2 h, Nat.mod_eq_sub_mod h, Nat.mod_eq_of_lt (by omega)]
    simp only [Bool.toNat_true]
    omega
  · rw [Bool.eq_false_iff.2 (mt (carry_add f w a b c).1 h), Nat.mod_eq_of_lt (by omega)]
    simp

/-- A carry into bit 4 is what that bit of the result has beyond those of the operands. -/
theorem adjust_add (f : Flags) (w : Width) (a b : UInt32) (c : Bool) :
    (add f w a b c).2.adjust = true ↔ 16 ≤ w.unsigned a % 16 + w.unsigned b % 16 + c.toNat := by
  change ((w.truncate a ^^^ w.truncate b ^^^ (add f w a b c).1) &&& 0x10 != 0) = true ↔ _
  rw [xor_bit_four, toNat_add]
  change (w.unsigned a / 16 + w.unsigned b / 16 + _) % 2 = 1 ↔ _
  have hc := c.toNat_le
  generalize w.unsigned a = x at *
  generalize w.unsigned b = y at *
  cases w <;> simp only [Width.modulus] <;> omega

theorem overflow_add (f : Flags) (w : Width) (a b : UInt32) (c : Bool) :
    (add f w a b c).2.overflow = true ↔
      ¬ w.InSignedRange (w.signed a + w.signed b + c.toNat) := by
  have hequation := add_equation f w a b c
  have hflag : (add f w a b c).2.overflow =
      ((w.sign a ^^ w.sign (add f w a b c).1) && (w.sign b ^^ w.sign (add f w a b c).1)) := by
    change w.sign ((w.truncate a ^^^ (add f w a b c).1) &&& (w.truncate b ^^^ (add f w a b c).1)) = _
    rw [Width.sign_and, Width.sign_xor, Width.sign_xor, Width.sign_truncate, Width.sign_truncate]
  have hc := c.toNat_le
  have ha := w.unsigned_lt a
  have hb := w.unsigned_lt b
  have hr := w.unsigned_lt (add f w a b c).1
  rw [← unsigned_add] at hequation
  rw [hflag, Bool.and_eq_true, Bool.xor_iff_ne, Bool.xor_iff_ne, Width.sign_eq, Width.sign_eq,
    Width.sign_eq, Width.InSignedRange, Width.signed_eq, Width.signed_eq]
  simp only [ne_eq, decide_eq_decide]
  rw [Width.modulus_eq_half] at *
  -- the exact sum is known from the result and the carry, so that the three signs decide
  generalize (add f w a b c).2.carry = d at hequation
  cases d <;> simp only [Bool.toNat_true, Bool.toNat_false] at hequation <;> split_ifs <;> omega

-- the carry alone takes a sum out of either range
example : (add {} .byte 0x1FF 0 true).2.carry = true ∧
    (add {} .byte 0x7F 0x100 true).2.overflow = true := by decide

/-! ## Differences -/

theorem carry_sub (f : Flags) (w : Width) (a b : UInt32) (c : Bool) :
    (sub f w a b c).2.carry = true ↔ w.unsigned a < w.unsigned b + c.toNat := by
  change decide ((w.truncate a).toUInt64 < _) = true ↔ _
  rw [decide_eq_true_iff, UInt64.lt_iff_toNat_lt, toNat_subtrahend, UInt32.toNat_toUInt64]
  rfl

/-- The difference makes up for what is subtracted. -/
theorem sub_equation (f : Flags) (w : Width) (a b : UInt32) (c : Bool) :
    (sub f w a b c).1.toNat + w.unsigned b + c.toNat =
      w.unsigned a + w.modulus * (sub f w a b c).2.carry.toNat := by
  have hresult : (sub f w a b c).1.toNat =
      (2 ^ 32 - (w.unsigned b + c.toNat) % 2 ^ 32 + w.unsigned a) % 2 ^ 32 % w.modulus := by
    change (w.truncate (UInt64.toUInt32 _)).toNat = _
    rw [Width.toNat_truncate, UInt64.toUInt32_sub, UInt32.toNat_sub, UInt64.toNat_toUInt32,
      toNat_subtrahend, UInt32.toUInt32_toUInt64]
    rfl
  have ha := w.unsigned_lt a
  have hb := w.unsigned_lt b
  have hc := c.toNat_le
  have hcarry := carry_sub f w a b c
  rw [hresult]
  generalize (sub f w a b c).2.carry = d at *
  cases d with
  | true =>
    have hlt := hcarry.1 rfl
    cases w <;> simp only [Width.modulus, Bool.toNat_true] at * <;> omega
  | false =>
    have hle := mt hcarry.2 Bool.false_ne_true
    cases w <;> simp only [Width.modulus, Bool.toNat_false] at * <;> omega

theorem unsigned_sub (f : Flags) (w : Width) (a b : UInt32) (c : Bool) :
    w.unsigned (sub f w a b c).1 = (sub f w a b c).1.toNat := w.unsigned_truncate _

theorem toNat_sub (f : Flags) (w : Width) (a b : UInt32) (c : Bool) :
    ((sub f w a b c).1.toNat : Int) = (w.unsigned a - w.unsigned b - c.toNat) % w.modulus := by
  have hequation := sub_equation f w a b c
  have hr : (sub f w a b c).1.toNat < w.modulus := w.unsigned_lt _
  have hunique := Int.ediv_emod_unique (a := w.unsigned a - w.unsigned b - c.toNat)
    (r := (sub f w a b c).1.toNat) (q := -(sub f w a b c).2.carry.toNat) (b := w.modulus) (by omega)
  refine (hunique.2 ⟨?_, by omega, by omega⟩).2.symm
  push_cast [← Int.natCast_inj] at hequation
  rw [Int.mul_neg]
  omega

theorem adjust_sub (f : Flags) (w : Width) (a b : UInt32) (c : Bool) :
    (sub f w a b c).2.adjust = true ↔ w.unsigned a % 16 < w.unsigned b % 16 + c.toNat := by
  change ((w.truncate a ^^^ w.truncate b ^^^ (sub f w a b c).1) &&& 0x10 != 0) = true ↔ _
  rw [xor_bit_four]
  change (w.unsigned a / 16 + w.unsigned b / 16 + _) % 2 = 1 ↔ _
  have hequation := sub_equation f w a b c
  have hr : (sub f w a b c).1.toNat < w.modulus := w.unsigned_lt _
  have ha := w.unsigned_lt a
  have hb := w.unsigned_lt b
  have hc := c.toNat_le
  generalize (sub f w a b c).1.toNat = r at *
  generalize (sub f w a b c).2.carry = d at *
  have hd := d.toNat_le
  generalize w.unsigned a = x at *
  generalize w.unsigned b = y at *
  cases w <;> simp only [Width.modulus] at * <;> omega

theorem overflow_sub (f : Flags) (w : Width) (a b : UInt32) (c : Bool) :
    (sub f w a b c).2.overflow = true ↔
      ¬ w.InSignedRange (w.signed a - w.signed b - c.toNat) := by
  have hequation := sub_equation f w a b c
  have hflag : (sub f w a b c).2.overflow =
      ((w.sign a ^^ w.sign b) && (w.sign a ^^ w.sign (sub f w a b c).1)) := by
    change w.sign ((w.truncate a ^^^ w.truncate b) &&& (w.truncate a ^^^ (sub f w a b c).1)) = _
    rw [Width.sign_and, Width.sign_xor, Width.sign_xor, Width.sign_truncate, Width.sign_truncate]
  have hc := c.toNat_le
  have ha := w.unsigned_lt a
  have hb := w.unsigned_lt b
  have hr := w.unsigned_lt (sub f w a b c).1
  rw [← unsigned_sub] at hequation
  rw [hflag, Bool.and_eq_true, Bool.xor_iff_ne, Bool.xor_iff_ne, Width.sign_eq, Width.sign_eq,
    Width.sign_eq, Width.InSignedRange, Width.signed_eq, Width.signed_eq]
  simp only [ne_eq, decide_eq_decide]
  rw [Width.modulus_eq_half] at *
  generalize (sub f w a b c).2.carry = d at hequation
  cases d <;> simp only [Bool.toNat_true, Bool.toNat_false] at hequation <;> split_ifs <;> omega

/-! ## Exact results -/

/-- The flags of a result within the width. -/
theorem Exact.of_result {u v d : Int} {r : UInt32} {carry overflow adjust : Bool}
    (hlt : r.toNat < w.modulus) (hr : (r.toNat : Int) = u % w.modulus)
    (hcarry : carry = true ↔ ¬ w.InUnsignedRange u)
    (hoverflow : overflow = true ↔ ¬ w.InSignedRange v)
    (hadjust : adjust = true ↔ ¬ (0 ≤ d ∧ d < 16)) :
    Exact w f u v d
      (r, { f.ofResult w r with carry := carry, overflow := overflow, adjust := adjust }) where
  result := hr
  carry := hcarry
  overflow := hoverflow
  adjust := hadjust
  zero := by
    change (w.truncate r == 0) = true ↔ r = 0
    rw [Width.truncate_eq_self hlt, beq_iff_eq]
  sign := (w.signed_neg_iff r).symm
  parity := evenParity_iff r.toUInt8
  others := rfl

theorem exact_add (f : Flags) (w : Width) (a b : UInt32) (c : Bool) :
    Exact w f (w.unsigned a + w.unsigned b + c.toNat) (w.signed a + w.signed b + c.toNat)
      (w.unsigned a % 16 + w.unsigned b % 16 + c.toNat) (add f w a b c) := by
  have hresult := toNat_add f w a b c
  have hcarry := carry_add f w a b c
  have hadjust := adjust_add f w a b c
  refine Exact.of_result (w.unsigned_lt _) ?_ ?_ (overflow_add f w a b c) ?_
  · exact_mod_cast hresult
  · exact hcarry.trans (by unfold Width.InUnsignedRange; omega)
  · exact hadjust.trans (by omega)

theorem exact_sub (f : Flags) (w : Width) (a b : UInt32) (c : Bool) :
    Exact w f (w.unsigned a - w.unsigned b - c.toNat) (w.signed a - w.signed b - c.toNat)
      (w.unsigned a % 16 - w.unsigned b % 16 - c.toNat) (sub f w a b c) := by
  have hresult := toNat_sub f w a b c
  have hcarry := carry_sub f w a b c
  have hadjust := adjust_sub f w a b c
  have ha := w.unsigned_lt a
  refine Exact.of_result (w.unsigned_lt _) hresult ?_ (overflow_sub f w a b c) ?_
  · exact hcarry.trans (by unfold Width.InUnsignedRange; omega)
  · exact hadjust.trans (by omega)

/-- A difference is zero if both sides are the same within the width. -/
theorem zero_sub (f : Flags) (w : Width) (x y : UInt32) :
    (sub f w x y false).2.zero = true ↔ w.truncate x = w.truncate y := by
  have hequation := sub_equation f w x y false
  have hx := w.unsigned_lt x
  have hr : (sub f w x y false).1.toNat < w.modulus := w.unsigned_lt _
  rw [(exact_sub f w x y false).zero, ← UInt32.toNat_inj, ← UInt32.toNat_inj]
  change _ = 0 ↔ w.unsigned x = w.unsigned y
  have hy := w.unsigned_lt y
  generalize (sub f w x y false).2.carry = d at hequation
  cases d <;> simp only [Bool.toNat_true, Bool.toNat_false] at hequation <;> omega

/-- Subtracting what was added gives back the low end, and borrows what was carried. -/
theorem sub_add (f g : Flags) (w : Width) (a b : UInt32) (c : Bool) :
    (sub g w (add f w a b c).1 b c).1 = w.truncate a ∧
      (sub g w (add f w a b c).1 b c).2.carry = (add f w a b c).2.carry := by
  have hadd := add_equation f w a b c
  have hsub := sub_equation g w (add f w a b c).1 b c
  have hr : (sub g w (add f w a b c).1 b c).1.toNat < w.modulus := w.unsigned_lt _
  have ha := w.unsigned_lt a
  rw [unsigned_add] at hsub
  generalize (add f w a b c).1 = s at *
  generalize (add f w a b c).2.carry = d at *
  rw [← UInt32.toNat_inj]
  change _ = w.unsigned a ∧ _
  generalize (sub g w s b c).2.carry = e at *
  -- both equations hold only where the borrow is the carry
  cases d <;> cases e <;>
    simp only [Bool.toNat_true, Bool.toNat_false, and_true, and_false, reduceCtorEq] at * <;> omega

/-- **Sums and differences are exact**, and so are their flags. -/
theorem arithmetic_exact (f : Flags) (w : Width) (a b : UInt32) (c : Bool) :
    Exact w f (w.unsigned a + w.unsigned b + c.toNat) (w.signed a + w.signed b + c.toNat)
        (w.unsigned a % 16 + w.unsigned b % 16 + c.toNat) (add f w a b c) ∧
      Exact w f (w.unsigned a - w.unsigned b - c.toNat) (w.signed a - w.signed b - c.toNat)
        (w.unsigned a % 16 - w.unsigned b % 16 - c.toNat) (sub f w a b c) ∧
      inc f w a = ((add f w a 1 false).1, { (add f w a 1 false).2 with carry := f.carry }) ∧
      dec f w a = ((sub f w a 1 false).1, { (sub f w a 1 false).2 with carry := f.carry }) ∧
      (∀ g, (dec g w (inc f w a).1).1 = w.truncate a ∧ (dec g w (inc f w a).1).2.carry = g.carry) ∧
      neg f w a = sub f w 0 a false := by
  refine ⟨exact_add f w a b c, exact_sub f w a b c, rfl, rfl, fun g => ⟨?_, rfl⟩, ?_⟩
  · exact (sub_add f g w a 1 false).1
  · have hcarry : (w.truncate a != 0) = (sub f w 0 a false).2.carry := by
      rw [Bool.eq_iff_iff, carry_sub, bne_iff_ne, ne_eq, ← UInt32.toNat_inj, Width.unsigned_eq,
        Width.unsigned]
      simp [Nat.pos_iff_ne_zero]
    change ((sub f w 0 a false).1, { (sub f w 0 a false).2 with carry := w.truncate a != 0 }) = _
    rw [hcarry]

end Alu

end Ia32
