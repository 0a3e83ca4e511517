/-
  Operand widths.  A register word is 32 bits wide; a byte, word or doubleword operand is its
  low end, and every operation below reads only that low end of its argument.

  Main definitions:
  - `Width.mask`, `Width.truncate` : the low end of a word
  - `Width.modulus` : the number of values of a width
  - `Width.sign` : the top bit of the low end
  - `Width.signed`, `Width.signExtend` : the low end as a two's-complement number
  - `Width.ofInt` : the residue of an integer
  - `Width.merge` : replace the low end, keep the rest
-/

namespace Ia32

/-- The width of a data operand. -/
inductive Width
  | byte | word | dword
  deriving DecidableEq, Repr

namespace Width

def bits : Width → Nat
  | byte => 8 | word => 16 | dword => 32

def bytes : Width → Nat
  | byte => 1 | word => 2 | dword => 4

/-- The number of bytes as a register word, for offset arithmetic. -/
def stride : Width → UInt32
  | byte => 1 | word => 2 | dword => 4

/-- The number of values: the low end of a word is its residue modulo this. -/
def modulus : Width → Nat
  | byte => 0x100 | word => 0x10000 | dword => 0x100000000

def mask : Width → UInt32
  | byte => 0xFF | word => 0xFFFF | dword => 0xFFFFFFFF

/-- The word that holds the top bit alone. -/
def topBit : Width → UInt32
  | byte => 0x80 | word => 0x8000 | dword => 0x80000000

def ofBytes? : Nat → Option Width
  | 1 => some byte | 2 => some word | 4 => some dword | _ => none

/-- The low end of `x`. -/
def truncate (w : Width) (x : UInt32) : UInt32 := x &&& w.mask

/-- The top bit of the low end of `x`. -/
def sign (w : Width) (x : UInt32) : Bool := x &&& w.topBit != 0

/-- The low end of `x`, read as a two's-complement number. -/
def signed (w : Width) (x : UInt32) : Int :=
  if w.sign x then ((w.truncate x).toNat : Int) - w.modulus else (w.truncate x).toNat

/-- The residue of `i`. -/
def ofInt (w : Width) (i : Int) : UInt32 := UInt32.ofNat (i % w.modulus).toNat

/-- The low end of `x`, extended to a full word by copies of its top bit. -/
def signExtend (w : Width) (x : UInt32) : UInt32 :=
  if w.sign x then w.truncate x ||| ~~~w.mask else w.truncate x

/-- `old` with its low end replaced by that of `new`. -/
def merge (w : Width) (old new : UInt32) : UInt32 := (old &&& ~~~w.mask) ||| (new &&& w.mask)

theorem bits_pos (w : Width) : 0 < w.bits := by cases w <;> decide

theorem bits_le (w : Width) : w.bits ≤ 32 := by cases w <;> decide

theorem bits_eq_bytes (w : Width) : w.bits = 8 * w.bytes := by cases w <;> rfl

theorem stride_toNat (w : Width) : w.stride.toNat = w.bytes := by cases w <;> rfl

theorem modulus_pos (w : Width) : 0 < w.modulus := by cases w <;> decide

theorem modulus_le (w : Width) : w.modulus ≤ 0x100000000 := by cases w <;> decide

theorem mask_toNat (w : Width) : w.mask.toNat = w.modulus - 1 := by cases w <;> rfl

@[simp] theorem ofBytes?_bytes (w : Width) : ofBytes? w.bytes = some w := by cases w <;> rfl

/-- The low end is the residue modulo the number of values. -/
theorem toNat_truncate (w : Width) (x : UInt32) : (w.truncate x).toNat = x.toNat % w.modulus := by
  rw [truncate, UInt32.toNat_and, mask_toNat]
  cases w
  · exact Nat.and_two_pow_sub_one_eq_mod _ 8
  · exact Nat.and_two_pow_sub_one_eq_mod _ 16
  · exact Nat.and_two_pow_sub_one_eq_mod _ 32

theorem truncate_dword (x : UInt32) : truncate dword x = x := by
  apply UInt32.toNat_inj.1
  rw [toNat_truncate]
  exact Nat.mod_eq_of_lt x.toNat_lt

@[simp] theorem truncate_truncate (w : Width) (x : UInt32) :
    w.truncate (w.truncate x) = w.truncate x := by
  apply UInt32.toNat_inj.1
  simp [toNat_truncate]

/-- Only the low end of a summand counts for the low end of a sum. -/
theorem truncate_add (w : Width) (x y : UInt32) :
    w.truncate (w.truncate x + y) = w.truncate (x + y) := by
  apply UInt32.toNat_inj.1
  simp only [toNat_truncate, UInt32.toNat_add]
  cases w <;> simp only [modulus] <;> omega

/-- A statement about masked words holds bit by bit. -/
theorem ext_mask {w : Width} {x y : UInt32}
    (h : ∀ i (_ : i < 32), (w.mask.toBitVec[i] = true → x.toBitVec[i] = y.toBitVec[i]) ∧
      (w.mask.toBitVec[i] = false → x.toBitVec[i] = y.toBitVec[i])) : x = y := by
  apply UInt32.toBitVec_inj.1
  ext i hi
  cases e : w.mask.toBitVec[i]
  · exact (h i hi).2 e
  · exact (h i hi).1 e

/-- Only the low end of the new value counts. -/
theorem merge_congr {w : Width} {x y : UInt32} (old : UInt32) (h : w.truncate x = w.truncate y) :
    w.merge old x = w.merge old y := by
  unfold truncate at h
  rw [merge, h, merge]

/-- The low end of a merged word is that of the new value. -/
@[simp] theorem truncate_merge (w : Width) (x y : UInt32) :
    w.truncate (w.merge x y) = w.truncate y :=
  ext_mask (w := w) fun i hi => by simp +contextual [truncate, merge]

theorem merge_dword (x y : UInt32) : merge .dword x y = y := by
  rw [← truncate_dword (merge .dword x y), truncate_merge, truncate_dword]

@[simp] theorem merge_merge (w : Width) (x y z : UInt32) :
    w.merge (w.merge x y) z = w.merge x z :=
  ext_mask (w := w) fun i hi => by simp +contextual [merge]

@[simp] theorem merge_truncate (w : Width) (x : UInt32) : w.merge x (w.truncate x) = x :=
  ext_mask (w := w) fun i hi => by simp +contextual [truncate, merge]

end Width

end Ia32
