/-
  Shifts by several places, in closed form.

  A shift goes place by place.  What it leaves after `n` of them is the number that has been moved
  by `n` places at once, also where `n` exceeds the width.

  Main definitions:
  - `Alu.Shift.moved` : the number after the shift, before it is cut to the width
  - `Alu.Shift.lastOut` : the bit that falls out last
  - `Alu.Shift.Reaches` : a word that stands for the number after some places
  - `Alu.Shift.Moves` : result and flags are those of such a move

  Main statements:
  - `Alu.Shift.Reaches.once`, `Alu.Shift.Reaches.lastOut_once` : one more place
  - `Alu.Shift.reaches_times`, `Alu.Shift.lastOut_times` : any number of them
  - `Alu.shift_exact` : the operation
-/
import Ia32.Alu.Shift
import Ia32.Proofs.Sums
import Mathlib.Data.Int.Bitwise

namespace Ia32

/-! ## Bits of integers -/

theorem testBit_int_zero (i : ℤ) : i.testBit 0 = decide (i % 2 = 1) := by
  cases i with
  | ofNat m =>
    change m.testBit 0 = decide ((m : ℤ) % 2 = 1)
    rw [Nat.testBit_zero, decide_eq_decide]
    omega
  | negSucc m =>
    change (!m.testBit 0) = decide (Int.negSucc m % 2 = 1)
    rw [Nat.testBit_zero, ← decide_not, decide_eq_decide]
    omega

theorem testBit_int_succ (i : ℤ) (n : ℕ) : i.testBit (n + 1) = (i / 2).testBit n := by
  cases i with
  | ofNat m => exact Nat.testBit_succ m n
  | negSucc m =>
    have hhalf : Int.negSucc m / 2 = Int.negSucc (m / 2) := by omega
    rw [hhalf]
    exact congrArg not (Nat.testBit_succ m n)

theorem ediv_two_pow_succ (i : ℤ) (n : ℕ) : i / 2 ^ (n + 1) = i / 2 ^ n / 2 := by
  rw [pow_succ, Int.ediv_ediv_of_nonneg (Int.le_of_lt (Int.pow_pos (by decide)))]

/-- Bit `n` of an integer, in two's complement, is the lowest one after `n` halvings. -/
theorem testBit_int (i : ℤ) (n : ℕ) : i.testBit n = decide (i / 2 ^ n % 2 = 1) := by
  induction n generalizing i with
  | zero => rw [testBit_int_zero, pow_zero, Int.ediv_one]
  | succ n ih => rw [testBit_int_succ, ih, pow_succ', Int.ediv_ediv_of_nonneg (by decide)]

namespace Width

/-- The top bit stands for half the number of values. -/
theorem toNat_topBit (w : Width) : w.topBit.toNat = 2 ^ (w.bits - 1) := by cases w <;> rfl

theorem and_topBit (w : Width) (x : UInt32) :
    x &&& w.topBit = if w.sign x then w.topBit else 0 := by
  rw [← UInt32.toNat_inj, UInt32.toNat_and, toNat_topBit, Nat.and_two_pow, sign_eq_testBit]
  cases x.toNat.testBit (w.bits - 1)
  · simp
  · simp [toNat_topBit]

/-- One place to the right makes room for a top bit. -/
theorem toNat_shiftRight_or_topBit {w : Width} {x : UInt32} (hx : x.toNat < w.modulus) (c : Bool) :
    (x >>> 1 ||| if c then w.topBit else 0).toNat = x.toNat / 2 + w.half * c.toNat := by
  have hlow : x.toNat / 2 < 2 ^ (w.bits - 1) := by
    rw [modulus_eq_half, half] at hx
    omega
  have hshift : (x >>> 1).toNat = x.toNat / 2 := UInt32.toNat_shiftRight x 1
  rw [UInt32.toNat_or, hshift]
  cases c with
  | false => simp
  | true =>
    have hsum := Nat.two_pow_add_eq_or_of_lt hlow 1
    rw [Nat.mul_one] at hsum
    rw [if_pos rfl, toNat_topBit, Nat.or_comm, ← hsum, Nat.add_comm, half]
    simp

/-- Halving rounds toward negative infinity, but not out of the range. -/
theorem InSignedRange.ediv_two_pow {w : Width} {i : ℤ} (h : w.InSignedRange i) (n : ℕ) :
    w.InSignedRange (i / 2 ^ n) := by
  induction n with
  | zero => rwa [pow_zero, Int.ediv_one]
  | succ n ih =>
    obtain ⟨hlow, hhigh⟩ := ih
    rw [ediv_two_pow_succ]
    constructor <;> omega

end Width

namespace Alu

variable {k : Shift} {w : Width} {x y : UInt32} {n : ℕ}

namespace Shift

/-! ## Moves -/

/-- The number that `x` becomes when it is moved by `n` places, before it is cut to the width.
What falls out at the lower end is rounded down. -/
def moved (k : Shift) (w : Width) (x : UInt32) (n : ℕ) : ℤ :=
  match k with
  | left => w.unsigned x * 2 ^ n
  | right => w.unsigned x / 2 ^ n
  | signedRight => w.signed x / 2 ^ n

/-- The bit that falls out last when `x` is moved by `n` places, one at least.  After the width has
been passed only zeros fall out, or copies of the sign. -/
def lastOut (k : Shift) (w : Width) (x : UInt32) (n : ℕ) : Bool :=
  match k with
  | left => decide (n ≤ w.bits) && (w.unsigned x).testBit (w.bits - n)
  | right => decide (n ≤ w.bits) && (w.unsigned x).testBit (n - 1)
  | signedRight => (w.signed x).testBit (n - 1)

/-- `y` is what remains of `x` after `n` places. -/
def Reaches (k : Shift) (w : Width) (x : UInt32) (n : ℕ) (y : UInt32) : Prop :=
  (y.toNat : ℤ) = k.moved w x n % w.modulus

theorem Reaches.lt (h : k.Reaches w x n y) : y.toNat < w.modulus := by
  have hpos : (0 : ℤ) < w.modulus := by exact_mod_cast w.modulus_pos
  have hlt := Int.emod_lt_of_pos (k.moved w x n) hpos
  rw [← h] at hlt
  exact_mod_cast hlt

theorem reaches_zero (k : Shift) (w : Width) (x : UInt32) : k.Reaches w x 0 (w.truncate x) := by
  have hlt := w.unsigned_lt x
  have hself : (w.unsigned x : ℤ) % w.modulus = w.unsigned x :=
    Int.emod_eq_of_lt (by omega) (by omega)
  change (w.unsigned x : ℤ) = k.moved w x 0 % w.modulus
  cases k with
  | left => simpa [moved] using hself.symm
  | right => simpa [moved] using hself.symm
  | signedRight => simpa [moved] using (w.signed_emod x).symm

theorem Reaches.left (h : left.Reaches w x n y) :
    y.toNat = w.unsigned x * 2 ^ n % w.modulus := by
  have hcast : (y.toNat : ℤ) = w.unsigned x * 2 ^ n % w.modulus := h
  exact_mod_cast hcast

/-- To the right there is nothing to cut. -/
theorem Reaches.right (h : right.Reaches w x n y) : y.toNat = w.unsigned x / 2 ^ n := by
  have hlt : w.unsigned x / 2 ^ n < w.modulus := (Nat.div_le_self _ _).trans_lt (w.unsigned_lt x)
  have hcast : (y.toNat : ℤ) = w.unsigned x / 2 ^ n % w.modulus := h
  rw [← Nat.mod_eq_of_lt hlt]
  exact_mod_cast hcast

theorem Reaches.signedRight (h : signedRight.Reaches w x n y) :
    w.signed y = w.signed x / 2 ^ n := by
  refine Width.signed_eq_of_emod ((w.inSignedRange_signed x).ediv_two_pow n) ?_
  rw [Width.unsigned_eq, Nat.mod_eq_of_lt h.lt]
  exact h

/-- One more place. -/
theorem Reaches.once (h : k.Reaches w x n y) : k.Reaches w x (n + 1) (k.once w y).1 := by
  cases k with
  | left =>
    have hdouble : (w.truncate (y <<< 1)).toNat = y.toNat * 2 % w.modulus := by
      rw [Width.toNat_truncate, UInt32.toNat_shiftLeft, Nat.shiftLeft_eq]
      exact Nat.mod_mod_of_dvd _ (by cases w <;> decide)
    change ((w.truncate (y <<< 1)).toNat : ℤ) = w.unsigned x * 2 ^ (n + 1) % w.modulus
    rw [hdouble, h.left, Nat.mod_mul_mod, Nat.mul_assoc, ← pow_succ]
    push_cast
    rfl
  | right =>
    have hhalf : (y >>> 1).toNat = w.unsigned x / 2 ^ (n + 1) := by
      rw [pow_succ, ← Nat.div_div_eq_div_mul, ← h.right]
      exact UInt32.toNat_shiftRight y 1
    have hlt : w.unsigned x / 2 ^ (n + 1) < w.modulus :=
      (Nat.div_le_self _ _).trans_lt (w.unsigned_lt x)
    change ((y >>> 1).toNat : ℤ) = w.unsigned x / 2 ^ (n + 1) % w.modulus
    rw [hhalf]
    exact_mod_cast (Nat.mod_eq_of_lt hlt).symm
  | signedRight =>
    have hlt := h.lt
    have hsign := w.sign_eq y
    have hsigned := w.signed_eq y
    rw [Width.unsigned_eq, Nat.mod_eq_of_lt hlt] at hsign hsigned
    change ((y >>> 1 ||| y &&& w.topBit).toNat : ℤ) = w.signed x / 2 ^ (n + 1) % w.modulus
    rw [ediv_two_pow_succ, ← h.signedRight, Width.and_topBit,
      Width.toNat_shiftRight_or_topBit hlt, hsign, hsigned]
    rw [Width.modulus_eq_half] at *
    by_cases hneg : w.half ≤ y.toNat
    · rw [if_pos hneg, decide_eq_true hneg, Bool.toNat_true, ← Int.add_emod_right,
        Int.emod_eq_of_lt (by omega) (by omega)]
      omega
    · rw [if_neg hneg, decide_eq_false hneg, Bool.toNat_false,
        Int.emod_eq_of_lt (by omega) (by omega)]
      omega

/-- The bit that falls out at one more place. -/
theorem Reaches.lastOut_once (h : k.Reaches w x n y) : (k.once w y).2 = k.lastOut w x (n + 1) := by
  have hbits := w.bits_pos
  have hlow : (y &&& 1 != 0) = y.toNat.testBit 0 := and_bit_ne_zero y rfl
  cases k with
  | left =>
    change w.sign y = (decide (n + 1 ≤ w.bits) && (w.unsigned x).testBit (w.bits - (n + 1)))
    rw [Width.sign_eq_testBit, h.left, Width.modulus_eq, Nat.testBit_mod_two_pow,
      Nat.testBit_mul_two_pow]
    have htop : w.bits - 1 < w.bits := Nat.sub_one_lt_of_lt hbits
    have hle : n ≤ w.bits - 1 ↔ n + 1 ≤ w.bits := by omega
    have hplace : w.bits - 1 - n = w.bits - (n + 1) := by omega
    simp only [htop, hle, hplace, decide_true, Bool.true_and]
  | right =>
    change (y &&& 1 != 0) = (decide (n + 1 ≤ w.bits) && (w.unsigned x).testBit n)
    rw [hlow, h.right, Nat.testBit_div_two_pow, Nat.zero_add]
    by_cases hn : n + 1 ≤ w.bits
    · simp [hn]
    · have hx : w.unsigned x < 2 ^ n :=
        (w.modulus_eq ▸ w.unsigned_lt x).trans_le (Nat.pow_le_pow_right (by decide) (by omega))
      simp [hn, Nat.testBit_lt_two_pow hx]
  | signedRight =>
    change (y &&& 1 != 0) = (w.signed x).testBit n
    have hparity := w.signed_emod y
    rw [Width.unsigned_eq, Nat.mod_eq_of_lt h.lt] at hparity
    rw [hlow, testBit_int, ← h.signedRight, Nat.testBit_zero, decide_eq_decide]
    rw [Width.modulus_eq_half] at hparity
    push_cast at hparity
    have := Int.emod_emod_of_dvd (w.signed y) (Dvd.intro _ rfl : (2 : ℤ) ∣ 2 * w.half)
    omega

/-- Any number of places. -/
theorem reaches_times (k : Shift) (w : Width) (x : UInt32) (n : ℕ) :
    k.Reaches w x n (k.times w n (w.truncate x)).1 := by
  induction n with
  | zero => exact k.reaches_zero w x
  | succ n ih => exact ih.once

theorem lastOut_times (k : Shift) (w : Width) (x : UInt32) (n : ℕ) :
    (k.times w (n + 1) (w.truncate x)).2 = k.lastOut w x (n + 1) :=
  (k.reaches_times w x n).lastOut_once

/-! ## The operation -/

/-- The overflow flag after `a` has been moved by one place to `p`: to the left it tells whether the
sign has changed, to the right it keeps the old sign. -/
def overflows (k : Shift) (w : Width) (a : UInt32) (p : UInt32 × Flags) : Bool :=
  match k with
  | left => w.sign p.1 ^^ p.2.carry
  | right => w.sign a
  | signedRight => false

/-- `p` holds `a`, moved by `n` places, and the flags that go with it. -/
structure Moves (k : Shift) (w : Width) (f : Flags) (a : UInt32) (n : ℕ) (p : UInt32 × Flags) :
    Prop where
  result : k.Reaches w a n p.1
  carry : p.2.carry = k.lastOut w a n
  overflow : p.2.overflow = if n = 1 then k.overflows w a p else f.overflow
  zero : p.2.zero = true ↔ p.1 = 0
  sign : p.2.sign = true ↔ w.signed p.1 < 0
  parity : p.2.parity = true ↔ Even p.1.toUInt8.toBitVec.cpop.toNat
  others : p.2 = { f with
    carry := p.2.carry
    parity := p.2.parity
    zero := p.2.zero
    sign := p.2.sign
    overflow := p.2.overflow }

end Shift

/-- Of the count, five bits are looked at. -/
theorem toNat_and_places (count : UInt32) : (count &&& 0x1F).toNat = count.toNat % 32 :=
  Nat.and_two_pow_sub_one_eq_mod _ 5

theorem places_beq (count m : UInt32) :
    (count &&& 0x1F == m) = decide (count.toNat % 32 = m.toNat) := by
  rw [Bool.eq_iff_iff, beq_iff_eq, decide_eq_true_iff, ← UInt32.toNat_inj, toNat_and_places]

theorem shift_of_zero (f : Flags) (k : Shift) (w : Width) (a : UInt32) {count : UInt32}
    (h : count.toNat % 32 = 0) : shift f k w a count = (w.truncate a, f) := by
  unfold shift
  simp only [places_beq, h]
  rfl

theorem shift_of_ne_zero (f : Flags) (k : Shift) (w : Width) (a : UInt32) {count : UInt32}
    (h : count.toNat % 32 ≠ 0) :
    let s := k.times w (count.toNat % 32) (w.truncate a)
    shift f k w a count = (s.1, { f.ofResult w s.1 with
      carry := s.2
      overflow := if count.toNat % 32 = 1
        then k.overflows w a (s.1, { f.ofResult w s.1 with carry := s.2 }) else f.overflow }) := by
  unfold shift
  simp only [places_beq, toNat_and_places, UInt32.toNat_zero, UInt32.toNat_one, h, decide_false,
    Bool.false_eq_true, ↓reduceIte, decide_eq_true_eq]
  cases k with
  | left => rfl
  | right => rw [w.sign_truncate]; rfl
  | signedRight => rfl

/-- **Shifts in closed form**: a count of zero changes nothing, and any other one moves the value
by as many places, less 32 as often as possible, at once. -/
theorem shift_exact (f : Flags) (k : Shift) (w : Width) (a count : UInt32) :
    let n := count.toNat % 32
    let p := shift f k w a count
    (n = 0 → p = (w.truncate a, f)) ∧ (n ≠ 0 → k.Moves w f a n p) := by
  intro n p
  refine ⟨shift_of_zero f k w a, fun hn => ?_⟩
  obtain ⟨m, hm⟩ : ∃ m, n = m + 1 := Nat.exists_eq_succ_of_ne_zero hn
  have hreaches := k.reaches_times w a n
  have hout : (k.times w n (w.truncate a)).2 = k.lastOut w a n := by
    rw [hm]
    exact k.lastOut_times w a m
  have hp : p = _ := shift_of_ne_zero f k w a hn
  generalize k.times w n (w.truncate a) = s at *
  rw [hp]
  exact {
    result := hreaches
    carry := hout
    overflow := rfl
    zero := by
      change (w.truncate s.1 == 0) = true ↔ s.1 = 0
      rw [Width.truncate_eq_self hreaches.lt, beq_iff_eq]
    sign := (w.signed_neg_iff s.1).symm
    parity := evenParity_iff s.1.toUInt8
    others := rfl }

/-- A count of 32 is none, one of 40 takes the lowest bit of a byte past its top, and one of 9 fills
a byte with its sign. -/
theorem shift_exact_pastWidth :
    let f : Flags := { adjust := true, overflow := true }
    let p := shift f .left .byte 0x181 40
    let q := shift f .signedRight .byte 0x180 9
    (32 : UInt32).toNat % 32 = 0 ∧ shift f .left .byte 0x181 32 = (0x81, f) ∧
      (40 : UInt32).toNat % 32 ≠ 0 ∧ Shift.left.Moves .byte f 0x181 8 p ∧
      p.1 = 0 ∧ p.2.carry = true ∧ p.2.overflow = true ∧
      (9 : UInt32).toNat % 32 ≠ 0 ∧ Shift.signedRight.Moves .byte f 0x180 9 q ∧
      q.1 = 0xFF ∧ q.2.carry = true ∧ q.2.adjust = true := by
  intro f p q
  have hnone := (shift_exact f .left .byte 0x181 32).1 rfl
  have hleft := (shift_exact f .left .byte 0x181 40).2 (by decide)
  have hright := (shift_exact f .signedRight .byte 0x180 9).2 (by decide)
  exact ⟨rfl, hnone, by decide, hleft, by decide, hleft.carry, hleft.overflow, by decide, hright,
    by decide, hright.carry.trans (by decide), congrArg Flags.adjust hright.others⟩

end Alu

end Ia32
