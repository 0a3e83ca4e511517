/-
  Rotates by several places.

  A rotate moves bits around a ring of cells: those of the value and, if it goes through the carry,
  one more cell for the carry flag.  A rotate by `n` places takes each bit `n` cells on, so that it
  does what `n` rotates by one place do, also where it goes around several times.

  Main definitions:
  - `Alu.cell`, `Alu.Rotate.places` : the cells of a ring, and their number
  - `Alu.Rotate.source` : the cell that a bit has come from
  - `Alu.Rotate.turn` : the value and the carry flag after a rotate
  - `Alu.Rotate.inverse` : the rotate that goes back

  Main statements:
  - `Alu.Rotate.cell_turn` : where the bits go
  - `Alu.Rotate.turn_turn`, `Alu.Rotate.turn_iterate` : one more place, and any number of them
  - `Alu.Rotate.turn_inverse` : and back
  - `Alu.rotate_exact` : the operation
-/
import Ia32.Alu.Shift
import Ia32.Proofs.Shifts
import Mathlib.Logic.Function.Iterate

namespace Ia32.Alu

variable {k : Rotate} {w : Width} {x : UInt32} {s t : UInt32 × Bool} {n i : ℕ}

/-! ## Rings -/

/-- The bits of a value, the lowest in cell 0, and the carry in the cell behind them. -/
def cell (w : Width) (s : UInt32 × Bool) (i : ℕ) : Bool :=
  if i = w.bits then s.2 else s.1.toNat.testBit i

theorem cell_of_lt (h : i < w.bits) : cell w s i = s.1.toNat.testBit i := if_neg h.ne

theorem cell_bits (w : Width) (s : UInt32 × Bool) : cell w s w.bits = s.2 := if_pos rfl

/-- A value within the width is known from its cells. -/
theorem eq_of_cell {x y : UInt32} (hx : x.toNat < w.modulus) (hy : y.toNat < w.modulus)
    (h : ∀ i < w.bits, x.toNat.testBit i = y.toNat.testBit i) : x = y := by
  rw [Width.modulus_eq] at hx hy
  refine UInt32.toNat_inj.1 (Nat.eq_of_testBit_eq fun i => ?_)
  rcases lt_or_ge i w.bits with hi | hi
  · exact h i hi
  · have hle : 2 ^ w.bits ≤ 2 ^ i := Nat.pow_le_pow_right (by decide) hi
    rw [Nat.testBit_lt_two_pow (hx.trans_le hle), Nat.testBit_lt_two_pow (hy.trans_le hle)]

namespace Rotate

def throughCarry : Rotate → Bool
  | left | right => false
  | carryLeft | carryRight => true

/-- The number of cells that the bits go around. -/
def places (k : Rotate) (w : Width) : ℕ := if k.throughCarry then w.bits + 1 else w.bits

/-- The cell that the bit in cell `i` was in, `n` places before. -/
def source (k : Rotate) (w : Width) (n i : ℕ) : ℕ :=
  match k with
  | left | carryLeft => (i + (k.places w - n % k.places w)) % k.places w
  | right | carryRight => (i + n) % k.places w

/-- The cell whose bit the carry flag shows: within the width, the one that bits come to when they
have crossed the end. -/
def shown (k : Rotate) (w : Width) : ℕ :=
  match k with
  | left => 0
  | right => w.bits - 1
  | carryLeft | carryRight => w.bits

/-- The rotate in the other direction. -/
def inverse : Rotate → Rotate
  | left => right
  | right => left
  | carryLeft => carryRight
  | carryRight => carryLeft

theorem source_lt (k : Rotate) (w : Width) (n i : ℕ) : k.source w n i < k.places w := by
  have hpos : 0 < k.places w := by cases k <;> cases w <;> decide
  cases k <;> exact Nat.mod_lt _ hpos

theorem source_zero (hi : i < k.places w) : k.source w 0 i = i := by
  cases k <;> simp [source, Nat.mod_eq_of_lt hi]

theorem source_source (k : Rotate) (w : Width) (m n i : ℕ) :
    k.source w m (k.source w n i) = k.source w (m + n) i := by
  cases k <;> cases w <;>
    simp only [source, places, throughCarry, Width.bits, ↓reduceIte, Bool.false_eq_true] <;> omega

theorem source_inverse (k : Rotate) (w : Width) (n : ℕ) (hi : i < k.places w) :
    k.source w n (k.inverse.source w n i) = i := by
  cases k <;> cases w <;>
    simp only [source, inverse, places, throughCarry, Width.bits, ↓reduceIte,
      Bool.false_eq_true] at * <;> omega

end Rotate

/-! ## Rotates within the width -/

/-- A bit comes from `n` places below, or around the ring from above. -/
theorem testBit_rotateLeft (hx : x.toNat < w.modulus) (hn : n < w.bits) (hi : i < w.bits) :
    (rotateLeft w x n).toNat.testBit i = x.toNat.testBit ((i + (w.bits - n)) % w.bits) := by
  have hbits := w.bits_le
  have hback : (w.bits - n) % w.bits < w.bits := Nat.mod_lt _ (by omega)
  have hcount (m : ℕ) (hm : m < w.bits) : (UInt64.ofNat m).toNat % 64 = m := by
    rw [UInt64.toNat_ofNat', Nat.mod_eq_of_lt (by omega), Nat.mod_eq_of_lt (by omega)]
  have hbeyond (j : ℕ) (hj : w.bits ≤ j) : x.toNat.testBit j = false := by
    rw [Width.modulus_eq] at hx
    exact Nat.testBit_lt_two_pow (hx.trans_le (Nat.pow_le_pow_right (by decide) hj))
  rw [rotateLeft, Width.toNat_truncate, UInt64.toNat_toUInt32, Width.modulus_eq,
    Nat.testBit_mod_two_pow, Nat.testBit_mod_two_pow, UInt64.toNat_or, Nat.testBit_or,
    UInt64.toNat_shiftLeft, UInt64.toNat_shiftRight, UInt32.toNat_toUInt64,
    Nat.testBit_mod_two_pow, Nat.testBit_shiftLeft, Nat.testBit_shiftRight, hcount n hn,
    hcount _ hback, decide_eq_true hi, decide_eq_true (show i < 32 by omega),
    decide_eq_true (show i < 64 by omega), Bool.true_and, Bool.true_and, Bool.true_and]
  rcases Nat.eq_zero_or_pos n with rfl | hpos
  · simp [Nat.mod_eq_of_lt hi]
  rw [Nat.mod_eq_of_lt (show w.bits - n < w.bits by omega)]
  rcases lt_or_ge i n with hlow | hhigh
  · rw [decide_eq_false (by omega), Bool.false_and, Bool.false_or, Nat.add_comm,
      Nat.mod_eq_of_lt (by omega)]
  · rw [decide_eq_true hhigh, Bool.true_and, hbeyond (w.bits - n + i) (by omega),
      Bool.or_false, show i + (w.bits - n) = i - n + w.bits by omega, Nat.add_mod_right,
      Nat.mod_eq_of_lt (by omega)]

theorem rotateRight_eq (hn : n < w.bits) :
    rotateRight w x n = rotateLeft w x ((w.bits - n) % w.bits) := by
  have hback : (w.bits - (w.bits - n) % w.bits) % w.bits = n := by
    cases w <;> simp only [Width.bits] at * <;> omega
  simp only [rotateRight, rotateLeft, hback]
  rw [UInt64.or_comm]

theorem testBit_rotateRight (hx : x.toNat < w.modulus) (hn : n < w.bits) (hi : i < w.bits) :
    (rotateRight w x n).toNat.testBit i = x.toNat.testBit ((i + n) % w.bits) := by
  rw [rotateRight_eq hn, testBit_rotateLeft hx (Nat.mod_lt _ (by omega)) hi]
  congr 1
  cases w <;> simp only [Width.bits] at * <;> omega

/-! ## Rotates through the carry -/

theorem cell_rotateCarryLeft (s : UInt32 × Bool) (hi : i ≤ w.bits) :
    cell w (rotateCarryLeft w s) i = cell w s ((i + w.bits) % (w.bits + 1)) := by
  have hpos := w.bits_pos
  have hbits := w.bits_le
  rcases Nat.eq_or_lt_of_le hi with rfl | hlt
  · rw [cell_bits, show w.bits + w.bits = w.bits - 1 + (w.bits + 1) by omega, Nat.add_mod_right,
      Nat.mod_eq_of_lt (by omega), cell_of_lt (by omega)]
    exact w.sign_eq_testBit s.1
  have hbit : s.2.toUInt32.toNat = s.2.toNat := by cases s.2 <;> rfl
  have hone : (1 : UInt32).toNat % 32 = 1 := rfl
  rw [cell_of_lt hlt]
  change (w.truncate (s.1 <<< 1 ||| s.2.toUInt32)).toNat.testBit i = _
  rw [Width.toNat_truncate, Width.modulus_eq, Nat.testBit_mod_two_pow, UInt32.toNat_or,
    Nat.testBit_or, UInt32.toNat_shiftLeft, Nat.testBit_mod_two_pow, Nat.testBit_shiftLeft, hbit,
    hone, Nat.testBit_bool_toNat, decide_eq_true hlt, decide_eq_true (show i < 32 by omega),
    Bool.true_and, Bool.true_and]
  cases i with
  | zero => rw [Nat.zero_add, Nat.mod_eq_of_lt (Nat.lt_succ_self _), cell_bits]; simp
  | succ j =>
    rw [show j + 1 + w.bits = j + (w.bits + 1) by omega, Nat.add_mod_right,
      Nat.mod_eq_of_lt (by omega), cell_of_lt (by omega)]
    simp

theorem cell_rotateCarryRight (hs : s.1.toNat < w.modulus) (hi : i ≤ w.bits) :
    cell w (rotateCarryRight w s) i = cell w s ((i + 1) % (w.bits + 1)) := by
  have hbits := w.bits_pos
  rcases Nat.eq_or_lt_of_le hi with rfl | hlt
  · rw [cell_bits, Nat.mod_self, cell_of_lt hbits]
    exact and_bit_ne_zero s.1 rfl
  have hshift : (s.1 >>> 1).toNat = s.1.toNat >>> 1 := UInt32.toNat_shiftRight s.1 1
  have htop : (if s.2 then w.topBit else 0).toNat.testBit i = (s.2 && decide (w.bits - 1 = i)) := by
    cases s.2 <;> simp [Width.toNat_topBit, Nat.testBit_two_pow]
  rw [cell_of_lt hlt, Nat.mod_eq_of_lt (by omega)]
  change (s.1 >>> 1 ||| if s.2 then w.topBit else 0).toNat.testBit i = _
  rw [UInt32.toNat_or, Nat.testBit_or, hshift, Nat.testBit_shiftRight, htop, Nat.add_comm 1 i]
  rcases Nat.eq_or_lt_of_le hlt with heq | hbelow
  · rw [Width.modulus_eq, ← heq] at hs
    rw [Nat.testBit_lt_two_pow hs, cell, if_pos heq, decide_eq_true (by omega)]
    simp
  · rw [cell_of_lt hbelow, decide_eq_false (by omega)]
    simp

theorem lt_rotateCarryLeft (w : Width) (s : UInt32 × Bool) :
    (rotateCarryLeft w s).1.toNat < w.modulus := by
  change (w.truncate _).toNat < _
  rw [Width.toNat_truncate]
  exact Nat.mod_lt _ w.modulus_pos

theorem lt_rotateCarryRight (hs : s.1.toNat < w.modulus) :
    (rotateCarryRight w s).1.toNat < w.modulus := by
  change (s.1 >>> 1 ||| if s.2 then w.topBit else 0).toNat < _
  rw [Width.toNat_shiftRight_or_topBit hs]
  rw [Width.modulus_eq_half] at *
  cases s.2 <;> simp only [Bool.toNat_true, Bool.toNat_false] <;> omega

/-! ## Turns -/

namespace Rotate

/-- The value and the carry after a rotate by `n` places. -/
def turn (k : Rotate) (w : Width) (n : ℕ) (s : UInt32 × Bool) : UInt32 × Bool :=
  k.apply w n (w.truncate s.1) s.2

theorem source_mod_places (k : Rotate) (w : Width) (n i : ℕ) :
    k.source w (n % k.places w) i = k.source w n i := by
  cases k <;> simp only [source, Nat.mod_mod, Nat.add_mod_mod]

/-- What takes every bit one place on takes it `m` places on in `m` rounds. -/
theorem cell_repeat {step : UInt32 × Bool → UInt32 × Bool}
    (hlt : ∀ s, s.1.toNat < w.modulus → (step s).1.toNat < w.modulus)
    (hcell : ∀ s, s.1.toNat < w.modulus → ∀ i < k.places w,
      cell w (step s) i = cell w s (k.source w 1 i))
    (hs : s.1.toNat < w.modulus) (m : ℕ) :
    (Nat.repeat step m s).1.toNat < w.modulus ∧
      ∀ i < k.places w, cell w (Nat.repeat step m s) i = cell w s (k.source w m i) := by
  induction m with
  | zero =>
    refine ⟨hs, fun i hi => ?_⟩
    rw [source_zero hi]
    rfl
  | succ m ih =>
    obtain ⟨ihlt, ihcell⟩ := ih
    refine ⟨hlt _ ihlt, fun i hi => ?_⟩
    have hstep : cell w (Nat.repeat step (m + 1) s) i = _ := hcell _ ihlt i hi
    rw [hstep, ihcell _ (k.source_lt w 1 i), source_source]

theorem turn_spec (k : Rotate) (w : Width) (n : ℕ) (s : UInt32 × Bool) :
    (k.turn w n s).1.toNat < w.modulus ∧
      ∀ i < k.places w, cell w (k.turn w n s) i = cell w (w.truncate s.1, s.2) (k.source w n i) := by
  have hbits := w.bits_pos
  have hs : (w.truncate s.1).toNat < w.modulus := w.unsigned_lt s.1
  cases k with
  | left =>
    refine ⟨w.unsigned_lt _, fun i hi => ?_⟩
    rw [cell_of_lt hi, cell_of_lt (left.source_lt w n i)]
    exact testBit_rotateLeft hs (Nat.mod_lt _ hbits) hi
  | right =>
    refine ⟨w.unsigned_lt _, fun i hi => ?_⟩
    rw [cell_of_lt hi, cell_of_lt (right.source_lt w n i), ← source_mod_places]
    exact testBit_rotateRight hs (Nat.mod_lt _ hbits) hi
  | carryLeft =>
    simp only [← carryLeft.source_mod_places w n]
    refine cell_repeat (fun t _ => lt_rotateCarryLeft w t) (fun t _ i hi => ?_) hs _
    rw [cell_rotateCarryLeft t (Nat.le_of_lt_succ hi)]
    congr 1
    cases w <;> rfl
  | carryRight =>
    simp only [← carryRight.source_mod_places w n]
    exact cell_repeat (fun t ht => lt_rotateCarryRight ht)
      (fun t ht i hi => cell_rotateCarryRight ht (Nat.le_of_lt_succ hi)) hs _

theorem lt_turn (k : Rotate) (w : Width) (n : ℕ) (s : UInt32 × Bool) :
    (k.turn w n s).1.toNat < w.modulus := (k.turn_spec w n s).1

theorem cell_turn (n : ℕ) (s : UInt32 × Bool) (hi : i < k.places w) :
    cell w (k.turn w n s) i = cell w (w.truncate s.1, s.2) (k.source w n i) :=
  (k.turn_spec w n s).2 i hi

theorem bits_le_places (k : Rotate) (w : Width) : w.bits ≤ k.places w := by
  unfold places
  split <;> omega

/-- Values whose bits are those of a turn, up to the carry where the carry is no cell. -/
theorem eq_turn_of_cell {x : UInt32} {c : Bool} (hx : x.toNat < w.modulus)
    (h : ∀ i < k.places w, cell w (x, c) i = cell w (k.turn w n s) i) :
    x = (k.turn w n s).1 ∧ (k.throughCarry = true → c = (k.turn w n s).2) := by
  refine ⟨eq_of_cell hx (k.lt_turn w n s) fun i hi => ?_, fun hcarry => ?_⟩
  · have hcell := h i (hi.trans_le (k.bits_le_places w))
    rwa [cell_of_lt hi, cell_of_lt hi] at hcell
  · have hcell := h w.bits (by rw [places, if_pos hcarry]; exact Nat.lt_succ_self _)
    rwa [cell_bits, cell_bits] at hcell

theorem carry_turn (k : Rotate) (w : Width) (n : ℕ) (s : UInt32 × Bool) :
    (k.turn w n s).2 = cell w (k.turn w n s) (k.shown w) := by
  have hbits := w.bits_pos
  cases k with
  | left =>
    change ((left.turn w n s).1 &&& 1 != 0) = cell w (left.turn w n s) 0
    rw [cell_of_lt hbits]
    exact and_bit_ne_zero _ rfl
  | right =>
    change w.sign (right.turn w n s).1 = cell w (right.turn w n s) (w.bits - 1)
    rw [cell_of_lt (Nat.sub_one_lt_of_lt hbits), w.sign_eq_testBit]
  | carryLeft => exact (cell_bits w _).symm
  | carryRight => exact (cell_bits w _).symm

/-- Within the width, the value tells the carry. -/
theorem carry_turn_congr (hk : k.throughCarry = false) {m n : ℕ}
    (h : (k.turn w m s).1 = (k.turn w n t).1) : (k.turn w m s).2 = (k.turn w n t).2 := by
  have hshown : k.shown w < w.bits := by cases k <;> cases w <;> first | decide | cases hk
  rw [carry_turn, carry_turn, cell_of_lt hshown, cell_of_lt hshown, h]

/-- Within the width, the carry does not matter. -/
theorem turn_congr (hk : k.throughCarry = false) (w : Width) (n : ℕ) (x : UInt32) (c d : Bool) :
    k.turn w n (x, c) = k.turn w n (x, d) := by
  cases k with
  | left => rfl
  | right => rfl
  | carryLeft => cases hk
  | carryRight => cases hk

/-- Two turns are one. -/
theorem turn_turn (k : Rotate) (w : Width) (m n : ℕ) (s : UInt32 × Bool) :
    k.turn w n (k.turn w m s) = k.turn w (m + n) s := by
  have hself : w.truncate (k.turn w m s).1 = (k.turn w m s).1 :=
    Width.truncate_eq_self (k.lt_turn w m s)
  have hcell : ∀ i < k.places w,
      cell w (k.turn w n (k.turn w m s)) i = cell w (k.turn w (m + n) s) i := by
    intro i hi
    rw [cell_turn _ _ hi, cell_turn _ _ hi, hself, cell_turn _ _ (k.source_lt w n i),
      source_source]
  obtain ⟨hvalue, hcarry⟩ := eq_turn_of_cell (k.lt_turn w n _) hcell
  refine Prod.ext hvalue ?_
  cases hk : k.throughCarry with
  | false => exact carry_turn_congr hk hvalue
  | true => exact hcarry hk

theorem turn_iterate (k : Rotate) (w : Width) (n : ℕ) (s : UInt32 × Bool) :
    (k.turn w 1)^[n + 1] s = k.turn w (n + 1) s := by
  induction n with
  | zero => rfl
  | succ n ih => rw [Function.iterate_succ_apply', ih, turn_turn]

/-- A turn in the other direction brings every bit back. -/
theorem turn_inverse (k : Rotate) (w : Width) (n : ℕ) (s : UInt32 × Bool) :
    (k.inverse.turn w n (k.turn w n s)).1 = w.truncate s.1 ∧
      (k.throughCarry = true → (k.inverse.turn w n (k.turn w n s)).2 = s.2) := by
  have hplaces : k.inverse.places w = k.places w := by cases k <;> rfl
  have hself : w.truncate (k.turn w n s).1 = (k.turn w n s).1 :=
    Width.truncate_eq_self (k.lt_turn w n s)
  have hcell : ∀ i < k.inverse.places w,
      cell w (w.truncate s.1, s.2) i = cell w (k.inverse.turn w n (k.turn w n s)) i := by
    intro i hi
    have hsource : k.inverse.source w n i < k.places w := hplaces ▸ k.inverse.source_lt w n i
    rw [cell_turn _ _ hi, hself, cell_turn _ _ hsource, k.source_inverse w n (hplaces ▸ hi)]
  obtain ⟨hvalue, hcarry⟩ := eq_turn_of_cell (w.unsigned_lt s.1) hcell
  refine ⟨hvalue.symm, fun hk => (hcarry ?_).symm⟩
  cases k <;> exact hk

end Rotate

/-! ## The operation -/

theorem rotate_of_zero (f : Flags) (k : Rotate) (w : Width) (a : UInt32) {count : UInt32}
    (h : count.toNat % 32 = 0) : rotate f k w a count = (w.truncate a, f) := by
  unfold rotate
  simp only [places_beq, h]
  rfl

/-- Any other count turns the ring, and the overflow flag is touched for one place only. -/
theorem rotate_of_ne_zero (f : Flags) (k : Rotate) (w : Width) (a : UInt32) {count : UInt32}
    (h : count.toNat % 32 ≠ 0) : ∃ overflow : Bool,
    rotate f k w a count = ((k.turn w (count.toNat % 32) (a, f.carry)).1, { f with
      carry := (k.turn w (count.toNat % 32) (a, f.carry)).2
      overflow := if count.toNat % 32 = 1 then overflow else f.overflow }) := by
  unfold rotate
  simp only [places_beq, toNat_and_places, UInt32.toNat_zero, UInt32.toNat_one, h, decide_false,
    Bool.false_eq_true, ↓reduceIte, decide_eq_true_eq]
  exact ⟨_, rfl⟩

/-- One more rotate by one place. -/
def rotateOnce (k : Rotate) (w : Width) (p : UInt32 × Flags) : UInt32 × Flags :=
  rotate p.2 k w p.1 1

/-- The value and the carry. -/
def ring (p : UInt32 × Flags) : UInt32 × Bool := (p.1, p.2.carry)

theorem ring_rotate (f : Flags) (k : Rotate) (w : Width) (a : UInt32) {count : UInt32}
    (h : count.toNat % 32 ≠ 0) :
    ring (rotate f k w a count) = k.turn w (count.toNat % 32) (a, f.carry) := by
  obtain ⟨overflow, hrotate⟩ := rotate_of_ne_zero f k w a h
  rw [hrotate]
  rfl

theorem ring_iterate (k : Rotate) (w : Width) (n : ℕ) (p : UInt32 × Flags) :
    ring ((rotateOnce k w)^[n] p) = (k.turn w 1)^[n] (ring p) := by
  have honce : Function.Semiconj ring (rotateOnce k w) (k.turn w 1) :=
    fun p => ring_rotate p.2 k w p.1 (show (1 : UInt32).toNat % 32 ≠ 0 by decide)
  exact honce.iterate_right n p

/-- The value and the carry, as many rotates by one place later. -/
theorem ring_rotate_eq_iterate (f : Flags) (k : Rotate) (w : Width) (a count : UInt32) :
    ring (rotate f k w a count) =
      ring ((rotateOnce k w)^[count.toNat % 32] (w.truncate a, f)) := by
  rcases h : count.toNat % 32 with _ | n
  · rw [rotate_of_zero f k w a h, Function.iterate_zero_apply]
  · have htruncate : k.turn w (n + 1) (w.truncate a, f.carry) = k.turn w (n + 1) (a, f.carry) := by
      unfold Rotate.turn
      rw [Width.truncate_truncate]
    rw [ring_rotate f k w a (by omega), h, ring_iterate]
    exact ((k.turn_iterate w n _).trans htruncate).symm

/-- Two rotates, there and back, with any flags in between that have the carry where it matters. -/
theorem ring_rotate_inverse (f g : Flags) (k : Rotate) (w : Width) (a count : UInt32)
    (hg : k.throughCarry = true → g.carry = (rotate f k w a count).2.carry) :
    let r := rotate g k.inverse w (rotate f k w a count).1 count
    r.1 = w.truncate a ∧ (k.throughCarry = true → r.2.carry = f.carry) := by
  intro r
  rcases h : count.toNat % 32 with _ | n
  · have hthere := rotate_of_zero f k w a h
    have hback : r = _ := rotate_of_zero g k.inverse w _ h
    rw [hback, hthere, Width.truncate_truncate]
    rw [hthere] at hg
    exact ⟨rfl, hg⟩
  · have hne : count.toNat % 32 ≠ 0 := by omega
    have hthere : (ring (rotate f k w a count)) = _ := ring_rotate f k w a hne
    have hback : ring r = _ := ring_rotate g k.inverse w (rotate f k w a count).1 hne
    have hsame : ring r = k.inverse.turn w (count.toNat % 32) (ring (rotate f k w a count)) := by
      rw [hback]
      cases hk : k.throughCarry with
      | true => rw [hg hk, ring]
      | false => exact Rotate.turn_congr (by cases k <;> exact hk) w _ _ _ _
    obtain ⟨hvalue, hcarry⟩ := k.turn_inverse w (count.toNat % 32) (a, f.carry)
    rw [← hthere, ← hsame] at hvalue hcarry
    exact ⟨hvalue, hcarry⟩

/-- **Rotates**: a rotate is as many rotates by one place as its count says, less 32 as often as
possible; it takes every bit as many cells on, and the carry flag shows one of them; the rotate in
the other direction undoes it, and through the carry also brings back the carry; and it changes no
other flags than the carry and, for one place, the overflow. -/
theorem rotate_exact (f : Flags) (k : Rotate) (w : Width) (a count : UInt32) :
    let n := count.toNat % 32
    let p := rotate f k w a count
    let q := (rotateOnce k w)^[n] (w.truncate a, f)
    (p.1 = q.1 ∧ p.2.carry = q.2.carry ∧ (n = 0 → p = (w.truncate a, f))) ∧
    ((∀ i < k.places w, cell w (ring p) i = cell w (w.truncate a, f.carry) (k.source w n i)) ∧
      (n ≠ 0 → p.2.carry = cell w (ring p) (k.shown w))) ∧
    (∀ g : Flags, (k.throughCarry = true → g.carry = p.2.carry) →
      let r := rotate g k.inverse w p.1 count
      r.1 = w.truncate a ∧ (k.throughCarry = true → r.2.carry = f.carry)) ∧
    p.2 = { f with carry := p.2.carry, overflow := p.2.overflow } ∧
      (n ≠ 1 → p.2.overflow = f.overflow) := by
  intro n p q
  obtain ⟨hvalue, hcarry⟩ := Prod.ext_iff.1 (ring_rotate_eq_iterate f k w a count)
  refine ⟨⟨hvalue, hcarry, rotate_of_zero f k w a⟩, ⟨fun i hi => ?_, fun hn => ?_⟩,
    fun g => ring_rotate_inverse f g k w a count, ?_⟩
  · by_cases hn : n = 0
    · rw [show p = _ from rotate_of_zero f k w a hn, hn, Rotate.source_zero hi]
      rfl
    · rw [show ring p = _ from ring_rotate f k w a hn, Rotate.cell_turn n _ hi]
  · have hring := ring_rotate f k w a hn
    have hshown := k.carry_turn w n (a, f.carry)
    rw [← hring] at hshown
    exact hshown
  · by_cases hn : n = 0
    · rw [show p = _ from rotate_of_zero f k w a hn]
      exact ⟨rfl, fun _ => rfl⟩
    · obtain ⟨overflow, hp⟩ := rotate_of_ne_zero f k w a hn
      rw [show p = _ from hp]
      exact ⟨rfl, fun hone => if_neg hone⟩

/-- A byte goes around three times and two places on through the carry, and back; within the width
it goes around three times, where the carry is set to its lowest bit after all. -/
theorem rotate_exact_around :
    let f : Flags := { carry := true, overflow := true }
    let g : Flags := { carry := true, adjust := true }
    let p := rotate f .carryLeft .byte 0xC1 29
    let q := rotate f .left .byte 0x152 24
    (32 : UInt32).toNat % 32 = 0 ∧ rotate f .left .byte 0x152 32 = (0x52, f) ∧
      p.1 = ((rotateOnce .carryLeft .byte)^[29] (0xC1, f)).1 ∧ p.1 = 0x07 ∧ p.2.carry = true ∧
      0 < Rotate.carryLeft.places .byte ∧ cell .byte (ring p) 0 = cell .byte (0xC1, true) 7 ∧
      (Rotate.carryLeft.throughCarry = true → g.carry = p.2.carry) ∧
      (rotate g .carryRight .byte p.1 29).1 = 0xC1 ∧
      (rotate g .carryRight .byte p.1 29).2.carry = true ∧
      (29 : UInt32).toNat % 32 ≠ 1 ∧ p.2.overflow = true ∧
      (24 : UInt32).toNat % 32 ≠ 0 ∧ q.1 = 0x52 ∧ q.2.carry = cell .byte (ring q) 0 := by
  intro f g p q
  obtain ⟨⟨hiterate, -, -⟩, ⟨hcells, -⟩, hback, -, hoverflow⟩ :=
    rotate_exact f .carryLeft .byte 0xC1 29
  obtain ⟨⟨-, -, hnone⟩, -⟩ := rotate_exact f .left .byte 0x152 32
  obtain ⟨-, ⟨-, hshown⟩, -⟩ := rotate_exact f .left .byte 0x152 24
  have hg : Rotate.carryLeft.throughCarry = true → g.carry = p.2.carry := by decide
  obtain ⟨hvalue, hcarry⟩ := hback g hg
  exact ⟨rfl, hnone rfl, hiterate, by decide, by decide, by decide, hcells 0 (by decide), hg, hvalue,
    hcarry rfl, by decide, hoverflow (by decide), by decide, by decide, hshown (by decide)⟩

end Ia32.Alu
