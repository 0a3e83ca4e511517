/-
  Decimal numbers, added and subtracted byte by byte with an adjustment after each byte.

  Main definitions:
  - `Alu.addByte`, `Alu.subByte` : the operations before the adjustment
  - `Alu.IsPacked`, `Alu.packedValue` : two decimal digits in a byte
  - `Alu.addPacked`, `Alu.subPacked` : one byte of packed numbers
  - `Alu.digit` : one decimal digit in the lower half of a byte
  - `Alu.addUnpacked`, `Alu.subUnpacked` : one byte of unpacked numbers, in AL

  Main statements:
  - `Alu.adjustLow_addByte`, `Alu.adjustHigh_addByte`, … : when a digit is adjusted
  - `Alu.addPacked_spec`, `Alu.addUnpacked_spec`, … : one byte is exact
  - `Alu.decimal_exact` : so are numbers of any length
-/
import Ia32.Alu.Decimal
import Ia32.Proofs.CarryChains

namespace Ia32.Alu

/-! ## Adjustments -/

theorem toNat_lowDigit (al : UInt8) : (al &&& 0x0F).toNat = al.toNat % 16 := by
  rw [UInt8.toNat_and]
  exact Nat.and_two_pow_sub_one_eq_mod _ 4

theorem adjustLow_iff (f : Flags) (al : UInt8) :
    adjustLow f al = true ↔ 9 < al.toNat % 16 ∨ f.adjust = true := by
  rw [adjustLow, Bool.or_eq_true, decide_eq_true_iff, UInt8.lt_iff_toNat_lt, toNat_lowDigit]
  rfl

theorem adjustHigh_iff (f : Flags) (al : UInt8) :
    adjustHigh f al = true ↔ 0x99 < al.toNat ∨ f.carry = true := by
  rw [adjustHigh, Bool.or_eq_true, decide_eq_true_iff, UInt8.lt_iff_toNat_lt]
  rfl

theorem toNat_daa (f : Flags) (al : UInt8) : (daa f al).1.toNat =
    (al.toNat + 6 * (adjustLow f al).toNat + 0x60 * (adjustHigh f al).toNat) % 256 := by
  have hlt := al.toNat_lt
  simp only [daa]
  cases adjustLow f al <;> cases adjustHigh f al <;>
    simp only [Bool.false_eq_true, ↓reduceIte, UInt8.toNat_add, UInt8.reduceToNat, Bool.toNat_true,
      Bool.toNat_false] <;> omega

/-- A carry out of the adjustment of the low digit comes with an adjustment of the high one. -/
theorem carry_daa (f : Flags) (al : UInt8) : (daa f al).2.carry = adjustHigh f al := by
  have hhigh := adjustHigh_iff f al
  change (adjustHigh f al || adjustLow f al && (f.carry || decide (al + 6 < al))) = adjustHigh f al
  rw [Bool.or_eq_left_iff_imp, Bool.and_eq_true, Bool.or_eq_true, decide_eq_true_iff,
    UInt8.lt_iff_toNat_lt, UInt8.toNat_add, hhigh]
  rintro ⟨-, hcarry | hwrap⟩
  · exact .inr hcarry
  · have hlt := al.toNat_lt
    change (al.toNat + 6) % 256 < al.toNat at hwrap
    exact .inl (by omega)

theorem toNat_das (f : Flags) (al : UInt8) : ((das f al).1.toNat : ℤ) =
    (al.toNat - 6 * (adjustLow f al).toNat - 0x60 * (adjustHigh f al).toNat) % 256 := by
  have hlt := al.toNat_lt
  simp only [das]
  cases adjustLow f al <;> cases adjustHigh f al <;>
    simp only [Bool.false_eq_true, ↓reduceIte, UInt8.toNat_sub, UInt8.reduceToNat, Bool.toNat_true,
      Bool.toNat_false] <;> omega

/-- A low digit that is adjusted does not run out. -/
theorem carry_das {f : Flags} {al : UInt8} (h : f.adjust = true → 6 ≤ al.toNat) :
    (das f al).2.carry = adjustHigh f al := by
  have hlow := adjustLow_iff f al
  have hhigh := adjustHigh_iff f al
  change (adjustHigh f al || adjustLow f al && (f.carry || decide (al < 6))) = adjustHigh f al
  rw [Bool.or_eq_left_iff_imp, Bool.and_eq_true, Bool.or_eq_true, decide_eq_true_iff,
    UInt8.lt_iff_toNat_lt, hhigh, hlow]
  rintro ⟨hdigit | hadjust, hcarry | hwrap⟩
  · exact .inr hcarry
  · change al.toNat < 6 at hwrap
    omega
  · exact .inr hcarry
  · exact absurd (h hadjust) (Nat.not_le.2 hwrap)

/-! ## Bytes before they are adjusted -/

section

variable (f : Flags) (a b : UInt8) (c : Bool)

/-- The byte and the flags after a sum of two bytes. -/
def addByte : UInt8 × Flags :=
  let p := add f .byte a.toUInt32 b.toUInt32 c
  (p.1.toUInt8, p.2)

/-- The byte and the flags after a difference of two bytes. -/
def subByte : UInt8 × Flags :=
  let p := sub f .byte a.toUInt32 b.toUInt32 c
  (p.1.toUInt8, p.2)

theorem unsigned_byte (a : UInt8) : Width.byte.unsigned a.toUInt32 = a.toNat := by
  rw [Width.unsigned_eq, UInt8.toNat_toUInt32]
  exact Nat.mod_eq_of_lt a.toNat_lt

theorem toNat_addByte : (addByte f a b c).1.toNat = (a.toNat + b.toNat + c.toNat) % 256 := by
  rw [addByte, UInt32.toNat_toUInt8, toNat_add, unsigned_byte, unsigned_byte]
  exact Nat.mod_mod _ _

theorem toNat_subByte :
    ((subByte f a b c).1.toNat : ℤ) = (a.toNat - b.toNat - c.toNat) % 256 := by
  have hresult := toNat_sub f .byte a.toUInt32 b.toUInt32 c
  rw [unsigned_byte, unsigned_byte] at hresult
  rw [subByte, UInt32.toNat_toUInt8, Int.natCast_emod, hresult]
  exact Int.emod_emod _ _

variable {f a b c}

/-- The low digit of a sum is adjusted exactly if it carries in decimal. -/
theorem adjustLow_addByte (ha : a.toNat % 16 ≤ 9) (hb : b.toNat % 16 ≤ 9) :
    adjustLow (addByte f a b c).2 (addByte f a b c).1 = true ↔
      10 ≤ a.toNat % 16 + b.toNat % 16 + c.toNat := by
  have hadjust := adjust_add f .byte a.toUInt32 b.toUInt32 c
  rw [unsigned_byte, unsigned_byte] at hadjust
  rw [adjustLow_iff, toNat_addByte, addByte, hadjust]
  have hc := c.toNat_le
  omega

theorem adjustHigh_addByte : adjustHigh (addByte f a b c).2 (addByte f a b c).1 = true ↔
    0x9A ≤ a.toNat + b.toNat + c.toNat := by
  have hcarry := carry_add f .byte a.toUInt32 b.toUInt32 c
  rw [unsigned_byte, unsigned_byte, Width.modulus] at hcarry
  rw [adjustHigh_iff, toNat_addByte, addByte, hcarry]
  omega

theorem adjust_subByte :
    (subByte f a b c).2.adjust = true ↔ a.toNat % 16 < b.toNat % 16 + c.toNat := by
  have hadjust := adjust_sub f .byte a.toUInt32 b.toUInt32 c
  rwa [unsigned_byte, unsigned_byte] at hadjust

/-- The low digit of a difference is adjusted exactly if it borrows. -/
theorem adjustLow_subByte (ha : a.toNat % 16 ≤ 9) (hb : b.toNat % 16 ≤ 9) :
    adjustLow (subByte f a b c).2 (subByte f a b c).1 = true ↔
      a.toNat % 16 < b.toNat % 16 + c.toNat := by
  have hresult := toNat_subByte f a b c
  have hlt := (subByte f a b c).1.toNat_lt
  have hc := c.toNat_le
  rw [adjustLow_iff, adjust_subByte]
  omega

theorem adjustHigh_subByte (ha : a.toNat ≤ 0x99) :
    adjustHigh (subByte f a b c).2 (subByte f a b c).1 = true ↔ a.toNat < b.toNat + c.toNat := by
  have hcarry := carry_sub f .byte a.toUInt32 b.toUInt32 c
  rw [unsigned_byte, unsigned_byte] at hcarry
  have hresult := toNat_subByte f a b c
  rw [adjustHigh_iff, subByte, hcarry]
  change 0x99 < (subByte f a b c).1.toNat ∨ _ ↔ _
  omega

end

/-! ## Packed digits -/

/-- Both halves of the byte are decimal digits. -/
def IsPacked (x : UInt8) : Prop := x.toNat / 16 ≤ 9 ∧ x.toNat % 16 ≤ 9

instance : DecidablePred IsPacked := fun _ => inferInstanceAs (Decidable (_ ∧ _))

/-- The number that the two digits in a byte stand for. -/
def packedValue (x : UInt8) : ℕ := 10 * (x.toNat / 16) + x.toNat % 16

theorem IsPacked.toNat_le {x : UInt8} (h : IsPacked x) : x.toNat ≤ 0x99 := by
  obtain ⟨hhigh, hlow⟩ := h
  omega

theorem packedValue_lt {x : UInt8} (h : IsPacked x) : packedValue x < 100 := by
  obtain ⟨hhigh, hlow⟩ := h
  unfold packedValue
  omega

/-- Add a byte and the carry, and adjust. -/
def addPacked (f : Flags) (a b : UInt8) : UInt8 × Flags :=
  let p := addByte f a b f.carry
  daa p.2 p.1

/-- Subtract a byte and the borrow, and adjust. -/
def subPacked (f : Flags) (a b : UInt8) : UInt8 × Flags :=
  let p := subByte f a b f.carry
  das p.2 p.1

/-- One byte of a sum is exact: what two digits cannot hold is in the carry flag. -/
theorem addPacked_spec (f : Flags) {a b : UInt8} (ha : IsPacked a) (hb : IsPacked b) :
    IsPacked (addPacked f a b).1 ∧
      packedValue (addPacked f a b).1 + 100 * (addPacked f a b).2.carry.toNat =
        packedValue a + packedValue b + f.carry.toNat := by
  have hresult := toNat_daa (addByte f a b f.carry).2 (addByte f a b f.carry).1
  have hcarry := carry_daa (addByte f a b f.carry).2 (addByte f a b f.carry).1
  have hlow := adjustLow_addByte (f := f) (c := f.carry) ha.2 hb.2
  have hhigh := adjustHigh_addByte (f := f) (a := a) (b := b) (c := f.carry)
  have hc := f.carry.toNat_le
  rw [toNat_addByte] at hresult
  unfold IsPacked packedValue at *
  change (addPacked f a b).1.toNat = _ at hresult
  change (addPacked f a b).2.carry = _ at hcarry
  rw [hcarry]
  generalize (addPacked f a b).1.toNat = r at *
  generalize adjustLow _ _ = low at *
  generalize adjustHigh _ _ = high at *
  cases low <;> cases high <;>
    simp only [Bool.false_eq_true, Bool.toNat_true, Bool.toNat_false, false_iff, true_iff] at * <;>
    omega

/-- One byte of a difference makes up for what is subtracted. -/
theorem subPacked_spec (f : Flags) {a b : UInt8} (ha : IsPacked a) (hb : IsPacked b) :
    IsPacked (subPacked f a b).1 ∧
      packedValue (subPacked f a b).1 + packedValue b + f.carry.toNat =
        packedValue a + 100 * (subPacked f a b).2.carry.toNat := by
  have hle := ha.toNat_le
  have hresult := toNat_das (subByte f a b f.carry).2 (subByte f a b f.carry).1
  -- after a borrow the low half of the byte is at least 6, as `b` has no digit above 9
  have hsix (h : (subByte f a b f.carry).2.adjust = true) :
      6 ≤ (subByte f a b f.carry).1.toNat := by
    have hborrow := adjust_subByte.1 h
    have hdifference := toNat_subByte f a b f.carry
    have hdigit := hb.2
    have hc := f.carry.toNat_le
    omega
  have hcarry : (subPacked f a b).2.carry = adjustHigh _ _ := carry_das hsix
  have hlow := adjustLow_subByte (f := f) (c := f.carry) ha.2 hb.2
  have hhigh := adjustHigh_subByte (f := f) (b := b) (c := f.carry) hle
  have hc := f.carry.toNat_le
  rw [toNat_subByte] at hresult
  unfold IsPacked packedValue at *
  change ((subPacked f a b).1.toNat : ℤ) = _ at hresult
  rw [hcarry]
  generalize (subPacked f a b).1.toNat = r at *
  generalize adjustLow _ _ = low at *
  generalize adjustHigh _ _ = high at *
  cases low <;> cases high <;>
    simp only [Bool.false_eq_true, Bool.toNat_true, Bool.toNat_false, false_iff, true_iff] at * <;>
    omega

theorem limbLaw_addPacked : LimbLaw 100 1 (fun p : UInt8 × UInt8 => IsPacked p.1 ∧ IsPacked p.2)
    packedValue packedValue addPacked :=
  .of_sum (fun f _ _ h => packedValue_lt (addPacked_spec f h.1 h.2).1)
    fun f _ _ h => (addPacked_spec f h.1 h.2).2

theorem limbLaw_subPacked : LimbLaw 100 (-1) (fun p : UInt8 × UInt8 => IsPacked p.1 ∧ IsPacked p.2)
    packedValue packedValue subPacked :=
  .of_difference (fun f _ _ h => packedValue_lt (subPacked_spec f h.1 h.2).1)
    fun f _ _ h => (subPacked_spec f h.1 h.2).2

/-! ## Unpacked digits -/

/-- The digit in the lower half of a byte. -/
def digit (x : UInt8) : ℕ := x.toNat % 16

/-- Add a byte and the carry to AL, and adjust AX. -/
def addUnpacked (f : Flags) (ax : UInt16) (b : UInt8) : UInt16 × Flags :=
  let p := addByte f ax.toUInt8 b f.carry
  aaa p.2 (bytePair (ax >>> 8).toUInt8 p.1)

/-- Subtract a byte and the borrow from AL, and adjust AX. -/
def subUnpacked (f : Flags) (ax : UInt16) (b : UInt8) : UInt16 × Flags :=
  let p := subByte f ax.toUInt8 b f.carry
  aas p.2 (bytePair (ax >>> 8).toUInt8 p.1)

theorem toUInt8_bytePair (ah al : UInt8) : (bytePair ah al).toUInt8 = al := by
  apply UInt8.toBitVec_inj.1
  ext i hi
  simp [bytePair]

/-- An adjustment leaves nothing but the digit in AL. -/
theorem toNat_toUInt8_and_mask (x : UInt16) :
    (x &&& 0xFF0F).toUInt8.toNat = x.toUInt8.toNat % 16 := by
  rw [UInt16.toUInt8_and]
  exact toNat_lowDigit _

theorem toNat_toUInt8_aaa (f : Flags) (ax : UInt16) : (aaa f ax).1.toUInt8.toNat =
    (ax.toUInt8.toNat + 6 * (adjustLow f ax.toUInt8).toNat) % 16 := by
  rw [aaa, toNat_toUInt8_and_mask]
  cases adjustLow f ax.toUInt8 with
  | true =>
    change (ax + 0x106).toUInt8.toNat % 16 = _
    rw [UInt16.toUInt8_add, UInt8.toNat_add]
    exact Nat.mod_mod_of_dvd _ (by decide)
  | false => rfl

theorem toNat_toUInt8_aas (f : Flags) (ax : UInt16) : ((aas f ax).1.toUInt8.toNat : ℤ) =
    (ax.toUInt8.toNat - 6 * (adjustLow f ax.toUInt8).toNat) % 16 := by
  rw [aas, toNat_toUInt8_and_mask]
  cases adjustLow f ax.toUInt8 with
  | true =>
    have hlt := ax.toUInt8.toNat_lt
    change ((bytePair _ (ax.toUInt8 - 6)).toUInt8.toNat % 16 : ℤ) = _
    rw [toUInt8_bytePair, UInt8.toNat_sub]
    change ((256 - 6 + ax.toUInt8.toNat) % 256 % 16 : ℤ) = _
    rw [Bool.toNat_true]
    omega
  | false => simp

/-- One digit of a sum is exact, whatever the other halves of AX hold. -/
theorem addUnpacked_spec (f : Flags) {ax : UInt16} {b : UInt8} (ha : digit ax.toUInt8 ≤ 9)
    (hb : digit b ≤ 9) :
    (addUnpacked f ax b).1.toUInt8.toNat ≤ 9 ∧
      digit (addUnpacked f ax b).1.toUInt8 + 10 * (addUnpacked f ax b).2.carry.toNat =
        digit ax.toUInt8 + digit b + f.carry.toNat := by
  have hresult := toNat_toUInt8_aaa (addByte f ax.toUInt8 b f.carry).2
    (bytePair (ax >>> 8).toUInt8 (addByte f ax.toUInt8 b f.carry).1)
  have hcarry : (addUnpacked f ax b).2.carry = adjustLow (addByte f ax.toUInt8 b f.carry).2
      (bytePair (ax >>> 8).toUInt8 (addByte f ax.toUInt8 b f.carry).1).toUInt8 := rfl
  have hlow := adjustLow_addByte (f := f) (c := f.carry) ha hb
  have hc := f.carry.toNat_le
  rw [toUInt8_bytePair] at hresult hcarry
  rw [toNat_addByte] at hresult
  change (addUnpacked f ax b).1.toUInt8.toNat = _ at hresult
  unfold digit at *
  rw [hcarry]
  generalize (addUnpacked f ax b).1.toUInt8.toNat = r at *
  generalize adjustLow _ _ = low at *
  cases low <;>
    simp only [Bool.false_eq_true, Bool.toNat_true, Bool.toNat_false, false_iff, true_iff] at * <;>
    omega

/-- One digit of a difference makes up for what is subtracted. -/
theorem subUnpacked_spec (f : Flags) {ax : UInt16} {b : UInt8} (ha : digit ax.toUInt8 ≤ 9)
    (hb : digit b ≤ 9) :
    (subUnpacked f ax b).1.toUInt8.toNat ≤ 9 ∧
      digit (subUnpacked f ax b).1.toUInt8 + digit b + f.carry.toNat =
        digit ax.toUInt8 + 10 * (subUnpacked f ax b).2.carry.toNat := by
  have hresult := toNat_toUInt8_aas (subByte f ax.toUInt8 b f.carry).2
    (bytePair (ax >>> 8).toUInt8 (subByte f ax.toUInt8 b f.carry).1)
  have hcarry : (subUnpacked f ax b).2.carry = adjustLow (subByte f ax.toUInt8 b f.carry).2
      (bytePair (ax >>> 8).toUInt8 (subByte f ax.toUInt8 b f.carry).1).toUInt8 := rfl
  have hlow := adjustLow_subByte (f := f) (c := f.carry) ha hb
  have hc := f.carry.toNat_le
  rw [toUInt8_bytePair] at hresult hcarry
  rw [toNat_subByte] at hresult
  change ((subUnpacked f ax b).1.toUInt8.toNat : ℤ) = _ at hresult
  unfold digit at *
  rw [hcarry]
  generalize (subUnpacked f ax b).1.toUInt8.toNat = r at *
  generalize adjustLow _ _ = low at *
  cases low <;>
    simp only [Bool.false_eq_true, Bool.toNat_true, Bool.toNat_false, false_iff, true_iff] at * <;>
    omega

theorem digit_lt {x : UInt8} (h : x.toNat ≤ 9) : digit x < 10 :=
  Nat.lt_succ_of_le ((Nat.mod_le _ 16).trans h)

theorem limbLaw_addUnpacked :
    LimbLaw 10 1 (fun p : UInt16 × UInt8 => digit p.1.toUInt8 ≤ 9 ∧ digit p.2 ≤ 9)
      (fun ax => digit ax.toUInt8) digit addUnpacked :=
  .of_sum (fun f _ _ h => digit_lt (addUnpacked_spec f h.1 h.2).1)
    fun f _ _ h => (addUnpacked_spec f h.1 h.2).2

theorem limbLaw_subUnpacked :
    LimbLaw 10 (-1) (fun p : UInt16 × UInt8 => digit p.1.toUInt8 ≤ 9 ∧ digit p.2 ≤ 9)
      (fun ax => digit ax.toUInt8) digit subUnpacked :=
  .of_difference (fun f _ _ h => digit_lt (subUnpacked_spec f h.1 h.2).1)
    fun f _ _ h => (subUnpacked_spec f h.1 h.2).2

/-! ## Numbers -/

/-- **Decimal numbers**: with the adjustments between the bytes, sums and differences are exact in
decimal, for packed numbers and for unpacked ones, whatever AH holds. -/
theorem decimal_exact (f : Flags) :
    (∀ ps : List (UInt8 × UInt8), (∀ p ∈ ps, IsPacked p.1 ∧ IsPacked p.2) →
      let A := numeral 100 packedValue (ps.map Prod.fst)
      let B := numeral 100 packedValue (ps.map Prod.snd)
      IsNumeral IsPacked 100 packedValue ps.length (A + B + f.carry.toNat)
          (chain addPacked f ps) ∧
        IsNumeral IsPacked 100 packedValue ps.length (A - B - f.carry.toNat)
          (chain subPacked f ps)) ∧
    ∀ ps : List (UInt16 × UInt8), (∀ p ∈ ps, digit p.1.toUInt8 ≤ 9 ∧ digit p.2 ≤ 9) →
      let A := numeral 10 (fun ax => digit ax.toUInt8) (ps.map Prod.fst)
      let B := numeral 10 digit (ps.map Prod.snd)
      IsNumeral (fun ax => ax.toUInt8.toNat ≤ 9) 10 (fun ax => digit ax.toUInt8) ps.length
          (A + B + f.carry.toNat) (chain addUnpacked f ps) ∧
        IsNumeral (fun ax => ax.toUInt8.toNat ≤ 9) 10 (fun ax => digit ax.toUInt8) ps.length
          (A - B - f.carry.toNat) (chain subUnpacked f ps) := by
  refine ⟨fun ps hps => ⟨?_, ?_⟩, fun ps hps => ⟨?_, ?_⟩⟩
  · exact limbLaw_addPacked.isNumeral_chain (by decide) (.inl rfl)
      (fun f a b h => (addPacked_spec f h.1 h.2).1) f hps (by ring)
  · exact limbLaw_subPacked.isNumeral_chain (by decide) (.inr rfl)
      (fun f a b h => (subPacked_spec f h.1 h.2).1) f hps (by ring)
  · exact limbLaw_addUnpacked.isNumeral_chain (by decide) (.inl rfl)
      (fun f a b h => (addUnpacked_spec f h.1 h.2).1) f hps (by ring)
  · exact limbLaw_subUnpacked.isNumeral_chain (by decide) (.inr rfl)
      (fun f a b h => (subUnpacked_spec f h.1 h.2).1) f hps (by ring)

/-- The packed sum 9997 + 2 + 1, and the difference 70 - 94 of printed digits, under a busy AH. -/
theorem decimal_exact_carries :
    let f : Flags := { carry := true, adjust := true }
    let ps : List (UInt8 × UInt8) := [(0x97, 0x02), (0x99, 0x00)]
    let qs : List (UInt16 × UInt8) := [(0xAB30, 0x34), (0xFF37, 0x39)]
    (∀ p ∈ ps, IsPacked p.1 ∧ IsPacked p.2) ∧
      (∀ q ∈ qs, digit q.1.toUInt8 ≤ 9 ∧ digit q.2 ≤ 9) ∧
      numeral 100 packedValue (chain addPacked f ps).1 = 0 ∧
      (chain addPacked f ps).2.carry = true ∧
      numeral 10 (fun ax => digit ax.toUInt8) (chain subUnpacked f qs).1 = 75 ∧
      (chain subUnpacked f qs).2.carry = true := by
  intro f ps qs
  have hps : ∀ p ∈ ps, IsPacked p.1 ∧ IsPacked p.2 :=
    List.forall_mem_cons.2 ⟨by decide, List.forall_mem_singleton.2 (by decide)⟩
  have hqs : ∀ q ∈ qs, digit q.1.toUInt8 ≤ 9 ∧ digit q.2 ≤ 9 :=
    List.forall_mem_cons.2 ⟨by decide, List.forall_mem_singleton.2 (by decide)⟩
  obtain ⟨hsum, -⟩ := (decimal_exact f).1 ps hps
  obtain ⟨-, hdifference⟩ := (decimal_exact f).2 qs hqs
  refine ⟨hps, hqs, Int.ofNat_inj.1 (hsum.value.trans ?_), hsum.carry.2 ?_,
    Int.ofNat_inj.1 (hdifference.value.trans ?_), hdifference.carry.2 ?_⟩
  · decide
  · decide
  · decide
  · decide

end Ia32.Alu
