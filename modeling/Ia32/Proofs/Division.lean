/-
  Products and quotients: what multiplication and division say about numbers.

  Main definitions:
  - `Alu.IsQuotient` : quotient, rounded toward zero, and remainder
  - `Alu.Divided` : a division gives these, and fails exactly where it has to

  Main statements:
  - `Alu.divided_div`, `Alu.divided_idiv` : both divisions
  - `Alu.mul_equation`, `Alu.imul_equation` : both multiplications
-/
import Ia32.Alu.Product
import Ia32.Proofs.Sums
import Mathlib.Algebra.Order.Group.Unbundled.Int
import Mathlib.Algebra.Order.Ring.Abs
import Mathlib.Tactic.LinearCombination

namespace Ia32

namespace Width

/-! ## Residues -/

theorem toNat_ofInt (w : Width) (i : ℤ) : ((w.ofInt i).toNat : ℤ) = i % w.modulus := by
  have hpos : (0 : ℤ) < w.modulus := by exact_mod_cast w.modulus_pos
  have hle := w.modulus_le
  have hlow := Int.emod_nonneg i hpos.ne'
  have hhigh := Int.emod_lt_of_pos i hpos
  have hsmall : (i % w.modulus).toNat < 2 ^ 32 := by omega
  rw [ofInt, UInt32.toNat_ofNat', Nat.mod_eq_of_lt hsmall, Int.toNat_of_nonneg hlow]

theorem toNat_ofInt_lt (w : Width) (i : ℤ) : (w.ofInt i).toNat < w.modulus := by
  have hpos : (0 : ℤ) < w.modulus := by exact_mod_cast w.modulus_pos
  have hlt := Int.emod_lt_of_pos i hpos
  rw [← toNat_ofInt] at hlt
  exact_mod_cast hlt

/-- A number that a word can hold, as this word. -/
theorem toUInt32_eq_ofInt {w : Width} {m : UInt64} (hm : m.toNat < w.modulus) :
    m.toUInt32 = w.ofInt m.toNat := by
  have hle := w.modulus_le
  have hvalue := w.toNat_ofInt m.toNat
  rw [← Int.natCast_emod, Nat.mod_eq_of_lt hm] at hvalue
  rw [← UInt32.toNat_inj, UInt64.toNat_toUInt32, Nat.mod_eq_of_lt (by omega)]
  exact_mod_cast hvalue.symm

/-- A number comes back from its residue exactly if it is within the range. -/
theorem signed_ofInt_eq_iff (w : Width) (i : ℤ) :
    w.signed (w.ofInt i) = i ↔ w.InSignedRange i := by
  refine ⟨fun h => h ▸ w.inSignedRange_signed _, fun h => signed_eq_of_emod h ?_⟩
  rw [unsigned_eq, Nat.mod_eq_of_lt (w.toNat_ofInt_lt i), toNat_ofInt]

/-- One quotient exceeds the range, that of the least number by minus one. -/
theorem inSignedRange_tdiv {w : Width} {i d : ℤ} (hi : w.InSignedRange i) (hd : d ≠ 0) :
    w.InSignedRange (i.tdiv d) ↔ ¬ (i = -w.half ∧ d = -1) := by
  obtain ⟨hlow, hhigh⟩ := hi
  have hle := Int.natAbs_tdiv_le_natAbs i d
  have hhalf : (0 : ℤ) < w.half := by exact_mod_cast Nat.two_pow_pos _
  constructor
  · rintro ⟨-, hlt⟩ ⟨rfl, rfl⟩
    rw [Int.tdiv_neg, Int.tdiv_one] at hlt
    omega
  · intro h
    by_contra hno
    -- the quotient is as large as the dividend, which is as small as it can be
    have hq : i.tdiv d = w.half := by
      rw [InSignedRange] at hno
      omega
    obtain rfl : i = -w.half := by omega
    have hunit : d = 1 ∨ d = -1 := by
      by_contra hunit
      have htwo : 2 ≤ d.natAbs := by omega
      have hsmall : (Int.tdiv (-w.half) d).natAbs ≤ (-(w.half : ℤ)).natAbs / 2 := by
        rw [Int.natAbs_tdiv]
        exact Nat.div_le_div_left htwo (by decide)
      omega
    rcases hunit with rfl | rfl
    · rw [Int.tdiv_one] at hq
      omega
    · exact h ⟨rfl, rfl⟩

theorem abs_signed_le (w : Width) (x : UInt32) : |w.signed x| ≤ w.half := by
  obtain ⟨hlow, hhigh⟩ := w.inSignedRange_signed x
  exact abs_le.2 ⟨hlow, hhigh.le⟩

end Width

namespace Alu

variable {w : Width} {n d q r : ℤ}

/-! ## Quotients -/

/-- `q` and `r` are the quotient, rounded toward zero, and the remainder of `n` by `d`. -/
structure IsQuotient (n d q r : ℤ) : Prop where
  sum : q * d + r = n
  small : |r| < |d|
  sign : r = 0 ∨ (r < 0 ↔ n < 0)

theorem isQuotient_tdiv (n : ℤ) (hd : d ≠ 0) : IsQuotient n d (n.tdiv d) (n.tmod d) where
  sum := by rw [Int.mul_comm, Int.mul_tdiv_add_tmod]
  small := by
    rw [Int.abs_eq_natAbs, Int.abs_eq_natAbs, Int.natAbs_tmod, Int.ofNat_lt]
    exact Nat.mod_lt _ (Int.natAbs_pos.2 hd)
  sign := by
    have hsign := Int.sign_tmod n d
    split_ifs at hsign with hdvd
    · exact .inl (Int.sign_eq_zero_iff_zero.1 hsign)
    · rw [← Int.sign_eq_neg_one_iff_neg, hsign, Int.sign_eq_neg_one_iff_neg]
      exact .inr Iff.rfl

/-- A multiple of the divisor leaves no remainder. -/
theorem IsQuotient.of_mul {m : ℤ} (hd : d ≠ 0) (h : IsQuotient (m * d) d q r) : q = m ∧ r = 0 := by
  have hdvd : d ∣ r := ⟨m - q, by linear_combination h.sum⟩
  have hr : r = 0 := Int.eq_zero_of_abs_lt_dvd ((abs_dvd d r).2 hdvd) h.small
  have hsum := h.sum
  rw [hr, add_zero] at hsum
  exact ⟨mul_right_cancel₀ hd hsum, hr⟩

/-- What a division answers, where `read` finds the numbers in the two words: quotient and remainder
if the quotient is `Fits` for a word, and otherwise, or by zero, a divide error. -/
structure Divided (w : Width) (read : UInt32 → ℤ) (Fits : ℤ → Prop) (n d : ℤ)
    (answer : Except Fault (UInt32 × UInt32)) : Prop where
  fault : answer = .error .divideError ↔ d = 0 ∨ ¬ Fits (n.tdiv d)
  value : d ≠ 0 → Fits (n.tdiv d) → ∃ q r, answer = .ok (q, r) ∧
    w.truncate q = q ∧ w.truncate r = r ∧ IsQuotient n d (read q) (read r)

/-- It is enough that words can hold the quotient, if it fits, and the remainder. -/
theorem Divided.of_eq {read : UInt32 → ℤ} {Fits : ℤ → Prop} [DecidablePred Fits]
    {answer : Except Fault (UInt32 × UInt32)} (hread : ∀ i, Fits i → read (w.ofInt i) = i)
    (hremainder : d ≠ 0 → Fits (n.tmod d))
    (h : answer = if d = 0 ∨ ¬ Fits (n.tdiv d) then .error .divideError
      else .ok (w.ofInt (n.tdiv d), w.ofInt (n.tmod d))) :
    Divided w read Fits n d answer where
  fault := by
    rw [h]
    split_ifs with hno
    · exact iff_of_true rfl hno
    · exact iff_of_false nofun hno
  value := by
    intro hd hfits
    refine ⟨_, _, h.trans (if_neg (not_or.2 ⟨hd, not_not.2 hfits⟩)), ?_, ?_, ?_⟩
    · exact Width.truncate_eq_self (w.toNat_ofInt_lt _)
    · exact Width.truncate_eq_self (w.toNat_ofInt_lt _)
    · rw [hread _ hfits, hread _ (hremainder hd)]
      exact isQuotient_tdiv n hd

/-- There is no other fault. -/
theorem Divided.error_or_ok {read : UInt32 → ℤ} {Fits : ℤ → Prop}
    {answer : Except Fault (UInt32 × UInt32)} (h : Divided w read Fits n d answer) :
    answer = .error .divideError ∨ ∃ p, answer = .ok p := by
  by_cases hno : d = 0 ∨ ¬ Fits (n.tdiv d)
  · exact .inl (h.fault.2 hno)
  · obtain ⟨hd, hfits⟩ := not_or.1 hno
    obtain ⟨q, r, hok, -⟩ := h.value hd (not_not.1 hfits)
    exact .inr ⟨_, hok⟩

/-- A product that is divided by one factor gives the other one. -/
theorem Divided.eq_of_mul {read : UInt32 → ℤ} {Fits : ℤ → Prop} {a : UInt32}
    {answer : Except Fault (UInt32 × UInt32)} (h : Divided w read Fits (read a * d) d answer)
    (hread : ∀ x y, w.truncate x = x → w.truncate y = y → read x = read y → x = y)
    (hzero : read 0 = 0) (hd : d ≠ 0) (ha : w.truncate a = a) (hfits : Fits (read a)) :
    answer = .ok (a, 0) := by
  obtain ⟨q, r, hok, hq, hr, hquotient⟩ := h.value hd (by rwa [Int.mul_tdiv_cancel _ hd])
  obtain ⟨hvalue, hrest⟩ := hquotient.of_mul hd
  have hnone : w.truncate 0 = 0 := UInt32.zero_and
  rw [hok, hread q a hq ha hvalue, hread r 0 hr hnone (hrest.trans hzero.symm)]

/-- The unsigned division on numbers. -/
theorem div_eq (w : Width) (n : UInt64) (d : UInt32) :
    div w n d = if (w.unsigned d : ℤ) = 0 ∨
        ¬ w.InUnsignedRange ((n.toNat : ℤ).tdiv (w.unsigned d)) then .error .divideError
      else .ok (w.ofInt ((n.toNat : ℤ).tdiv (w.unsigned d)),
        w.ofInt ((n.toNat : ℤ).tmod (w.unsigned d))) := by
  have hd : (w.truncate d).toUInt64.toNat = w.unsigned d := UInt32.toNat_toUInt64 _
  have hmask : w.mask.toUInt64.toNat = w.modulus - 1 :=
    (UInt32.toNat_toUInt64 _).trans w.mask_toNat
  have hpos := w.modulus_pos
  have hle := w.modulus_le
  have hlt := w.unsigned_lt d
  rw [← Int.ofNat_tdiv, ← Int.ofNat_tmod]
  have hzero : ((w.truncate d).toUInt64 == 0) = true ↔ (w.unsigned d : ℤ) = 0 := by
    rw [beq_iff_eq, ← UInt64.toNat_inj, hd, Int.natCast_eq_zero]
    rfl
  have hover : w.mask.toUInt64 < n / (w.truncate d).toUInt64 ↔
      ¬ w.InUnsignedRange (n.toNat / w.unsigned d : ℕ) := by
    rw [UInt64.lt_iff_toNat_lt, UInt64.toNat_div, hd, hmask, Width.InUnsignedRange]
    generalize n.toNat / w.unsigned d = q
    omega
  by_cases h0 : (w.unsigned d : ℤ) = 0
  · rw [if_pos (.inl h0), div, if_pos (hzero.2 h0)]
  by_cases h1 : w.InUnsignedRange (n.toNat / w.unsigned d : ℕ)
  · have hsmall := Nat.mod_lt n.toNat (show 0 < w.unsigned d by omega)
    have hquotient : (n / (w.truncate d).toUInt64).toUInt32 =
        w.ofInt (n.toNat / w.unsigned d : ℕ) := by
      rw [← hd, ← UInt64.toNat_div]
      refine Width.toUInt32_eq_ofInt ?_
      rw [UInt64.toNat_div, hd]
      exact_mod_cast h1.2
    have hremainder : (n % (w.truncate d).toUInt64).toUInt32 =
        w.ofInt (n.toNat % w.unsigned d : ℕ) := by
      rw [← hd, ← UInt64.toNat_mod]
      refine Width.toUInt32_eq_ofInt ?_
      rw [UInt64.toNat_mod, hd]
      exact hsmall.trans hlt
    rw [if_neg (not_or.2 ⟨h0, not_not.2 h1⟩), div, if_neg (mt hzero.1 h0),
      if_neg (fun h => hover.1 h h1), hquotient, hremainder]
  · rw [if_pos (.inr h1), div, if_neg (mt hzero.1 h0), if_pos (hover.2 h1)]

/-- The unsigned division. -/
theorem divided_div (w : Width) (n : UInt64) (d : UInt32) :
    Divided w (fun x => w.unsigned x) w.InUnsignedRange n.toNat (w.unsigned d) (div w n d) := by
  refine .of_eq (fun i hi => ?_) (fun hd => ?_) (div_eq w n d)
  · rw [Width.unsigned_eq, Nat.mod_eq_of_lt (w.toNat_ofInt_lt i), w.toNat_ofInt]
    exact Int.emod_eq_of_lt hi.1 hi.2
  · have hlt := w.unsigned_lt d
    have hsmall := Nat.mod_lt n.toNat (show 0 < w.unsigned d by omega)
    rw [← Int.ofNat_tmod, Width.InUnsignedRange]
    omega

/-- The signed division. -/
theorem divided_idiv (w : Width) (n : UInt64) (d : UInt32) :
    Divided w w.signed w.InSignedRange (signedDividend w n) (w.signed d) (idiv w n d) := by
  refine .of_eq (fun i hi => (w.signed_ofInt_eq_iff i).2 hi) (fun hd => ?_) ?_
  · have hsmall := (isQuotient_tdiv (signedDividend w n) hd).small.trans_le (w.abs_signed_le d)
    rw [abs_lt] at hsmall
    exact ⟨hsmall.1.le, hsmall.2⟩
  · have hover : (w.signed (w.ofInt ((signedDividend w n).tdiv (w.signed d))) !=
        (signedDividend w n).tdiv (w.signed d)) = true ↔
        ¬ w.InSignedRange ((signedDividend w n).tdiv (w.signed d)) := by
      rw [bne_iff_ne, ne_eq, w.signed_ofInt_eq_iff]
    unfold idiv
    simp only [hover, beq_iff_eq]
    by_cases h0 : w.signed d = 0
    · rw [if_pos h0, if_pos (.inl h0)]
    by_cases h1 : w.InSignedRange ((signedDividend w n).tdiv (w.signed d))
    · rw [if_neg h0, if_neg (not_not.2 h1), if_neg (not_or.2 ⟨h0, not_not.2 h1⟩)]
    · rw [if_neg h0, if_pos h1, if_pos (.inr h1)]

/-! ## Products -/

theorem unsigned_mul_lt (w : Width) (a b : UInt32) :
    w.unsigned a * w.unsigned b < w.modulus * w.modulus :=
  Nat.mul_lt_mul'' (w.unsigned_lt a) (w.unsigned_lt b)

theorem abs_signed_mul_le (w : Width) (a b : UInt32) :
    |w.signed a * w.signed b| ≤ w.half * w.half := by
  rw [abs_mul]
  exact mul_le_mul (w.abs_signed_le a) (w.abs_signed_le b) (abs_nonneg _) (by omega)

/-- No product with a sign needs more than 64 bits. -/
theorem signed_mul_bounds (w : Width) (a b : UInt32) :
    -2 ^ 63 ≤ w.signed a * w.signed b ∧ w.signed a * w.signed b < 2 ^ 63 := by
  have hsquare : (w.half : ℤ) * w.half < 2 ^ 63 := by cases w <;> decide
  obtain ⟨hlow, hhigh⟩ := abs_le.1 (abs_signed_mul_le w a b)
  exact ⟨by omega, by omega⟩

/-- The halves of an unsigned product; nothing is lost on the way. -/
theorem mul_equation (f : Flags) (w : Width) (a b : UInt32) :
    let p := (mul f w a b).1
    w.truncate p.1 = p.1 ∧ w.truncate p.2 = p.2 ∧
      p.2.toNat * w.modulus + p.1.toNat = w.unsigned a * w.unsigned b := by
  intro p
  refine ⟨w.truncate_truncate _, w.truncate_truncate _, ?_⟩
  have hlt := unsigned_mul_lt w a b
  have hdvd : w.modulus ∣ 2 ^ 32 := by cases w <;> decide
  have hproduct : ((w.truncate a).toUInt64 * (w.truncate b).toUInt64).toNat =
      w.unsigned a * w.unsigned b := by
    have hsquare := Nat.mul_le_mul w.modulus_le w.modulus_le
    rw [UInt64.toNat_mul, UInt32.toNat_toUInt64, UInt32.toNat_toUInt64]
    exact Nat.mod_eq_of_lt (hlt.trans_le hsquare)
  have hlow : p.1.toNat = w.unsigned a * w.unsigned b % w.modulus := by
    change (w.truncate (UInt64.toUInt32 _)).toNat = _
    rw [Width.toNat_truncate, UInt64.toNat_toUInt32, hproduct, Nat.mod_mod_of_dvd _ hdvd]
  have hhigh : p.2.toNat = w.unsigned a * w.unsigned b / w.modulus := by
    have hbits : (UInt64.ofNat w.bits).toNat % 64 = w.bits := by cases w <;> rfl
    change (w.truncate (UInt64.toUInt32 (_ >>> UInt64.ofNat w.bits))).toNat = _
    rw [Width.toNat_truncate, UInt64.toNat_toUInt32, UInt64.toNat_shiftRight, hbits, hproduct,
      Nat.shiftRight_eq_div_pow, ← Width.modulus_eq, Nat.mod_mod_of_dvd _ hdvd]
    exact Nat.mod_eq_of_lt (Nat.div_lt_of_lt_mul hlt)
  rw [hlow, hhigh, Nat.mul_comm, Nat.div_add_mod]

/-- The carry and the overflow flag tell whether the upper half is needed. -/
theorem flags_mul (f : Flags) (w : Width) (a b : UInt32) :
    (mul f w a b).2 = { f with
      carry := (mul f w a b).1.2 != 0
      overflow := (mul f w a b).1.2 != 0 } := rfl

/-- The halves of a signed product. -/
theorem imul_equation (f : Flags) (w : Width) (a b : UInt32) :
    let p := (imul f w a b).1
    w.truncate p.1 = p.1 ∧ w.truncate p.2 = p.2 ∧
      w.signed p.2 * w.modulus + p.1.toNat = w.signed a * w.signed b := by
  intro p
  have hrange : w.InSignedRange (w.signed a * w.signed b / w.modulus) := by
    obtain ⟨hlow, hhigh⟩ := abs_le.1 (abs_signed_mul_le w a b)
    generalize w.signed a * w.signed b = i at *
    cases w <;> simp only [Width.InSignedRange, Width.half, Width.modulus, Width.bits] at * <;> omega
  refine ⟨Width.truncate_eq_self (w.toNat_ofInt_lt _), Width.truncate_eq_self (w.toNat_ofInt_lt _),
    ?_⟩
  change w.signed (w.ofInt (w.signed a * w.signed b / w.modulus)) * w.modulus +
    (w.ofInt (w.signed a * w.signed b)).toNat = _
  rw [(w.signed_ofInt_eq_iff _).2 hrange, w.toNat_ofInt, Int.mul_comm, Int.mul_ediv_add_emod]

/-- The carry and the overflow flag tell whether a signed product exceeds the width. -/
theorem flags_imul (f : Flags) (w : Width) (a b : UInt32) :
    (imul f w a b).2 = { f with
      carry := !decide (w.InSignedRange (w.signed a * w.signed b))
      overflow := !decide (w.InSignedRange (w.signed a * w.signed b)) } := by
  have hexceeds : (w.signed (w.ofInt (w.signed a * w.signed b)) != w.signed a * w.signed b) =
      !decide (w.InSignedRange (w.signed a * w.signed b)) := by
    rw [← decide_not, Bool.eq_iff_iff, bne_iff_ne, ne_eq, w.signed_ofInt_eq_iff, decide_eq_true_iff]
  rw [← hexceeds]
  rfl

/-- The halves of a product are divided back. -/
theorem div_of_product {w : Width} {n : UInt64} {a d : UInt32} (ha : w.truncate a = a)
    (hd : w.unsigned d ≠ 0) (hn : n.toNat = w.unsigned a * w.unsigned d) :
    div w n d = .ok (a, 0) := by
  have hdivided := divided_div w n d
  rw [hn, Int.natCast_mul] at hdivided
  refine hdivided.eq_of_mul (fun x y hx hy h => ?_) ?_ (by exact_mod_cast hd) ha ?_
  · rw [← hx, ← hy, ← UInt32.toNat_inj]
    exact_mod_cast h
  · rw [Width.unsigned_eq, UInt32.toNat_zero, Nat.zero_mod, Int.natCast_zero]
  · exact ⟨by omega, by exact_mod_cast w.unsigned_lt a⟩

theorem idiv_of_product {w : Width} {n : UInt64} {a d : UInt32} (ha : w.truncate a = a)
    (hd : w.signed d ≠ 0) (hn : signedDividend w n = w.signed a * w.signed d) :
    idiv w n d = .ok (a, 0) := by
  have hdivided := divided_idiv w n d
  rw [hn] at hdivided
  refine hdivided.eq_of_mul (fun x y hx hy h => ?_) ?_ hd ha (w.inSignedRange_signed a)
  · rw [← hx, ← hy]
    exact Width.signed_inj.1 h
  · cases w <;> rfl

/-- A pair of words with a sign is its upper one with a sign, and its lower one without. -/
theorem signedDividend_pair {w : Width} {n : UInt64} {lo hi : UInt32} (hlo : w.truncate lo = lo)
    (hhi : w.truncate hi = hi) (hn : n.toNat = hi.toNat * w.modulus + lo.toNat) :
    signedDividend w n = w.signed hi * w.modulus + lo.toNat := by
  have hl : w.unsigned lo = lo.toNat := congrArg UInt32.toNat hlo
  have hh : w.unsigned hi = hi.toNat := congrArg UInt32.toNat hhi
  have hlt := w.unsigned_lt lo
  have hlt' := w.unsigned_lt hi
  rw [hl] at hlt
  rw [hh] at hlt'
  rw [signedDividend, Int.bmod_def, hn, Width.signed_eq, hh]
  generalize lo.toNat = l at *
  generalize hi.toNat = h at *
  cases w <;> simp only [Width.half, Width.modulus, Width.bits] at * <;> split_ifs <;> omega

end Alu

end Ia32
