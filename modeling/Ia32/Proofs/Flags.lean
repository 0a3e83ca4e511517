/-
  The flags as a word, bit by bit.

  Main definitions:
  - `Flags.defined` : the positions of the defined flags

  Main statements:
  - `Flags.bits_or_defined` : a word of flags has no other bits
  - `Flags.restore_dword`, `Flags.restore_word` : the flags that come back from a stored image
-/
import Ia32.Flags
import Mathlib.Tactic.Common

namespace Ia32.Flags

/-! ## Defined bits -/

/-- The positions of the defined flags. -/
def defined : UInt32 := 0x3F7FD5

theorem place_or_of_mem {n m : UInt32} (h : 1 <<< n ||| m = m) (b : Bool) :
    place b n ||| m = m := by
  cases b with
  | true => exact h
  | false => exact UInt32.zero_or

/-- A word of flags has no other bits. -/
theorem bits_or_defined (f : Flags) : f.bits ||| defined = defined := by
  have hprivilege : ∀ p : BitVec 2, UInt32.ofNat p.toNat <<< 12 ||| defined = defined := by decide
  simp (disch := decide) only [bits, UInt32.or_assoc, place_or_of_mem, hprivilege]

/-! ## Bits of a word -/

theorem bit_eq_getLsbD (x n : UInt32) : bit x n = x.toBitVec.getLsbD (n.toNat % 32) := by
  have h : ((x >>> n) &&& 1).toBitVec =
      BitVec.setWidth 32 (BitVec.ofBool (x.toBitVec.getLsbD (n.toNat % 32))) := by
    simp [BitVec.and_one_eq_setWidth_ofBool_getLsbD]
  unfold bit
  cases hb : x.toBitVec.getLsbD (n.toNat % 32) with
  | false =>
    rw [hb] at h
    have hzero : (x >>> n) &&& 1 = 0 := UInt32.toBitVec_inj.1 h
    rw [hzero]
    rfl
  | true =>
    rw [hb] at h
    have hone : (x >>> n) &&& 1 = 1 := UInt32.toBitVec_inj.1 h
    rw [hone]
    rfl

theorem bit_or (x y n : UInt32) : bit (x ||| y) n = (bit x n || bit y n) := by
  simp [bit_eq_getLsbD]

theorem bit_place (b : Bool) {m : UInt32} (hm : m.toNat < 32) (n : UInt32) :
    bit (place b m) n = (b && m.toNat == n.toNat % 32) := by
  cases b with
  | false => simp [place, bit_eq_getLsbD]
  | true =>
    have hn : n.toNat % 32 < 32 := Nat.mod_lt _ (by decide)
    rw [bit_eq_getLsbD, Bool.eq_iff_iff]
    simp only [place, ↓reduceIte, UInt32.toBitVec_shiftLeft, BitVec.shiftLeft_eq',
      BitVec.getLsbD_shiftLeft, hn, UInt32.toBitVec_one, BitVec.getLsbD_one]
    simp [Nat.mod_eq_of_lt hm]
    omega

/-- A merged word has the low bits of the one and the high bits of the other. -/
theorem bit_merge_word (x y n : UInt32) :
    bit (Width.merge .word x y) n = if n.toNat % 32 < 16 then bit y n else bit x n := by
  have hmask : ∀ i < 32, (0xFFFF : UInt32).toBitVec.getLsbD i = decide (i < 16) := by decide
  have hn : n.toNat % 32 < 32 := Nat.mod_lt _ (by decide)
  simp only [bit_eq_getLsbD, Width.merge, Width.mask, UInt32.toBitVec_or, UInt32.toBitVec_and,
    UInt32.toBitVec_not, BitVec.getLsbD_or, BitVec.getLsbD_and, BitVec.getLsbD_not, hmask _ hn]
  by_cases h : n.toNat % 32 < 16
  · simp [h]
  · simp [h, hn]

/-! ## Images -/

/-- The privilege level occupies two positions. -/
theorem place_privilege (p : BitVec 2) : UInt32.ofNat p.toNat <<< 12 =
    place (p.getLsbD 0) 12 ||| place (p.getLsbD 1) 13 := by
  revert p
  decide

theorem getLsbD_privilege (x : UInt32) {i : Nat} (hi : i < 2) :
    (BitVec.ofNat 2 (x >>> 12).toNat).getLsbD i = x.toBitVec.getLsbD (12 + i) := by
  rw [BitVec.getLsbD_ofNat, ← UInt32.toNat_toBitVec, BitVec.testBit_toNat]
  simp [hi]

theorem ofNat_privilege {x : UInt32} {p : BitVec 2} (h0 : p.getLsbD 0 = bit x 12)
    (h1 : p.getLsbD 1 = bit x 13) : BitVec.ofNat 2 (x >>> 12).toNat = p := by
  apply BitVec.eq_of_getLsbD_eq
  intro i hi
  rw [getLsbD_privilege x hi]
  obtain rfl | rfl : i = 0 ∨ i = 1 := by omega
  · rw [h0, bit_eq_getLsbD]; rfl
  · rw [h1, bit_eq_getLsbD]; rfl

/-- The level is read from its two positions. -/
theorem ofNat_privilege_congr {x y : UInt32} (h0 : bit x 12 = bit y 12)
    (h1 : bit x 13 = bit y 13) :
    BitVec.ofNat 2 (x >>> 12).toNat = BitVec.ofNat 2 (y >>> 12).toNat := by
  apply ofNat_privilege
  · rw [getLsbD_privilege y (by decide), h0, bit_eq_getLsbD]; rfl
  · rw [getLsbD_privilege y (by decide), h1, bit_eq_getLsbD]; rfl

theorem ofBits_bits (f : Flags) : ofBits f.bits = f := by
  have hprivilege : BitVec.ofNat 2 (f.bits >>> 12).toNat = f.privilege := by
    apply ofNat_privilege
    · simp (disch := decide) only [bits, place_privilege, bit_or, bit_place]
      simp
    · simp (disch := decide) only [bits, place_privilege, bit_or, bit_place]
      simp
  unfold ofBits
  rw [hprivilege]
  simp (disch := decide) only [bits, place_privilege, bit_or, bit_place]
  simp

/-- Words that agree but for the reserved bit hold the same flags. -/
theorem ofBits_congr {x y : UInt32} (h : ∀ n : UInt32, n.toNat % 32 ≠ 1 → bit x n = bit y n) :
    ofBits x = ofBits y := by
  have hprivilege := ofNat_privilege_congr (h 12 (by decide)) (h 13 (by decide))
  simp (disch := decide) only [ofBits, h, hprivilege]

theorem ofBits_image (f : Flags) : ofBits f.image = f := by
  have hreserved (n : UInt32) (hn : n.toNat % 32 ≠ 1) : bit f.image n = bit f.bits n := by
    have hone : bit 2 n = false := by
      have hplace : bit (place true 1) n = (true && (1 : UInt32).toNat == n.toNat % 32) :=
        bit_place true (by decide) n
      rw [show (2 : UInt32) = place true 1 from rfl, hplace]
      simpa using hn.symm
    rw [image, bit_or, hone, Bool.or_false]
  rw [ofBits_congr hreserved, ofBits_bits]

/-- The flags that a merged word holds: those of the upper half are old. -/
theorem ofBits_merge_word (x y : UInt32) : ofBits (Width.merge .word x y) =
    { ofBits y with
      resume := (ofBits x).resume
      virtual8086 := (ofBits x).virtual8086
      alignment := (ofBits x).alignment
      virtualInterrupt := (ofBits x).virtualInterrupt
      virtualPending := (ofBits x).virtualPending
      identification := (ofBits x).identification } := by
  have hprivilege := ofNat_privilege_congr (x := Width.merge .word x y)
    ((bit_merge_word x y 12).trans (if_pos (by decide)))
    ((bit_merge_word x y 13).trans (if_pos (by decide)))
  unfold ofBits
  rw [hprivilege]
  simp [bit_merge_word]

/-- A doubleword image brings back all flags but the resume and the virtual-8086 flag. -/
theorem restore_dword (g f : Flags) : g.restore .dword (Width.truncate .dword f.image) =
    { f with resume := g.resume, virtual8086 := g.virtual8086 } := by
  simp only [restore, Width.truncate_dword, ofBits_image]

/-- A word image brings back the lower half only. -/
theorem restore_word (g f : Flags) : g.restore .word (Width.truncate .word f.image) =
    { f with
      resume := g.resume
      virtual8086 := g.virtual8086
      alignment := g.alignment
      virtualInterrupt := g.virtualInterrupt
      virtualPending := g.virtualPending
      identification := g.identification } := by
  have hmerge : Width.merge .word g.bits (Width.truncate .word f.image) =
      Width.merge .word g.bits f.image :=
    Width.ext_mask (w := .word) fun i hi => by simp +contextual [Width.merge, Width.truncate]
  simp only [restore, hmerge, ofBits_merge_word, ofBits_image, ofBits_bits]

end Ia32.Flags
