/-
  Elements in memory: what a write leaves of them, and what is read back.

  Main definitions:
  - `Width.Covers` : the bytes of an element

  Main statements:
  - `Ram.read_write` : what is written is read back
  - `Ram.byte_write`, `Ram.read_congr` : other bytes stay, and so do elements made of them
  - `System.byte_markAccessed` : marking a table entry sets one bit of one byte
  - `Cpu.entryAddress_ok` : where the entries of the descriptor table lie
-/
import Ia32.Segmentation
import Mathlib.Tactic.Common

namespace Ia32

variable {δ : Type}

/-! ## Words and their bytes -/

theorem UInt16.join_bytes (v : UInt16) :
    v.toUInt8.toUInt16 ||| (v >>> 8).toUInt8.toUInt16 <<< 8 = v := by
  apply UInt16.toBitVec_inj.1
  apply BitVec.eq_of_getLsbD_eq
  intro i hi
  simp only [UInt16.toBitVec_or, UInt16.toBitVec_shiftLeft, UInt16.toBitVec_shiftRight,
    UInt8.toBitVec_toUInt16, UInt16.toBitVec_toUInt8, BitVec.getLsbD_or, BitVec.getLsbD_setWidth]
  by_cases h : i < 8
  · simp [h, hi]
  · have hback : 8 + (i - 8) = i := by omega
    have hlow : i - 8 < 8 := by omega
    simp [h, hlow, hi, hback]

theorem UInt32.join_bytes (v : UInt32) :
    v.toUInt8.toUInt32 ||| (v >>> 8).toUInt8.toUInt32 <<< 8 |||
      (v >>> 16).toUInt8.toUInt32 <<< 16 ||| (v >>> 24).toUInt8.toUInt32 <<< 24 = v := by
  apply UInt32.toBitVec_inj.1
  apply BitVec.eq_of_getLsbD_eq
  intro i hi
  simp only [UInt32.toBitVec_or, UInt32.toBitVec_shiftLeft, UInt32.toBitVec_shiftRight,
    UInt8.toBitVec_toUInt32, UInt32.toBitVec_toUInt8, BitVec.getLsbD_or, BitVec.getLsbD_setWidth]
  have hback {k : Nat} (hk : k ≤ i) : k + (i - k) = i := by omega
  have hlow {k : Nat} : i - k < 8 ↔ i < 8 + k := by omega
  by_cases h8 : i < 8
  · have h16 : i < 16 := by omega
    have h24 : i < 24 := by omega
    simp [h8, h16, h24, hi]
  by_cases h16 : i < 16
  · have h24 : i < 24 := by omega
    simp [h8, h16, h24, hi, hback, hlow, Nat.le_of_not_lt h8]
  by_cases h24 : i < 24
  · simp [h8, h16, h24, hi, hback, hlow, Nat.le_of_not_lt h16]
  · simp [h8, h16, h24, hi, hback, hlow, Nat.le_of_not_lt h24]

/-! ## Elements -/

/-- The bytes of an element of width `w` at address `a`. -/
def Width.Covers (w : Width) (a : UInt32) (j : Nat) : Prop := a.toNat ≤ j ∧ j < a.toNat + w.bytes

namespace Ram

variable {m m' : Ram} {w u : Width} {a b : UInt32}

theorem toNat_address (a : UInt32) (k : UInt64) (h : k.toNat < 4) :
    (a.toUInt64 + k).toNat = a.toNat + k.toNat := by
  have hlt := a.toNat_lt
  rw [UInt64.toNat_add, UInt32.toNat_toUInt64]
  omega

/-- An element is read from its own bytes. -/
theorem read_congr (h : ∀ j, w.Covers a j → m'.byte j = m.byte j) :
    m'.read w a.toUInt64 = m.read w a.toUInt64 := by
  have hbyte (k : UInt64) (hk : k.toNat < 4) (hw : k.toNat < w.bytes) :
      m'.read8 (a.toUInt64 + k) = m.read8 (a.toUInt64 + k) := by
    rw [read8_eq, read8_eq, toNat_address a k hk]
    exact h _ ⟨Nat.le_add_right _ _, Nat.add_lt_add_left hw _⟩
  have h0 := hbyte 0 (by decide) (by cases w <;> decide)
  rw [UInt64.add_zero] at h0
  cases w with
  | byte => simp only [read, h0]
  | word =>
    have h1 := hbyte 1 (by decide) (by decide)
    simp only [read, read16_eq, h0, h1]
  | dword =>
    have h1 := hbyte 1 (by decide) (by decide)
    have h2 := hbyte 2 (by decide) (by decide)
    have h3 := hbyte 3 (by decide) (by decide)
    simp only [read, read32_eq, h0, h1, h2, h3]

/-- An element that is read is as wide as asked for. -/
theorem truncate_read (m : Ram) (w : Width) (a : UInt64) : w.truncate (m.read w a) = m.read w a := by
  apply UInt32.toNat_inj.1
  rw [Width.toNat_truncate]
  apply Nat.mod_eq_of_lt
  cases w with
  | byte => exact (UInt8.toNat_toUInt32 _).symm ▸ UInt8.toNat_lt _
  | word => exact (UInt16.toNat_toUInt32 _).symm ▸ UInt16.toNat_lt _
  | dword => exact UInt32.toNat_lt _

/-- The bytes that a write puts into memory. -/
theorem write_eq (m : Ram) (w : Width) (a : UInt32) (v : UInt32) : m.write w a.toUInt64 v =
    match w with
    | .byte => m.setByte a.toNat v.toUInt8
    | .word => (m.setByte a.toNat v.toUInt16.toUInt8).setByte (a.toNat + 1)
        (v.toUInt16 >>> 8).toUInt8
    | .dword => (((m.setByte a.toNat v.toUInt8).setByte (a.toNat + 1) (v >>> 8).toUInt8).setByte
        (a.toNat + 2) (v >>> 16).toUInt8).setByte (a.toNat + 3) (v >>> 24).toUInt8 := by
  have h1 : (a.toUInt64 + 1).toNat = a.toNat + 1 := toNat_address a 1 (by decide)
  have h2 : (a.toUInt64 + 1 + 1).toNat = a.toNat + 2 := by
    rw [UInt64.add_assoc]
    exact toNat_address a 2 (by decide)
  have h3 : (a.toUInt64 + 1 + 1 + 1).toNat = a.toNat + 3 := by
    rw [UInt64.add_assoc, UInt64.add_assoc]
    exact toNat_address a 3 (by decide)
  cases w with
  | byte => rw [write, write8_eq, UInt32.toNat_toUInt64]
  | word => simp only [write, write16_eq, write8_eq, h1, UInt32.toNat_toUInt64]
  | dword => simp only [write, write32_eq, write8_eq, h1, h2, h3, UInt32.toNat_toUInt64]

@[simp] theorem size_write (m : Ram) (w : Width) (a : UInt32) (v : UInt32) :
    (m.write w a.toUInt64 v).size = m.size := by
  rw [write_eq]
  cases w <;> simp

/-- A write changes no other byte. -/
theorem byte_write {j : Nat} (v : UInt32) (h : ¬ w.Covers a j) :
    (m.write w a.toUInt64 v).byte j = m.byte j := by
  unfold Width.Covers at h
  rw [write_eq]
  cases w with
  | byte =>
    have h0 : a.toNat ≠ j := by simp only [Width.bytes] at h; omega
    simp [byte_setByte, h0]
  | word =>
    have h0 : a.toNat ≠ j := by simp only [Width.bytes] at h; omega
    have h1 : a.toNat + 1 ≠ j := by simp only [Width.bytes] at h; omega
    simp [byte_setByte, h0, h1]
  | dword =>
    have h0 : a.toNat ≠ j := by simp only [Width.bytes] at h; omega
    have h1 : a.toNat + 1 ≠ j := by simp only [Width.bytes] at h; omega
    have h2 : a.toNat + 2 ≠ j := by simp only [Width.bytes] at h; omega
    have h3 : a.toNat + 3 ≠ j := by simp only [Width.bytes] at h; omega
    simp [byte_setByte, h0, h1, h2, h3]

/-- A write changes no other element. -/
theorem read_write_of_disjoint (v : UInt32) (h : ∀ j, w.Covers a j → ¬ u.Covers b j) :
    (m.write u b.toUInt64 v).read w a.toUInt64 = m.read w a.toUInt64 :=
  read_congr fun j hj => byte_write v (h j hj)

/-- What is written is read back, if it lies in memory. -/
theorem read_write (v : UInt32) (h : a.toNat + w.bytes ≤ m.size) :
    (m.write w a.toUInt64 v).read w a.toUInt64 = w.truncate v := by
  have h1 : (a.toUInt64 + 1).toNat = a.toNat + 1 := toNat_address a 1 (by decide)
  have h2 : (a.toUInt64 + 2).toNat = a.toNat + 2 := toNat_address a 2 (by decide)
  have h3 : (a.toUInt64 + 3).toNat = a.toNat + 3 := toNat_address a 3 (by decide)
  rw [write_eq]
  cases w with
  | byte =>
    have hsize : a.toNat < m.size := h
    simp only [read, read8_eq, UInt32.toNat_toUInt64, byte_setByte, hsize, and_true, ↓reduceIte]
    apply UInt32.toNat_inj.1
    rw [Width.toNat_truncate]
    simp [Width.modulus]
  | word =>
    simp only [Width.bytes] at h
    have s0 : a.toNat < m.size := by omega
    have s1 : a.toNat + 1 < m.size := by omega
    simp only [read, read16_eq, read8_eq, UInt32.toNat_toUInt64, h1, byte_setByte, size_setByte,
      s0, s1, and_true, ↓reduceIte, Nat.add_eq_left, Nat.one_ne_zero, UInt16.join_bytes]
    apply UInt32.toNat_inj.1
    rw [Width.toNat_truncate]
    simp [Width.modulus]
  | dword =>
    simp only [Width.bytes] at h
    have s0 : a.toNat < m.size := by omega
    have s1 : a.toNat + 1 < m.size := by omega
    have s2 : a.toNat + 2 < m.size := by omega
    have s3 : a.toNat + 3 < m.size := by omega
    rw [Width.truncate_dword]
    simpa [read, read32_eq, read8_eq, UInt32.toNat_toUInt64, h1, h2, h3, byte_setByte,
      size_setByte, s0, s1, s2, s3] using UInt32.join_bytes v

end Ram

/-! ## Entries of the descriptor table -/

theorem System.ram_markAccessed (s : System δ) (a : UInt32) : (s.markAccessed a).ram =
    s.ram.setByte (a + accessByte).toNat (s.ram.byte (a + accessByte).toNat ||| 1) := by
  have haddr : (a + accessByte).toUInt64.toNat = (a + accessByte).toNat := UInt32.toNat_toUInt64 _
  change s.ram.write8 (a + accessByte).toUInt64
    ((s.ram.read8 (a + accessByte).toUInt64).toUInt32 ||| 1).toUInt8 = _
  rw [Ram.write8_eq, Ram.read8_eq, haddr, UInt32.toUInt8_or, UInt8.toUInt8_toUInt32]
  rfl

theorem System.byte_markAccessed (s : System δ) (a : UInt32) (j : Nat) :
    (s.markAccessed a).ram.byte j =
      if j = (a + accessByte).toNat then s.ram.byte j ||| 1 else s.ram.byte j := by
  rw [ram_markAccessed, Ram.byte_setByte]
  generalize (a + accessByte).toNat = k
  by_cases hj : j = k
  · subst hj
    by_cases hsize : j < s.ram.size
    · simp [hsize]
    · -- outside the memory all bits read as set
      simp [hsize, Ram.byte_of_size_le s.ram (Nat.not_lt.1 hsize)]
      rfl
  · simp [hj, Ne.symm hj]

@[simp] theorem System.size_markAccessed (s : System δ) (a : UInt32) :
    (s.markAccessed a).ram.size = s.ram.size :=
  Ram.size_write _ .byte _ _

/-- The offset of a table entry is a multiple of eight. -/
theorem entryOffset_mod (selector : UInt16) : (selector &&& 0xFFF8).toNat % 8 = 0 := by
  rw [UInt16.toNat_and]
  exact (Nat.and_mod_two_pow (n := 3)).trans (by simp)

theorem entryOffset_le (selector : UInt16) : (selector &&& 0xFFF8).toNat ≤ 0xFFF8 := by
  rw [UInt16.toNat_and]
  exact Nat.and_le_right

/-- An entry that a selector names begins at a multiple of eight and ends within the table. -/
theorem Cpu.entryAddress_ok {c : Cpu} {selector : UInt16} {a : UInt32}
    (h : c.entryAddress selector = .ok a) :
    a = c.gdtr.base + (selector &&& 0xFFF8).toUInt32 ∧
      (selector &&& 0xFFF8).toNat + 7 ≤ c.gdtr.limit.toNat := by
  unfold Cpu.entryAddress at h
  dsimp only at h
  split_ifs at h with _ hlimit
  cases h
  refine ⟨rfl, ?_⟩
  have hle := entryOffset_le selector
  rw [UInt32.lt_iff_toNat_lt, UInt32.toNat_add, UInt16.toNat_toUInt32, UInt16.toNat_toUInt32]
    at hlimit
  change ¬ c.gdtr.limit.toNat < (_ + 7) % 4294967296 at hlimit
  omega

end Ia32
