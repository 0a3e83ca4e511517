/-
  The descriptor table, looked at more than once.

  Looking a selector up may mark its table entry.  No descriptor that is cached afterwards differs
  for that from the one that would have been cached before.

  Main definitions:
  - `EntryCovers` : the bytes of memory that a table entry is decoded from
  - `Cpu.Marks` : the byte that looking up a selector may change

  Main statements:
  - `System.descriptorAt_congr` : a descriptor depends on its own bytes only
  - `System.cachedAt_lookedUp` : the mark of one entry does not change what selectors stand for
  - `System.byte_lookedUp` : what looking a selector up changes
-/
import Ia32.Proofs.Flags
import Ia32.Proofs.Selection
import Ia32.Proofs.Memory

namespace Ia32

variable {δ : Type}

/-! ## The accessed bit of a descriptor -/

theorem UInt32.or_and_of_disjoint {m k : UInt32} (h : m &&& k = 0) (x : UInt32) :
    (x ||| m) &&& k = x &&& k := by
  apply UInt32.toBitVec_inj.1
  apply BitVec.eq_of_getLsbD_eq
  intro i hi
  have hbit : (m.toBitVec.getLsbD i && k.toBitVec.getLsbD i) = false := by
    have := congrArg (fun y => y.toBitVec.getLsbD i) h
    simpa using this
  simp only [UInt32.toBitVec_and, UInt32.toBitVec_or, BitVec.getLsbD_and, BitVec.getLsbD_or,
    Bool.and_or_distrib_right, hbit, Bool.or_false]

theorem Descriptor.ofEntry_accessed (lo hi : UInt32) :
    ofEntry lo (hi ||| 0x100) = { ofEntry lo hi with accessed := true } := by
  have hshift (n : UInt32) : (hi ||| 0x100) >>> n = hi >>> n ||| 0x100 >>> n := by
    simp [← UInt32.toBitVec_inj, BitVec.ushiftRight_or_distrib]
  have hbit (n : UInt32) (hn : 0x100 >>> n &&& 1 = 0) :
      (hi ||| 0x100) >>> n &&& 1 = hi >>> n &&& 1 := by
    rw [hshift]
    exact UInt32.or_and_of_disjoint hn _
  have hmask (k : UInt32) (hk : 0x100 &&& k = 0) : (hi ||| 0x100) &&& k = hi &&& k :=
    UInt32.or_and_of_disjoint hk hi
  have haccessed : Flags.bit (hi ||| 0x100) 8 = true := by
    rw [Flags.bit_or]
    exact Bool.or_true _
  have hprivilege : (hi ||| 0x100) >>> 13 = hi >>> 13 := (hshift 13).trans (UInt32.or_zero)
  simp only [ofEntry, hbit 9 rfl, hbit 11 rfl, hbit 12 rfl, hbit 15 rfl, hbit 22 rfl, hbit 23 rfl,
    hprivilege, hmask 0xFF rfl, hmask 0xFF000000 rfl, hmask 0xF0000 rfl]
  exact congrArg (fun b => { ofEntry lo hi with accessed := b }) haccessed

/-- A mark in the second byte of an element. -/
theorem Ram.read_dword_of_marked {m r : Ram} {b : UInt32}
    (h : ∀ j, r.byte j = if j = b.toNat + 1 then m.byte j ||| 1 else m.byte j) :
    r.read .dword b.toUInt64 = m.read .dword b.toUInt64 ||| 0x100 := by
  have h0 : r.read8 b.toUInt64 = m.read8 b.toUInt64 := by
    rw [read8_eq, read8_eq, UInt32.toNat_toUInt64, h, if_neg (by omega)]
  have h1 : r.read8 (b.toUInt64 + 1) = m.read8 (b.toUInt64 + 1) ||| 1 := by
    rw [read8_eq, read8_eq, toNat_address b 1 (by decide), h]
    exact if_pos rfl
  have h2 : r.read8 (b.toUInt64 + 2) = m.read8 (b.toUInt64 + 2) := by
    rw [read8_eq, read8_eq, toNat_address b 2 (by decide), h]
    exact if_neg (by simp)
  have h3 : r.read8 (b.toUInt64 + 3) = m.read8 (b.toUInt64 + 3) := by
    rw [read8_eq, read8_eq, toNat_address b 3 (by decide), h]
    exact if_neg (by simp)
  have hr : r.read .dword b.toUInt64 = r.read32 b.toUInt64 := rfl
  have hm : m.read .dword b.toUInt64 = m.read32 b.toUInt64 := rfl
  rw [hr, hm, read32_eq, read32_eq, h1, h2, h3, h0]
  generalize m.read8 (b.toUInt64 + 1) = x
  have hmark : (x ||| 1).toUInt32 <<< 8 = x.toUInt32 <<< 8 ||| 0x100 := by
    rw [UInt8.toUInt32_or, UInt32.shiftLeft_or]
    rfl
  have hswap (p q u v z : UInt32) : p ||| (q ||| z) ||| u ||| v = p ||| q ||| u ||| v ||| z := by
    ac_rfl
  rw [hmark]
  exact hswap ..

/-! ## Entries -/

/-- The bytes of memory that the table entry at address `a` is decoded from. -/
def EntryCovers (a : UInt32) (j : Nat) : Prop :=
  Width.dword.Covers a j ∨ Width.dword.Covers (a + 4) j

/-- The mark of a table entry lies in no other entry. -/
theorem not_entryCovers_of_ne {x y : UInt16} (base : UInt32)
    (h : x &&& 0xFFF8 ≠ y &&& 0xFFF8) :
    ¬ EntryCovers (base + (x &&& 0xFFF8).toUInt32)
      (base + (y &&& 0xFFF8).toUInt32 + accessByte).toNat := by
  have hne : (x &&& 0xFFF8).toNat ≠ (y &&& 0xFFF8).toNat := fun e => h (UInt16.toNat_inj.1 e)
  have hx := entryOffset_mod x
  have hy := entryOffset_mod y
  have hx' := entryOffset_le x
  have hy' := entryOffset_le y
  generalize x &&& 0xFFF8 = i at *
  generalize y &&& 0xFFF8 = j at *
  have hi : (base + i.toUInt32).toNat = (base.toNat + i.toNat) % 2 ^ 32 := by
    rw [UInt32.toNat_add, UInt16.toNat_toUInt32]
  have hi' : (base + i.toUInt32 + 4).toNat = ((base + i.toUInt32).toNat + 4) % 2 ^ 32 :=
    UInt32.toNat_add _ _
  have hj : (base + j.toUInt32).toNat = (base.toNat + j.toNat) % 2 ^ 32 := by
    rw [UInt32.toNat_add, UInt16.toNat_toUInt32]
  have hj' : (base + j.toUInt32 + accessByte).toNat = ((base + j.toUInt32).toNat + 5) % 2 ^ 32 :=
    UInt32.toNat_add _ _
  unfold EntryCovers Width.Covers
  rw [hi', hi, hj', hj]
  simp only [Width.bytes]
  omega

/-- Byte `j` holds the accessed bit of the table entry that a selector names. -/
def Cpu.Marks (c : Cpu) (selector : UInt16) (j : Nat) : Prop :=
  ∃ a, c.entryAddress selector = .ok a ∧ j = (a + accessByte).toNat

namespace System

variable {s t : System δ} {a : UInt32}

/-- A descriptor is decoded from its own bytes. -/
theorem descriptorAt_congr (h : ∀ j, EntryCovers a j → t.ram.byte j = s.ram.byte j) :
    t.descriptorAt a = s.descriptorAt a := by
  have hlo : t.readLinear a .dword = s.readLinear a .dword :=
    Ram.read_congr fun j hj => h j (.inl hj)
  have hhi : t.readLinear (a + 4) .dword = s.readLinear (a + 4) .dword :=
    Ram.read_congr fun j hj => h j (.inr hj)
  rw [descriptorAt, hlo, hhi, descriptorAt]

/-- A mark sets the accessed bit, or lies beyond the end of the address space, where the entry is
not decoded from. -/
theorem descriptorAt_markAccessed (s : System δ) (a : UInt32) :
    (s.markAccessed a).descriptorAt a = s.descriptorAt a ∨
      (s.markAccessed a).descriptorAt a = { s.descriptorAt a with accessed := true } := by
  have hbyte : accessByte.toNat = 5 := rfl
  have hfour : (4 : UInt32).toNat = 4 := rfl
  have ha := a.toNat_lt
  by_cases hwrap : (a + accessByte).toNat = (a + 4).toNat + 1
  · right
    have hlo : (s.markAccessed a).readLinear a .dword = s.readLinear a .dword := by
      refine Ram.read_congr fun j hj => ?_
      rw [s.byte_markAccessed, if_neg]
      rintro rfl
      unfold Width.Covers at hj
      simp only [UInt32.toNat_add, hbyte, Width.bytes] at hj
      omega
    have hhi : (s.markAccessed a).readLinear (a + 4) .dword =
        s.readLinear (a + 4) .dword ||| 0x100 :=
      Ram.read_dword_of_marked fun j => by rw [s.byte_markAccessed, hwrap]
    rw [descriptorAt, hlo, hhi, Descriptor.ofEntry_accessed]
    rfl
  · left
    refine descriptorAt_congr fun j hj => ?_
    rw [s.byte_markAccessed, if_neg]
    rintro rfl
    unfold EntryCovers Width.Covers at hj
    simp only [UInt32.toNat_add, hbyte, hfour, Width.bytes] at hj hwrap
    omega

theorem cachedAt_congr (h : ∀ j, EntryCovers a j → t.ram.byte j = s.ram.byte j) :
    t.cachedAt a = s.cachedAt a := by
  unfold cachedAt
  rw [descriptorAt_congr h]

/-- What is cached counts as accessed, whether or not its entry has been marked. -/
theorem cachedAt_markAccessed (s : System δ) (a : UInt32)
    (h : ((s.descriptorAt a).user && (s.descriptorAt a).present) = true) :
    (s.markAccessed a).cachedAt a = s.cachedAt a := by
  unfold cachedAt
  rcases s.descriptorAt_markAccessed a with e | e
  · rw [e]
  · rw [e]
    dsimp only
    rw [h]
    cases haccessed : (s.descriptorAt a).accessed with
    | false => rfl
    | true =>
      simp only [Bool.not_true, Bool.and_false, Bool.false_eq_true, ↓reduceIte]
      rw [← haccessed]

/-! ## Selectors that have been looked up -/

@[simp] theorem cpu_lookedUp (s : System δ) (selector : UInt16) :
    (s.lookedUp selector).cpu = s.cpu := by
  rcases s.lookedUp_eq selector with e | ⟨a, -, -, e⟩ <;> rw [e]
  rfl

@[simp] theorem cpu_consulted (s : System δ) (selector : UInt16) :
    (s.consulted selector).cpu = s.cpu := by
  unfold consulted
  split_ifs
  · exact s.cpu_lookedUp selector
  · rfl

@[simp] theorem cpu_gated (s : System δ) (v : UInt8) : (s.gated v).cpu = s.cpu := by
  unfold gated
  split_ifs
  · cases s.gateEntry v with
    | error f => rfl
    | ok e => exact s.cpu_lookedUp e.selector
  · rfl

@[simp] theorem io_lookedUp (s : System δ) (selector : UInt16) :
    (s.lookedUp selector).io = s.io := by
  rcases s.lookedUp_eq selector with e | ⟨a, -, -, e⟩ <;> rw [e]
  rfl

/-- What a selector stands for does not depend on which selectors have been looked up. -/
theorem cachedAt_lookedUp {x y : UInt16} (h : s.cpu.entryAddress x = .ok a) :
    (s.lookedUp y).cachedAt a = s.cachedAt a := by
  rcases s.lookedUp_eq y with e | ⟨b, hb, hmarked, e⟩
  · rw [e]
  · rw [e]
    obtain ⟨rfl, -⟩ := Cpu.entryAddress_ok h
    obtain ⟨rfl, -⟩ := Cpu.entryAddress_ok hb
    by_cases hxy : x &&& 0xFFF8 = y &&& 0xFFF8
    · rw [hxy]
      exact cachedAt_markAccessed s _ hmarked
    · refine cachedAt_congr fun j hj => ?_
      rw [s.byte_markAccessed, if_neg]
      rintro rfl
      exact not_entryCovers_of_ne _ hxy hj

/-- A selector stands for the same descriptor if its table entry is the same. -/
theorem descriptorOf_congr {selector : UInt16} (hgdtr : t.cpu.gdtr = s.cpu.gdtr)
    (h : ∀ a, s.cpu.entryAddress selector = .ok a → t.cachedAt a = s.cachedAt a) :
    t.descriptorOf selector = s.descriptorOf selector := by
  have haddress : t.cpu.entryAddress selector = s.cpu.entryAddress selector := by
    unfold Cpu.entryAddress
    rw [hgdtr]
  unfold descriptorOf
  rw [haddress]
  cases ha : s.cpu.entryAddress selector with
  | error f => rw [Except.map, Except.map]
  | ok a => exact congrArg Except.ok (h a ha)

theorem descriptorOf_consulted (s : System δ) (x y : UInt16) :
    (s.consulted y).descriptorOf x = s.descriptorOf x := by
  unfold consulted
  split_ifs
  · exact descriptorOf_congr (by rw [cpu_lookedUp]) fun a ha => cachedAt_lookedUp ha
  · rfl

theorem byte_lookedUp (s : System δ) (selector : UInt16) (j : Nat) :
    (s.lookedUp selector).ram.byte j = s.ram.byte j ∨
      s.cpu.Marks selector j ∧ (s.lookedUp selector).ram.byte j = s.ram.byte j ||| 1 := by
  rcases s.lookedUp_eq selector with e | ⟨a, ha, -, e⟩
  · left
    rw [e]
  · rw [e, s.byte_markAccessed]
    split_ifs with hj
    · exact .inr ⟨⟨a, ha, hj⟩, rfl⟩
    · exact .inl rfl

@[simp] theorem io_consulted (s : System δ) (selector : UInt16) :
    (s.consulted selector).io = s.io := by
  unfold consulted
  split_ifs
  · exact s.io_lookedUp selector
  · rfl

@[simp] theorem size_lookedUp (s : System δ) (selector : UInt16) :
    (s.lookedUp selector).ram.size = s.ram.size := by
  rcases s.lookedUp_eq selector with e | ⟨a, -, -, e⟩
  · rw [e]
  · rw [e, s.size_markAccessed]

@[simp] theorem size_consulted (s : System δ) (selector : UInt16) :
    (s.consulted selector).ram.size = s.ram.size := by
  unfold consulted
  split_ifs
  · exact s.size_lookedUp selector
  · rfl

end System

end Ia32
