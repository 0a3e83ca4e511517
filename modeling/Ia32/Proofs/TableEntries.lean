/-
  Entries of the descriptor table: their layout, and what loading one of them does.

  Base and limit are scattered over the eight bytes of an entry, which are read as two doublewords.
  The byte that has the accessed bit has an address of its own, so that an entry at the end of the
  address space is marked elsewhere than it is read.

  Main definitions:
  - `EntryFields`, `EntryFields.raw` : the fields of an entry, and how they are laid out
  - `EntryFields.descriptor` : what the fields stand for

  Main statements:
  - `EntryFields.ofEntry_raw` : decoding gives back the fields
  - `System.noted_noted` : an entry is marked once
  - `Exec.loadDescriptor_idempotent` : what is loaded, and what is loaded again
-/
import Ia32.Proofs.Selectors

namespace Ia32

variable {δ : Type}

/-! ## The layout of an entry -/

/-- The fields of a table entry. -/
structure EntryFields where
  base : UInt32
  limit : BitVec 20
  access : UInt8
  flags : BitVec 4
  deriving DecidableEq, Repr

namespace EntryFields

/-- The entry as a number of eight bytes, from the last byte to the first one. -/
def raw (f : EntryFields) : BitVec 64 :=
  f.base.toBitVec.extractLsb' 24 8 ++ f.flags ++ f.limit.extractLsb' 16 4 ++ f.access.toBitVec ++
    f.base.toBitVec.extractLsb' 0 24 ++ f.limit.extractLsb' 0 16

/-- The lower four bytes. -/
def low (f : EntryFields) : UInt32 := .ofBitVec (f.raw.extractLsb' 0 32)

/-- The upper four bytes. -/
def high (f : EntryFields) : UInt32 := .ofBitVec (f.raw.extractLsb' 32 32)

/-- What the fields stand for.  A granular limit counts pages of 4 KiB. -/
def descriptor (f : EntryFields) : Descriptor :=
  let user := f.access.toBitVec.getLsbD 4
  { base := f.base
    limit := UInt32.ofNat
      (if f.flags.getLsbD 3 then f.limit.toNat * 4096 + 4095 else f.limit.toNat)
    code := user && f.access.toBitVec.getLsbD 3
    writable := user && f.access.toBitVec.getLsbD 1
    wide := f.flags.getLsbD 2
    accessed := f.access.toBitVec.getLsbD 0
    present := f.access.toBitVec.getLsbD 7
    user := user
    privilege := UInt8.ofNat (f.access.toNat / 32 % 4) }

/-- A field of an entry, bit by bit. -/
theorem getLsbD_raw (f : EntryFields) {i : Nat} (hi : i < 64) : f.raw.getLsbD i =
    if i < 16 then f.limit.getLsbD i
    else if i < 40 then f.base.toBitVec.getLsbD (i - 16)
    else if i < 48 then f.access.toBitVec.getLsbD (i - 40)
    else if i < 52 then f.limit.getLsbD (i - 32)
    else if i < 56 then f.flags.getLsbD (i - 52)
    else f.base.toBitVec.getLsbD (i - 32) := by
  have h24 : i - 16 < 24 ↔ i < 40 := by omega
  have h8 : i - 40 < 8 ↔ i < 48 := by omega
  have h4 : i - 48 < 4 ↔ i < 52 := by omega
  have h4' : i - 52 < 4 ↔ i < 56 := by omega
  have hend : i - 56 < 8 := by omega
  simp only [raw, BitVec.getLsbD_append, BitVec.getLsbD_extractLsb']
  simp only [Nat.zero_add, Nat.sub_sub, Nat.reduceAdd, h24, h8, h4, h4', hend]
  by_cases h16 : i < 16
  · simp [h16]
  by_cases h40 : i < 40
  · simp [h16, h40]
  by_cases h48 : i < 48
  · simp [h16, h40, h48]
  have hlimit : 16 + (i - 48) = i - 32 := by omega
  by_cases h52 : i < 52
  · simp [h16, h40, h48, h52, hlimit]
  by_cases h56 : i < 56
  · simp [h16, h40, h48, h52, h56]
  have hbase : 24 + (i - 56) = i - 32 := by omega
  simp [h16, h40, h48, h52, h56, hbase]

theorem getLsbD_low (f : EntryFields) {i : Nat} (hi : i < 32) : f.low.toBitVec.getLsbD i =
    if i < 16 then f.limit.getLsbD i else f.base.toBitVec.getLsbD (i - 16) := by
  have hlow : f.low.toBitVec.getLsbD i = f.raw.getLsbD i := by
    simp only [low, BitVec.getLsbD_extractLsb', hi, decide_true, Bool.true_and, Nat.zero_add]
  rw [hlow, f.getLsbD_raw (by omega), if_pos (by omega : i < 40)]

theorem getLsbD_high (f : EntryFields) {i : Nat} (hi : i < 32) : f.high.toBitVec.getLsbD i =
    if i < 8 then f.base.toBitVec.getLsbD (i + 16)
    else if i < 16 then f.access.toBitVec.getLsbD (i - 8)
    else if i < 20 then f.limit.getLsbD i
    else if i < 24 then f.flags.getLsbD (i - 20)
    else f.base.toBitVec.getLsbD i := by
  have hhigh : f.high.toBitVec.getLsbD i = f.raw.getLsbD (i + 32) := by
    simp only [high, BitVec.getLsbD_extractLsb', hi, decide_true, Bool.true_and, Nat.add_comm]
  have h40 : i + 32 < 40 ↔ i < 8 := by omega
  have h48 : i + 32 < 48 ↔ i < 16 := by omega
  have h52 : i + 32 < 52 ↔ i < 20 := by omega
  have h56 : i + 32 < 56 ↔ i < 24 := by omega
  rw [hhigh, f.getLsbD_raw (by omega), if_neg (by omega)]
  simp only [h40, h48, h52, h56, Nat.add_sub_cancel]
  rfl

variable (f : EntryFields)

theorem bit_high {n : UInt32} (hn : n.toNat < 32) :
    (f.high >>> n &&& 1 != 0) = f.high.toBitVec.getLsbD n.toNat := by
  have hbit := Flags.bit_eq_getLsbD f.high n
  rwa [Nat.mod_eq_of_lt hn] at hbit

/-- A bit of the access byte, as decoding picks it. -/
theorem bit_access {n : UInt32} (hlow : 8 ≤ n.toNat) (hhigh : n.toNat < 16) :
    (f.high >>> n &&& 1 != 0) = f.access.toBitVec.getLsbD (n.toNat - 8) := by
  rw [f.bit_high (by omega), f.getLsbD_high (by omega), if_neg (by omega), if_pos hhigh]

theorem bit_flags {n : UInt32} (hlow : 20 ≤ n.toNat) (hhigh : n.toNat < 24) :
    (f.high >>> n &&& 1 != 0) = f.flags.getLsbD (n.toNat - 20) := by
  rw [f.bit_high (by omega), f.getLsbD_high (by omega), if_neg (by omega), if_neg (by omega),
    if_neg (by omega), if_pos hhigh]

theorem base_raw : f.low >>> 16 ||| (f.high &&& 0xFF) <<< 16 ||| f.high &&& 0xFF000000 =
    f.base := by
  have hmiddle : ∀ i < 32, (0xFF : UInt32).toBitVec.getLsbD i = decide (i < 8) := by decide
  have hupper : ∀ i < 32, (0xFF000000 : UInt32).toBitVec.getLsbD i = decide (24 ≤ i) := by decide
  have hplaces : ((16 : UInt32).toBitVec % 32).toNat = 16 := rfl
  apply UInt32.toBitVec_inj.1
  apply BitVec.eq_of_getLsbD_eq
  intro i hi
  simp only [UInt32.toBitVec_or, UInt32.toBitVec_and, UInt32.toBitVec_shiftLeft,
    UInt32.toBitVec_shiftRight, BitVec.getLsbD_or, BitVec.getLsbD_and, BitVec.shiftLeft_eq',
    BitVec.ushiftRight_eq', BitVec.getLsbD_ushiftRight, BitVec.getLsbD_shiftLeft, hplaces,
    hupper i hi, hmiddle (i - 16) (by omega), f.getLsbD_high hi,
    f.getLsbD_high (i := i - 16) (by omega)]
  by_cases h16 : i < 16
  · have h24 : ¬ 24 ≤ i := by omega
    rw [f.getLsbD_low (by omega)]
    simp [h16, h24]
  have hlow : f.low.toBitVec.getLsbD (16 + i) = false := BitVec.getLsbD_of_ge _ _ (by omega)
  rw [hlow]
  by_cases h24 : i < 24
  · have h8 : i - 16 < 8 := by omega
    simp [h16, h24, h8, hi, Nat.sub_add_cancel (Nat.not_lt.1 h16), Nat.not_le.2 h24]
  · have h8 : ¬ i - 16 < 8 := by omega
    have h20 : ¬ i < 20 := by omega
    have hmask : 24 ≤ i := by omega
    rw [decide_eq_false h8, decide_eq_true hmask, if_neg (by omega : ¬ i < 8), if_neg h16,
      if_neg h20, if_neg h24]
    simp

theorem limit_raw : f.low &&& 0xFFFF ||| f.high &&& 0xF0000 = UInt32.ofNat f.limit.toNat := by
  have hlower : ∀ i < 32, (0xFFFF : UInt32).toBitVec.getLsbD i = decide (i < 16) := by decide
  have hupper : ∀ i < 32, (0xF0000 : UInt32).toBitVec.getLsbD i = decide (16 ≤ i ∧ i < 20) := by
    decide
  have hword : (UInt32.ofNat f.limit.toNat).toBitVec = f.limit.setWidth 32 := by
    rw [UInt32.toBitVec_ofNat', BitVec.ofNat_toNat]
  apply UInt32.toBitVec_inj.1
  apply BitVec.eq_of_getLsbD_eq
  intro i hi
  simp only [UInt32.toBitVec_or, UInt32.toBitVec_and, BitVec.getLsbD_or, BitVec.getLsbD_and,
    hlower i hi, hupper i hi, f.getLsbD_low hi, f.getLsbD_high hi, hword, BitVec.getLsbD_setWidth]
  by_cases h16 : i < 16
  · simp [h16, hi, Nat.not_le.2 h16]
  by_cases h20 : i < 20
  · have h8 : ¬ i < 8 := by omega
    have hmask : 16 ≤ i ∧ i < 20 := by omega
    rw [if_neg h16, if_neg h8, if_neg h16, if_pos h20, decide_eq_true hmask]
    simp [h16, hi]
  · have hbeyond : f.limit.getLsbD i = false := BitVec.getLsbD_of_ge _ _ (by omega)
    simp [h16, h20, hbeyond]

/-- Pages of 4 KiB, and the last byte of the last one. -/
theorem granular_limit : (UInt32.ofNat f.limit.toNat) <<< 12 ||| 0xFFF =
    UInt32.ofNat (f.limit.toNat * 4096 + 4095) := by
  have hlt := f.limit.isLt
  generalize f.limit.toNat = n at *
  have hjoin : 2 ^ 12 * n + 0xFFF = 2 ^ 12 * n ||| 0xFFF :=
    Nat.two_pow_add_eq_or_of_lt (by decide) n
  apply UInt32.toNat_inj.1
  have hshift : ((UInt32.ofNat n) <<< 12).toNat = 2 ^ 12 * n := by
    rw [UInt32.toNat_shiftLeft, UInt32.toNat_ofNat', Nat.mod_eq_of_lt (by omega : n < 2 ^ 32)]
    change n <<< 12 % 2 ^ 32 = 2 ^ 12 * n
    rw [Nat.shiftLeft_eq]
    omega
  rw [UInt32.toNat_or, hshift, UInt32.toNat_ofNat']
  exact hjoin.symm.trans (by omega)

theorem privilege_raw :
    (f.high >>> 13).toUInt8 &&& 3 = UInt8.ofNat (f.access.toNat / 32 % 4) := by
  have hmask : ∀ i < 8, (3 : UInt8).toBitVec.getLsbD i = decide (i < 2) := by decide
  have hplaces : ((13 : UInt32).toBitVec % 32).toNat = 13 := rfl
  have hlevel (i : Nat) : (f.access.toNat / 32 % 4).testBit i =
      (decide (i < 2) && f.access.toBitVec.getLsbD (i + 5)) := by
    change (f.access.toNat / 2 ^ 5 % 2 ^ 2).testBit i = _
    rw [Nat.testBit_mod_two_pow, Nat.testBit_div_two_pow]
    rfl
  apply UInt8.toBitVec_inj.1
  apply BitVec.eq_of_getLsbD_eq
  intro i hi
  rw [UInt8.toBitVec_ofNat', BitVec.getLsbD_ofNat, hlevel, decide_eq_true hi, Bool.true_and]
  simp only [UInt8.toBitVec_and, UInt32.toBitVec_toUInt8, UInt32.toBitVec_shiftRight,
    BitVec.getLsbD_and, BitVec.getLsbD_setWidth, BitVec.ushiftRight_eq',
    BitVec.getLsbD_ushiftRight, hplaces, hmask i hi]
  by_cases h2 : i < 2
  · have h8 : ¬ 13 + i < 8 := by omega
    have h16 : 13 + i < 16 := by omega
    have hback : 13 + i - 8 = i + 5 := by omega
    rw [f.getLsbD_high (by omega), if_neg h8, if_pos h16, hback]
    simp [h2, hi]
  · simp [h2]

/-- Decoding gives back the fields that an entry is made of. -/
theorem ofEntry_raw : Descriptor.ofEntry f.low f.high = f.descriptor := by
  simp only [Descriptor.ofEntry, base_raw, limit_raw, granular_limit, privilege_raw,
    f.bit_access (n := 8) (by decide) (by decide), f.bit_access (n := 9) (by decide) (by decide),
    f.bit_access (n := 11) (by decide) (by decide), f.bit_access (n := 12) (by decide) (by decide),
    f.bit_access (n := 15) (by decide) (by decide), f.bit_flags (n := 22) (by decide) (by decide),
    f.bit_flags (n := 23) (by decide) (by decide)]
  rw [descriptor, apply_ite UInt32.ofNat]
  rfl

/-- A limit does not overflow, even if it counts pages. -/
theorem toNat_limit_descriptor : f.descriptor.limit.toNat =
    if f.flags.getLsbD 3 then f.limit.toNat * 4096 + 4095 else f.limit.toNat := by
  have hlt := f.limit.isLt
  rw [descriptor, UInt32.toNat_ofNat']
  split_ifs <;> omega

end EntryFields

/-! ## Loading an entry -/

theorem Ram.setByte_byte (m : Ram) (i : Nat) : m.setByte i (m.byte i) = m := by
  unfold setByte
  split_ifs with hi
  · have hpages : (m.pages.modify (i / pageSize) fun p =>
        p.set (i % pageSize) (m.byte i) (offset_lt i)) = m.pages := by
      refine Array.ext (by simp) fun k hk hk' => ?_
      rw [Array.getElem_modify]
      split_ifs with hpage
      · subst hpage
        simp only [byte, hi, ↓reduceDIte]
        exact Vector.set_getElem_self _
      · rfl
    congr
  · rfl

namespace System

variable {s : System δ} {a : UInt32}

/-- A mark is made once, wherever it lies. -/
theorem markAccessed_markAccessed (s : System δ) (a : UInt32) :
    (s.markAccessed a).markAccessed a = s.markAccessed a := by
  have hbyte : (s.markAccessed a).ram.byte (a + accessByte).toNat ||| 1 =
      (s.markAccessed a).ram.byte (a + accessByte).toNat := by
    rw [s.byte_markAccessed, if_pos rfl, UInt8.or_assoc, UInt8.or_self]
  have hram : ((s.markAccessed a).markAccessed a).ram = (s.markAccessed a).ram := by
    rw [ram_markAccessed, hbyte, Ram.setByte_byte]
  exact congrArg (fun m => { s.markAccessed a with ram := m }) hram

/-- Loading an entry marks it or does nothing. -/
theorem noted_eq (s : System δ) (a : UInt32) : s.noted a = s ∨
    ((s.descriptorAt a).user && (s.descriptorAt a).present) = true ∧
      s.noted a = s.markAccessed a := by
  unfold noted
  dsimp only
  split_ifs with h
  · exact .inr ⟨(Bool.and_eq_true_iff.1 h).1, rfl⟩
  · exact .inl rfl

theorem cachedAt_eq (s : System δ) (a : UInt32) :
    let d := s.descriptorAt a
    s.cachedAt a = { d with accessed := d.accessed || (d.user && d.present) } := by
  intro d
  change (if d.user && d.present && !d.accessed then { d with accessed := true } else d) = _
  cases haccessed : d.accessed with
  | true =>
    rw [Bool.not_true, Bool.and_false, if_neg Bool.false_ne_true, Bool.true_or, ← haccessed]
  | false =>
    rw [Bool.not_false, Bool.and_true, Bool.false_or]
    cases hmarked : d.user && d.present with
    | true => rfl
    | false => rw [if_neg Bool.false_ne_true, ← haccessed]

theorem noted_noted (s : System δ) (a : UInt32) : (s.noted a).noted a = s.noted a := by
  rcases s.noted_eq a with h | ⟨-, h⟩
  · rw [h, h]
  · rw [h]
    rcases (s.markAccessed a).noted_eq a with h' | ⟨-, h'⟩
    · exact h'
    · rw [h', markAccessed_markAccessed]

theorem cachedAt_noted (s : System δ) (a : UInt32) : (s.noted a).cachedAt a = s.cachedAt a := by
  rcases s.noted_eq a with h | ⟨hmarked, h⟩
  · rw [h]
  · rw [h, s.cachedAt_markAccessed a hmarked]

theorem cpu_noted (s : System δ) (a : UInt32) : (s.noted a).cpu = s.cpu := by
  rcases s.noted_eq a with h | ⟨-, h⟩ <;> rw [h]
  rfl

theorem io_noted (s : System δ) (a : UInt32) : (s.noted a).io = s.io := by
  rcases s.noted_eq a with h | ⟨-, h⟩ <;> rw [h]
  rfl

theorem size_noted (s : System δ) (a : UInt32) : (s.noted a).ram.size = s.ram.size := by
  rcases s.noted_eq a with h | ⟨-, h⟩ <;> rw [h]
  exact s.size_markAccessed a

/-- The lowest bit of one byte is all that may change. -/
theorem byte_noted (s : System δ) (a : UInt32) (j : Nat) :
    (s.noted a).ram.byte j = s.ram.byte j ∨
      j = (a + accessByte).toNat ∧ (s.noted a).ram.byte j = s.ram.byte j ||| 1 := by
  rcases s.noted_eq a with h | ⟨-, h⟩
  · exact .inl (by rw [h])
  · rw [h, s.byte_markAccessed]
    split_ifs with hj
    · exact .inr ⟨hj, rfl⟩
    · exact .inl rfl

end System

namespace Exec

variable {s t : System δ} {selector : UInt16} {d : Descriptor}

/-- A descriptor is loaded if there is a table entry for the selector. -/
theorem run_loadDescriptor_of_ok {a : UInt32} (ha : s.cpu.entryAddress selector = .ok a) :
    (loadDescriptor selector).run s = .ok (s.cachedAt a) (s.noted a) := by
  rw [run_loadDescriptor, System.descriptorOf, System.fetched, ha]
  rfl

theorem entryAddress_of_loadDescriptor (h : (loadDescriptor selector).run s = .ok d t) :
    ∃ a, s.cpu.entryAddress selector = .ok a ∧ d = s.cachedAt a ∧ t = s.noted a := by
  cases ha : s.cpu.entryAddress selector with
  | error f =>
    rw [run_loadDescriptor, System.descriptorOf, System.fetched, ha] at h
    cases h
  | ok a =>
    rw [run_loadDescriptor_of_ok ha] at h
    cases h
    exact ⟨a, rfl, rfl, rfl⟩

/-- **Table entries.**  Decoding gives back the fields that an entry is made of, and no limit
overflows.  A descriptor that is loaded is decoded from the two doublewords of its entry, and counts
as accessed if it is one of a present code or data segment; nothing changes but the lowest bit of
one byte.  Loading it again gives the same descriptor and changes nothing at all, wherever the
entry lies and wherever it wraps around. -/
theorem loadDescriptor_idempotent :
    (∀ f : EntryFields, Descriptor.ofEntry f.low f.high = f.descriptor ∧
      f.descriptor.limit.toNat =
        if f.flags.getLsbD 3 then f.limit.toNat * 4096 + 4095 else f.limit.toNat) ∧
    ∀ (s t : System δ) (selector : UInt16) (d : Descriptor),
      (loadDescriptor selector).run s = .ok d t →
      let a := s.cpu.gdtr.base + UInt32.ofNat (8 * (selector.toNat / 8))
      let e := Descriptor.ofEntry (s.readLinear a .dword) (s.readLinear (a + 4) .dword)
      d = { e with accessed := e.accessed || (e.user && e.present) } ∧
        t.cpu = s.cpu ∧ t.io = s.io ∧ t.ram.size = s.ram.size ∧
        (∀ j, j ≠ (a + 5).toNat → t.ram.byte j = s.ram.byte j) ∧
        (t.ram.byte (a + 5).toNat = s.ram.byte (a + 5).toNat ∨
          t.ram.byte (a + 5).toNat = s.ram.byte (a + 5).toNat ||| 1) ∧
        (loadDescriptor selector).run t = .ok d t := by
  refine ⟨fun f => ⟨f.ofEntry_raw, f.toNat_limit_descriptor⟩, ?_⟩
  intro s t selector d h a e
  obtain ⟨b, hb, rfl, rfl⟩ := entryAddress_of_loadDescriptor h
  have hoffset : (selector &&& 0xFFF8).toUInt32 = UInt32.ofNat (8 * (selector.toNat / 8)) := by
    apply UInt32.toNat_inj.1
    have hlt := selector.toNat_lt
    rw [UInt16.toNat_toUInt32, entryOffset_eq, UInt32.toNat_ofNat']
    omega
  obtain rfl : b = a := by
    rw [(Cpu.entryAddress_ok hb).1, hoffset]
  refine ⟨?_, s.cpu_noted _, s.io_noted _, s.size_noted _, fun j hj => ?_, ?_, ?_⟩
  · exact s.cachedAt_eq a
  · rcases s.byte_noted a j with hsame | ⟨hmark, -⟩
    · exact hsame
    · exact absurd hmark hj
  · exact (s.byte_noted a _).imp_right (·.2)
  · have hb' : (s.noted a).cpu.entryAddress selector = .ok a := by rw [s.cpu_noted, hb]
    rw [run_loadDescriptor_of_ok hb', s.cachedAt_noted, s.noted_noted]

/-- The one segment is marked, and found marked. -/
theorem loadDescriptor_idempotent_oneSegment :
    let f : EntryFields := ⟨0, 0xFFFF, 0x92, 0⟩
    let s := oneSegment
    s.readLinear 8 .dword = f.low ∧ s.readLinear 12 .dword = f.high ∧
      ∃ t, (loadDescriptor 8).run s = .ok { f.descriptor with accessed := true } t ∧
        s.ram.byte 13 = 0x92 ∧ t.ram.byte 13 = 0x93 ∧
        (loadDescriptor 8).run t = .ok { f.descriptor with accessed := true } t := by
  intro f s
  have hlow : s.readLinear 8 .dword = f.low := by decide +kernel
  have hhigh : s.readLinear 12 .dword = f.high := by decide +kernel
  have hentry : s.cpu.entryAddress 8 = .ok 8 := by decide
  have hrun := run_loadDescriptor_of_ok hentry
  obtain ⟨hfields, hload⟩ := loadDescriptor_idempotent (δ := Unit)
  obtain ⟨hd, -, -, -, -, -, hagain⟩ := hload _ _ _ _ hrun
  have haddress : s.cpu.gdtr.base + UInt32.ofNat (8 * ((8 : UInt16).toNat / 8)) = 8 := by decide
  have hupper : (8 : UInt32) + 4 = 12 := by decide
  have hdescriptor : s.cachedAt 8 = { f.descriptor with accessed := true } := by
    have hmarked : (f.descriptor.accessed || (f.descriptor.user && f.descriptor.present)) =
        true := by decide +kernel
    rw [haddress, hupper, hlow, hhigh, (hfields f).1, hmarked] at hd
    exact hd
  rw [hdescriptor] at hrun hagain
  exact ⟨hlow, hhigh, _, hrun, by decide +kernel, by decide +kernel, hagain⟩

end Exec

end Ia32
