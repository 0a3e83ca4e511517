/-
  Strings of bits in memory.

  A register that numbers a bit counts, as a signed number, from a place in memory on, both ways.
  The instruction takes the word of memory that the bit lies in, and works on one bit of it; as
  words are little-endian, that is the bit one gets to by counting bytes.

  Main definitions:
  - `Ram.bit` : memory as one string of bits
  - `Instruction.TestsBit` : the instructions, by what they make of the bit
  - `Cpu.bitPlace` : where in memory a bit of the string is
  - `System.ReachesBit` : the word that a bit lies in is in memory

  Main statements:
  - `Ram.testBit_read`, `Ram.bit_write` : words and their bits
  - `Cpu.bitPlace_eq_iff` : when two numbers mean the same bit
  - `Exec.run_bitTest` : one instruction
  - `Exec.bit_tests_in_sequence` : two instructions
-/
import Ia32.Processor
import Ia32.Proofs.ByteMap
import Ia32.Proofs.Memory
import Ia32.Proofs.Operands
import Ia32.Proofs.Sums

namespace Ia32

variable {δ : Type}

/-! ## Memory as a string of bits -/

theorem testBit_littleEndian (bs : List UInt8) (n : Nat) :
    (littleEndian bs).testBit n = (bs[n / 8]?.getD 0).toNat.testBit (n % 8) := by
  induction bs generalizing n with
  | nil => simp [littleEndian]
  | cons b bs ih =>
    have hcons : littleEndian (b :: bs) = 2 ^ 8 * littleEndian bs + b.toNat := by
      rw [littleEndian, List.map_cons, Nat.ofDigits_cons, Nat.add_comm]
      rfl
    rw [hcons, Nat.testBit_two_pow_mul_add _ b.toNat_lt]
    by_cases hn : n < 8
    · have hfirst : n / 8 = 0 := by omega
      rw [if_pos hn, hfirst, Nat.mod_eq_of_lt hn]
      rfl
    · have hdiv : n / 8 = (n - 8) / 8 + 1 := by omega
      have hmod : n % 8 = (n - 8) % 8 := by omega
      rw [if_neg hn, ih, hdiv, hmod]
      rfl

namespace Ram

/-- Bit `k % 8` of byte `k / 8`. -/
def bit (m : Ram) (k : Nat) : Bool := (m.byte (k / 8)).toNat.testBit (k % 8)

variable {m m' : Ram} {w : Width} {a : UInt32}

/-- Memories with the same bits have the same bytes. -/
theorem byte_eq_of_bit (h : ∀ k, m'.bit k = m.bit k) (j : Nat) : m'.byte j = m.byte j := by
  apply UInt8.toNat_inj.1
  apply Nat.eq_of_testBit_eq
  intro i
  by_cases hi : i < 8
  · have hbit := h (8 * j + i)
    have hdiv : (8 * j + i) / 8 = j := by omega
    have hmod : (8 * j + i) % 8 = i := by omega
    rwa [bit, bit, hdiv, hmod] at hbit
  · have hpow : 2 ^ 8 ≤ 2 ^ i := Nat.pow_le_pow_right (by decide) (Nat.not_lt.1 hi)
    rw [Nat.testBit_lt_two_pow (Nat.lt_of_lt_of_le (m'.byte j).toNat_lt hpow),
      Nat.testBit_lt_two_pow (Nat.lt_of_lt_of_le (m.byte j).toNat_lt hpow)]

/-- The bits of a word are those from its address on. -/
theorem testBit_read (m : Ram) (a : UInt32) {n : Nat} (hn : n < w.bits) :
    (m.read w a.toUInt64).toNat.testBit n = m.bit (8 * a.toNat + n) := by
  have hbyte : n / 8 < w.bytes := by
    rw [Width.bits_eq_bytes] at hn
    omega
  have haddress : (a.toUInt64 + UInt64.ofNat (n / 8)).toNat = a.toNat + n / 8 := by
    have hbits := w.bits_le
    rw [Width.bits_eq_bytes] at hbits
    have hlt := a.toNat_lt
    rw [toNat_add_ofNat, UInt32.toNat_toUInt64]
    rw [UInt32.toNat_toUInt64]
    exact Nat.lt_of_lt_of_le (by omega : _ < 2 ^ 32 + 4) (by decide)
  have hdiv : (8 * a.toNat + n) / 8 = a.toNat + n / 8 := by omega
  have hmod : (8 * a.toNat + n) % 8 = n % 8 := by omega
  rw [toNat_read, testBit_littleEndian, readEach, List.getElem?_map,
    List.getElem?_range hbyte, bit, hdiv, hmod, ← haddress]
  rfl

/-- A word that is written lays its bits down from its address on. -/
theorem bit_write (h : a.toNat + w.bytes ≤ m.size) (v : UInt32) (k : Nat) :
    (m.write w a.toUInt64 v).bit k =
      if 8 * a.toNat ≤ k ∧ k < 8 * a.toNat + w.bits then v.toNat.testBit (k - 8 * a.toNat)
      else m.bit k := by
  have hbits := w.bits_eq_bytes
  split_ifs with hk
  · have hn : k - 8 * a.toNat < w.bits := by omega
    have hread := (m.write w a.toUInt64 v).testBit_read a hn
    rw [read_write v h, Width.toNat_truncate] at hread
    have hback : 8 * a.toNat + (k - 8 * a.toNat) = k := by omega
    rw [hback, Width.modulus_eq, Nat.testBit_mod_two_pow, decide_eq_true hn, Bool.true_and] at hread
    exact hread.symm
  · have hcovers : ¬ w.Covers a (k / 8) := by
      unfold Width.Covers
      omega
    rw [bit, byte_write v hcovers, bit]

end Ram

/-! ## One bit of a word -/

/-- What becomes of the bit itself. -/
def BitUpdate.onBit : BitUpdate → Bool → Bool
  | keep, b => b
  | set, _ => true
  | reset, _ => false
  | complement, b => !b

theorem UInt32.toNat_one_shiftLeft {n : Nat} (hn : n < 32) :
    ((1 : UInt32) <<< UInt32.ofNat n).toNat = 2 ^ n := by
  have hpow : 2 ^ n < 2 ^ 32 := Nat.pow_lt_pow_right (by decide) hn
  have hcount : (UInt32.ofNat n).toNat % 32 = n := by
    rw [UInt32.toNat_ofNat', Nat.mod_eq_of_lt (Nat.lt_trans hn (by decide)), Nat.mod_eq_of_lt hn]
  rw [UInt32.toNat_shiftLeft, hcount, UInt32.toNat_one, Nat.one_shiftLeft, Nat.mod_eq_of_lt hpow]

theorem UInt32.testBit_not (x : UInt32) {j : Nat} (hj : j < 32) :
    (~~~x).toNat.testBit j = !x.toNat.testBit j := by
  rw [← UInt32.toNat_toBitVec, ← UInt32.toNat_toBitVec, BitVec.testBit_toNat,
    BitVec.testBit_toNat, UInt32.toBitVec_not, BitVec.getLsbD_not, decide_eq_true hj,
    Bool.true_and]

/-- No bit but the one that is meant changes. -/
theorem BitUpdate.testBit_apply (u : BitUpdate) {n j : Nat} (hn : n < 32) (hj : j < 32)
    (x : UInt32) : (u.apply x (1 <<< UInt32.ofNat n)).toNat.testBit j =
      if j = n then u.onBit (x.toNat.testBit n) else x.toNat.testBit j := by
  have hmask : ((1 : UInt32) <<< UInt32.ofNat n).toNat.testBit j = decide (j = n) := by
    rw [UInt32.toNat_one_shiftLeft hn, Nat.testBit_two_pow]
    exact decide_eq_decide.2 eq_comm
  cases u with
  | keep => by_cases h : j = n <;> simp [apply, onBit, h]
  | set =>
    rw [apply, UInt32.toNat_or, Nat.testBit_or, hmask]
    by_cases h : j = n <;> simp [onBit, h]
  | reset =>
    rw [apply, UInt32.toNat_and, Nat.testBit_and, UInt32.testBit_not _ hj, hmask]
    by_cases h : j = n <;> simp [onBit, h]
  | complement =>
    rw [apply, UInt32.toNat_xor, Nat.testBit_xor, hmask]
    by_cases h : j = n <;> simp [onBit, h]

namespace System

variable {s : System δ} {u : BitUpdate} {w : Width} {a : UInt32} {n : Nat}

/-- Bit `n` of the word at address `a` is tested and updated. -/
def testBitAt (s : System δ) (u : BitUpdate) (w : Width) (a : UInt32) (n : Nat) : System δ :=
  let x := s.ram.read w a.toUInt64
  let mask : UInt32 := 1 <<< UInt32.ofNat n
  { s with
    cpu := { s.cpu with flags := { s.cpu.flags with carry := x &&& mask != 0 } }
    ram := if u = .keep then s.ram else s.ram.write w a.toUInt64 (u.apply x mask) }

theorem size_testBitAt (s : System δ) (u : BitUpdate) (w : Width) (a : UInt32) (n : Nat) :
    (s.testBitAt u w a n).ram.size = s.ram.size := by
  unfold testBitAt
  dsimp only
  split_ifs
  · rfl
  · exact Ram.size_write ..

theorem cpu_testBitAt (hn : n < w.bits) : (s.testBitAt u w a n).cpu =
    { s.cpu with flags := { s.cpu.flags with carry := s.ram.bit (8 * a.toNat + n) } } := by
  have hlt : n < 32 := Nat.lt_of_lt_of_le hn w.bits_le
  rw [← s.ram.testBit_read a hn, ← and_bit_ne_zero _ (UInt32.toNat_one_shiftLeft hlt)]
  rfl

theorem bit_testBitAt (hn : n < w.bits) (h : a.toNat + w.bytes ≤ s.ram.size) (k : Nat) :
    (s.testBitAt u w a n).ram.bit k =
      if k = 8 * a.toNat + n then u.onBit (s.ram.bit k) else s.ram.bit k := by
  by_cases hu : u = .keep
  · have hram : (s.testBitAt u w a n).ram = s.ram := if_pos hu
    rw [hram, hu]
    exact (ite_self _).symm
  have hram : (s.testBitAt u w a n).ram = s.ram.write w a.toUInt64
      (u.apply (s.ram.read w a.toUInt64) (1 <<< UInt32.ofNat n)) := if_neg hu
  rw [hram, Ram.bit_write h]
  by_cases hk : 8 * a.toNat ≤ k ∧ k < 8 * a.toNat + w.bits
  · have hj : k - 8 * a.toNat < w.bits := by omega
    have hback : 8 * a.toNat + (k - 8 * a.toNat) = k := by omega
    have hsame : k - 8 * a.toNat = n ↔ k = 8 * a.toNat + n := by omega
    rw [if_pos hk, u.testBit_apply (Nat.lt_of_lt_of_le hn w.bits_le)
        (Nat.lt_of_lt_of_le hj w.bits_le),
      Ram.testBit_read _ _ hj, Ram.testBit_read _ _ hn, hback, if_congr hsame rfl rfl]
    split_ifs with he
    · rw [he]
    · rfl
  · rw [if_neg hk, if_neg (by omega)]

end System

/-! ## Places -/

namespace Cpu

/-- The offset `d` bytes behind the place that an operand stands for; before it, if `d` is
negative. -/
def displaced (c : Cpu) (a : AddressSize) (m : MemoryOperand) (d : Int) : UInt32 :=
  a.wrap (c.effectiveOffset a m + UInt32.ofInt d)

/-- The number of the bit that a register asks for. -/
def bitIndex (c : Cpu) (r : RegisterRef) : Int := r.width.signed (c.readRegister r)

/-- Bit `k` of the string that begins where an operand stands: bit `k % 8` of the byte that is
`k / 8` bytes behind, or before. -/
def bitPlace (c : Cpu) (a : AddressSize) (m : MemoryOperand) (k : Int) : Nat :=
  8 * (c.linear m.segment (c.displaced a m (k / 8))).toNat + (k % 8).toNat

variable {c : Cpu} {a : AddressSize} {m : MemoryOperand}

theorem toNat_displaced (c : Cpu) (a : AddressSize) (m : MemoryOperand) (d : Int) :
    ((c.displaced a m d).toNat : Int) =
      ((c.effectiveOffset a m).toNat + d) % a.width.modulus := by
  have hdvd : (a.width.modulus : Int) ∣ 4294967296 := by cases a <;> decide
  have hd : ((UInt32.ofInt d).toNat : Int) = d % 4294967296 := by
    have hword : (UInt32.ofInt d).toNat = (d % 4294967296).toNat % 4294967296 :=
      UInt32.toNat_ofNat'
    rw [hword]
    omega
  have hsum : (((c.effectiveOffset a m + UInt32.ofInt d).toNat : Nat) : Int) =
      ((c.effectiveOffset a m).toNat + d) % 4294967296 := by
    rw [UInt32.toNat_add]
    omega
  rw [displaced, AddressSize.wrap, Width.toNat_truncate, Int.natCast_mod, hsum,
    Int.emod_emod_of_dvd _ hdvd]

/-- Two numbers mean the same bit just if they are apart by a multiple of the number of bits that
offsets can tell apart. -/
theorem bitPlace_eq_iff (c : Cpu) (a : AddressSize) (m : MemoryOperand) (k l : Int) :
    c.bitPlace a m k = c.bitPlace a m l ↔ (8 * a.width.modulus : Int) ∣ k - l := by
  have hk := c.toNat_displaced a m (k / 8)
  have hl := c.toNat_displaced a m (l / 8)
  have hplace : c.bitPlace a m k = c.bitPlace a m l ↔
      (c.displaced a m (k / 8)).toNat = (c.displaced a m (l / 8)).toNat ∧ k % 8 = l % 8 := by
    rw [UInt32.toNat_inj]
    unfold bitPlace
    constructor
    · intro h
      have haddress : (c.linear m.segment (c.displaced a m (k / 8))).toNat =
          (c.linear m.segment (c.displaced a m (l / 8))).toNat := by omega
      exact ⟨(UInt32.add_right_inj _).1 (UInt32.toNat_inj.1 haddress), by omega⟩
    · rintro ⟨hoffset, hbit⟩
      rw [hoffset, hbit]
  rw [hplace]
  generalize (c.displaced a m (k / 8)).toNat = x at *
  generalize (c.displaced a m (l / 8)).toNat = y at *
  generalize (c.effectiveOffset a m).toNat = o at *
  cases a <;> simp only [AddressSize.width, Width.modulus] at * <;> omega

end Cpu

/-- The word that bit `k` lies in is in memory, where addresses reach it, and does not go on beyond
the greatest offset. -/
structure System.ReachesBit (s : System δ) (a : AddressSize) (m : MemoryOperand) (w : Width)
    (k : Int) : Prop where
  range : (s.cpu.displaced a m (k / w.bits * w.bytes)).toNat + w.bytes ≤ a.width.modulus
  memory : (s.cpu.linear m.segment (s.cpu.displaced a m (k / w.bits * w.bytes))).toNat + w.bytes ≤
    min s.ram.size UInt32.size

/-- The bit of the word is the bit that counting bytes leads to. -/
theorem System.ReachesBit.bitPlace_eq {s : System δ} {a : AddressSize} {m : MemoryOperand}
    {w : Width} {k : Int} (h : s.ReachesBit a m w k) : s.cpu.bitPlace a m k =
      8 * (s.cpu.linear m.segment (s.cpu.displaced a m (k / w.bits * w.bytes))).toNat +
        (k % w.bits).toNat := by
  obtain ⟨hrange, hmemory⟩ := h
  have hword := s.cpu.toNat_displaced a m (k / w.bits * w.bytes)
  have hbyte := s.cpu.toNat_displaced a m (k / 8)
  have hoffset : (s.cpu.displaced a m (k / 8)).toNat =
      (s.cpu.displaced a m (k / w.bits * w.bytes)).toNat + (k % w.bits).toNat / 8 := by
    generalize (s.cpu.displaced a m (k / 8)).toNat = y at *
    generalize (s.cpu.displaced a m (k / w.bits * w.bytes)).toNat = x at *
    generalize (s.cpu.effectiveOffset a m).toNat = o at *
    clear hmemory
    cases a <;> cases w <;>
      simp only [AddressSize.width, Width.modulus, Width.bits, Width.bytes] at * <;> omega
  have hlinear : (s.cpu.linear m.segment (s.cpu.displaced a m (k / 8))).toNat =
      (s.cpu.linear m.segment (s.cpu.displaced a m (k / w.bits * w.bytes))).toNat +
        (k % w.bits).toNat / 8 := by
    unfold Cpu.linear at *
    rw [UInt32.toNat_add] at hmemory
    rw [UInt32.toNat_add, UInt32.toNat_add, hoffset]
    have hsize : UInt32.size = 4294967296 := rfl
    have hbits := w.bits_eq_bytes
    have hlt : k % w.bits < w.bits := Int.emod_lt_of_pos k (Int.natCast_pos.2 w.bits_pos)
    omega
  rw [Cpu.bitPlace, hlinear]
  have hmod : (k % 8).toNat = (k % w.bits).toNat % 8 := by
    cases w <;> simp only [Width.bits] <;> omega
  rw [hmod]
  omega

/-! ## The instructions -/

/-- The instruction tests a bit of the string at the memory operand `m`, in words of width `w`, and
updates it; register `r` has its number. -/
structure Instruction.TestsBit (i : Instruction) (u : BitUpdate) (m : MemoryOperand) (w : Width)
    (r : RegisterRef) : Prop where
  unit : i.unit = .bitByte
  operation : i.operation = .bitByte (.bitTest u)
  operands : i.operands = [.memory m w, .register r]

/-- System `t` is system `s` after bit `p` of memory has been tested and updated. -/
structure System.BitTested (s : System δ) (u : BitUpdate) (p : Nat) (next : UInt32)
    (t : System δ) : Prop where
  cpu : t.cpu = { s.cpu with flags := { s.cpu.flags with carry := s.ram.bit p }, eip := next }
  bit : ∀ k, t.ram.bit k = if k = p then u.onBit (s.ram.bit p) else s.ram.bit k
  size : t.ram.size = s.ram.size
  io : t.io = s.io

namespace Exec

variable {i j : Instruction} {s t : System δ} {u v : BitUpdate} {m : MemoryOperand} {w x : Width}
  {r q : RegisterRef}

/-- The number in the register selects a word, and a bit in it. -/
theorem run_locateBit_memory (hi : i.TestsBit u m w r) (s : System δ) :
    let k := s.cpu.bitIndex r
    (locateBit i).run s = .ok (.memory m.segment
      (s.cpu.displaced i.addressSize m (k / w.bits * w.bytes)), (k % w.bits).toNat) s := by
  rw [locateBit, operand_eq (Instruction.operands_zero hi.operands),
    operand_eq (Instruction.operands_one hi.operands),
    readOperand_eq (Instruction.operands_one hi.operands), run_pure_bind, run_pure_bind,
    run_gets_bind, run_gets_bind]
  rfl

theorem run_testBit (hi : i.TestsBit u m w r) (s : System δ) :
    let k := s.cpu.bitIndex r
    (testBit u i).run s = .ok () (s.testBitAt u w
      (s.cpu.linear m.segment (s.cpu.displaced i.addressSize m (k / w.bits * w.bytes)))
      (k % w.bits).toNat) := by
  intro k
  rw [testBit, operand_eq (Instruction.operands_zero hi.operands), run_pure_bind,
    run_bind_of_ok (run_locateBit_memory hi s)]
  dsimp only
  rw [run_gets_bind, run_modifyCpu_bind, System.testBitAt]
  by_cases hu : u = .keep
  · rw [if_pos hu, if_pos hu]
    rfl
  · rw [if_neg hu, if_neg hu]
    rfl

theorem run_perform_bitTest (hi : i.TestsBit u m w r) (next : UInt32) (s : System δ) :
    let k := s.cpu.bitIndex r
    (i.perform next).run s = .ok .next (s.testBitAt u w
      (s.cpu.linear m.segment (s.cpu.displaced i.addressSize m (k / w.bits * w.bytes)))
      (k % w.bits).toNat) := by
  rw [Instruction.perform_bitByte hi.unit hi.operation]
  exact run_bind_of_ok (run_testBit hi s) _

/-- The carry flag takes over the bit that counting bytes leads to; that bit is updated, and no
other bit of memory changes, nor any register or other flag. -/
theorem run_bitTest (hi : i.TestsBit u m w r)
    (hs : s.ReachesBit i.addressSize m w (s.cpu.bitIndex r)) :
    ∃ t, (execute i).run s = .ok .retired t ∧
      s.BitTested u (s.cpu.bitPlace i.addressSize m (s.cpu.bitIndex r))
        (s.cpu.nextOffset i.length) t := by
  let k := s.cpu.bitIndex r
  have hpos : (0 : Int) < w.bits := Int.natCast_pos.2 w.bits_pos
  have hlow : 0 ≤ k % w.bits := Int.emod_nonneg k (Int.ne_of_gt hpos)
  have hhigh : k % w.bits < w.bits := Int.emod_lt_of_pos k hpos
  have hn : (k % w.bits).toNat < w.bits := by omega
  have hmemory := Nat.le_trans hs.memory (Nat.min_le_left _ _)
  refine ⟨_, run_execute_of_next (run_perform_bitTest hi _ s), ?_⟩
  rw [hs.bitPlace_eq]
  exact {
    cpu := by rw [System.cpu_modifyCpu, System.cpu_testBitAt hn]
    bit := fun b => by
      rw [System.ram_modifyCpu, System.bit_testBitAt hn hmemory]
      split_ifs with hb
      · rw [hb]
      · rfl
    size := by rw [System.ram_modifyCpu, System.size_testBitAt]
    io := rfl }

end Exec

namespace System

variable {s t y : System δ} {u v : BitUpdate} {p b : Nat} {next next' : UInt32} {a : AddressSize}
  {m : MemoryOperand} {w : Width} {k : Int}

/-- Registers that take part in an address do not change. -/
theorem BitTested.bitPlace (h : s.BitTested u p next t) (a : AddressSize) (m : MemoryOperand)
    (k : Int) : t.cpu.bitPlace a m k = s.cpu.bitPlace a m k := by
  rw [h.cpu]
  rfl

theorem BitTested.bitIndex (h : s.BitTested u p next t) (r : RegisterRef) :
    t.cpu.bitIndex r = s.cpu.bitIndex r := by
  rw [h.cpu]
  rfl

theorem BitTested.reachesBit (h : s.BitTested u p next t) (hs : s.ReachesBit a m w k) :
    t.ReachesBit a m w k := by
  refine ⟨?_, ?_⟩
  · rw [h.cpu]
    exact hs.range
  · rw [h.cpu, h.size]
    exact hs.memory

theorem BitTested.carry (h : s.BitTested u p next t) : t.cpu.flags.carry = s.ram.bit p := by
  rw [h.cpu]

/-- Another bit is found, and left, as it was. -/
theorem BitTested.apart (h : s.BitTested u p next t) (h' : t.BitTested v b next' y) (hne : p ≠ b) :
    y.cpu.flags.carry = s.ram.bit b ∧ ∀ n, y.ram.bit n =
      if n = p then u.onBit (s.ram.bit p) else if n = b then v.onBit (s.ram.bit b)
      else s.ram.bit n := by
  have hkept : t.ram.bit b = s.ram.bit b := by rw [h.bit, if_neg hne.symm]
  refine ⟨h'.carry.trans hkept, fun n => ?_⟩
  rw [h'.bit, hkept, h.bit]
  by_cases hn : n = p
  · rw [if_pos hn, if_pos hn, if_neg fun hb => hne (hn.symm.trans hb)]
  · rw [if_neg hn, if_neg hn]

/-- The same bit is found as it was left. -/
theorem BitTested.again (h : s.BitTested u p next t) (h' : t.BitTested v p next' y) :
    y.cpu.flags.carry = u.onBit (s.ram.bit p) ∧ ∀ n, y.ram.bit n =
      if n = p then v.onBit (u.onBit (s.ram.bit p)) else s.ram.bit n := by
  have hleft : t.ram.bit p = u.onBit (s.ram.bit p) := by rw [h.bit, if_pos rfl]
  refine ⟨h'.carry.trans hleft, fun n => ?_⟩
  rw [h'.bit, hleft, h.bit]
  by_cases hn : n = p
  · rw [if_pos hn, if_pos hn]
  · rw [if_neg hn, if_neg hn, if_neg hn]

/-- What is complemented twice is as it was. -/
theorem BitTested.restored (h : s.BitTested .complement p next t)
    (h' : t.BitTested .complement p next' y) (j : Nat) : y.ram.byte j = s.ram.byte j := by
  refine Ram.byte_eq_of_bit (fun n => ?_) j
  rw [(h.again h').2]
  by_cases hn : n = p
  · rw [if_pos hn, hn]
    exact Bool.not_not _
  · rw [if_neg hn]

end System

/-- Numbers in registers are not far enough apart to mean the same bit by coincidence, but for
32-bit registers and 16-bit addresses. -/
theorem Cpu.not_dvd_bitIndex_sub {c : Cpu} {a : AddressSize} {r q : RegisterRef}
    (hne : c.bitIndex r ≠ c.bitIndex q)
    (h : a = .dword ∨ (r.width ≠ .dword ∧ q.width ≠ .dword)) :
    ¬ (8 * a.width.modulus : Int) ∣ c.bitIndex r - c.bitIndex q := by
  obtain ⟨hr, hr'⟩ : r.width.InSignedRange (c.bitIndex r) := r.width.inSignedRange_signed _
  obtain ⟨hq, hq'⟩ : q.width.InSignedRange (c.bitIndex q) := q.width.inSignedRange_signed _
  generalize c.bitIndex r = k at *
  generalize c.bitIndex q = l at *
  have hhalf (w : Width) : w.half ≤ 0x80000000 ∧ (w ≠ .dword → w.half ≤ 0x8000) := by
    cases w <;> decide
  have hrw := hhalf r.width
  have hqw := hhalf q.width
  rcases h with rfl | ⟨hrd, hqd⟩
  · simp only [AddressSize.width, Width.modulus]
    omega
  · have hrh := hrw.2 hrd
    have hqh := hqw.2 hqd
    cases a <;> simp only [AddressSize.width, Width.modulus] <;> omega

namespace Exec

variable {i j : Instruction} {s t : System δ} {u v : BitUpdate} {m : MemoryOperand} {w x : Width}
  {r q : RegisterRef}

/-- **Bit tests on a string in memory.**  The first one copies its bit to the carry flag and updates
it, and changes nothing else; so does the second one, at what the first one has left.  If their
numbers mean different bits, neither sees the other one; numbers that differ do mean different bits,
unless addresses have 16 bits and the numbers 32.  With the same number, the second one finds what
the first one has made of the bit, and a bit that is complemented twice is as it was. -/
theorem bit_tests_in_sequence (hi : i.TestsBit u m w r) (hj : j.TestsBit v m x q)
    (ha : j.addressSize = i.addressSize)
    (hs : s.ReachesBit i.addressSize m w (s.cpu.bitIndex r))
    (hq : s.ReachesBit i.addressSize m x (s.cpu.bitIndex q)) :
    let k := s.cpu.bitIndex r
    let l := s.cpu.bitIndex q
    let p := s.cpu.bitPlace i.addressSize m k
    let b := s.cpu.bitPlace i.addressSize m l
    ∃ t y, (execute i).run s = .ok .retired t ∧ s.BitTested u p (s.cpu.nextOffset i.length) t ∧
      (execute j).run t = .ok .retired y ∧ t.BitTested v b (t.cpu.nextOffset j.length) y ∧
      (p = b ↔ (8 * i.addressSize.width.modulus : Int) ∣ k - l) ∧
      (k ≠ l → i.addressSize = .dword ∨ (r.width ≠ .dword ∧ q.width ≠ .dword) → p ≠ b) ∧
      (p ≠ b → y.cpu.flags.carry = s.ram.bit b ∧ ∀ n, y.ram.bit n =
        if n = p then u.onBit (s.ram.bit p) else if n = b then v.onBit (s.ram.bit b)
        else s.ram.bit n) ∧
      (k = l → y.cpu.flags.carry = u.onBit (s.ram.bit p)) ∧
      (k = l → u = .set → y.cpu.flags.carry = true) ∧
      (k = l → u = .complement → v = .complement → ∀ n, y.ram.byte n = s.ram.byte n) := by
  intro k l p b
  obtain ⟨t, hrun, ht⟩ := run_bitTest hi hs
  have hindex : t.cpu.bitIndex q = l := ht.bitIndex q
  have hreach : t.ReachesBit j.addressSize m x (t.cpu.bitIndex q) := by
    rw [ha, hindex]
    exact ht.reachesBit hq
  obtain ⟨y, hsecond, hy⟩ := run_bitTest hj hreach
  rw [hindex, ht.bitPlace, ha] at hy
  have hplace := s.cpu.bitPlace_eq_iff i.addressSize m k l
  have hagain (h : k = l) : t.BitTested v p (t.cpu.nextOffset j.length) y := by
    have hsame : p = b := congrArg (s.cpu.bitPlace i.addressSize m) h
    rw [hsame]
    exact hy
  refine ⟨t, y, hrun, ht, hsecond, hy, hplace, ?_, ht.apart hy, ?_, ?_, ?_⟩
  · intro hne h hp
    exact Cpu.not_dvd_bitIndex_sub hne h (hplace.1 hp)
  · intro h
    exact (ht.again (hagain h)).1
  · intro h hu
    rw [(ht.again (hagain h)).1, hu]
    rfl
  · intro h hu hv
    subst hu hv
    exact ht.restored (hagain h)

/-- A system with two numbers for bits before and behind a place in memory. -/
def bitmap : System Unit where
  cpu := { Cpu.reset with gprs := { eax := 0, ecx := 0x80000, edx := 0xFFFFFFEF, ebx := 17 } }
  ram := Ram.zeroed 0x20000
  io := Io.init ()

/-- A bit test on the string at offset 100H, with the number in the given register. -/
def testBitmap (u : BitUpdate) (r : RegisterRef) : Instruction :=
  { Instruction.ofOperands (.bitByte (.bitTest u))
      [.memory (.absolute 0x100) .dword, .register r] 6 with
    prefixes := { operandSize := true }
    operandWidth := .dword
    dataWidth := .dword }

theorem reachesBit_bitmap {k : Int} (hrange : (bitmap.cpu.displaced .word (.absolute 0x100)
      (k / Width.dword.bits * Width.dword.bytes)).toNat + 4 ≤ 0x10000)
    (hmemory : (bitmap.cpu.linear .ds (bitmap.cpu.displaced .word (.absolute 0x100)
      (k / Width.dword.bits * Width.dword.bytes))).toNat + 4 ≤ 0x20000) :
    bitmap.ReachesBit .word (.absolute 0x100) .dword k := by
  have hsize : bitmap.ram.size = 0x20000 := Ram.size_zeroed _
  refine ⟨hrange, ?_⟩
  rw [hsize]
  exact Nat.le_trans hmemory (by decide)

theorem bit_bitmap {k : Nat} (hk : k / 8 < 0x20000) : bitmap.ram.bit k = false := by
  have hbyte : bitmap.ram.byte (k / 8) = 0 := (Ram.byte_zeroed _ _).trans (if_pos hk)
  rw [Ram.bit, hbyte]
  exact Nat.zero_testBit _

/-- Bits before and behind the place, in different bytes. -/
theorem bit_tests_in_sequence_bitmap :
    let i := testBitmap .complement (.general 2 .dword)
    let j := testBitmap .set (.general 3 .dword)
    let s := bitmap
    Instruction.decode [0x66, 0x0F, 0xBB, 0x16, 0, 1] false 0 = .ok i ∧
      Instruction.decode [0x66, 0x0F, 0xAB, 0x1E, 0, 1] false 0 = .ok j ∧
      s.cpu.bitIndex (.general 2 .dword) = -17 ∧ s.cpu.bitIndex (.general 3 .dword) = 17 ∧
      s.ReachesBit .word (.absolute 0x100) .dword (-17) ∧
      s.ReachesBit .word (.absolute 0x100) .dword 17 ∧
      ∃ t y, (execute i).run s = .ok .retired t ∧ (execute j).run t = .ok .retired y ∧
        y.cpu.flags.carry = false ∧ y.ram.bit (8 * 0xFD + 7) = true ∧
        y.ram.bit (8 * 0x102 + 1) = true := by
  intro i j s
  have hbefore : s.cpu.bitIndex (.general 2 .dword) = -17 := by decide +kernel
  have hbehind : s.cpu.bitIndex (.general 3 .dword) = 17 := by decide +kernel
  have hs : s.ReachesBit .word (.absolute 0x100) .dword (-17) :=
    reachesBit_bitmap (by decide +kernel) (by decide +kernel)
  have hq : s.ReachesBit .word (.absolute 0x100) .dword 17 :=
    reachesBit_bitmap (by decide +kernel) (by decide +kernel)
  have hp : s.cpu.bitPlace .word (.absolute 0x100) (-17) = 8 * 0xFD + 7 := by decide +kernel
  have hb : s.cpu.bitPlace .word (.absolute 0x100) 17 = 8 * 0x102 + 1 := by decide +kernel
  obtain ⟨t, y, hi, -, hj, -, -, -, happart, -⟩ := bit_tests_in_sequence
    (i := i) (j := j) (s := s) ⟨rfl, rfl, rfl⟩ ⟨rfl, rfl, rfl⟩ rfl (hbefore ▸ hs) (hbehind ▸ hq)
  have hplaces : s.cpu.bitPlace i.addressSize (.absolute 0x100)
      (s.cpu.bitIndex (.general 2 .dword)) = 8 * 0xFD + 7 := by rw [hbefore]; exact hp
  have hplaces' : s.cpu.bitPlace i.addressSize (.absolute 0x100)
      (s.cpu.bitIndex (.general 3 .dword)) = 8 * 0x102 + 1 := by rw [hbehind]; exact hb
  rw [hplaces, hplaces'] at happart
  obtain ⟨hcarry, hbits⟩ := happart (by decide)
  rw [bit_bitmap (by decide)] at hcarry hbits
  refine ⟨by decide +kernel, by decide +kernel, hbefore, hbehind, hs, hq, t, y, hi, hj, hcarry,
    ?_, ?_⟩
  · rw [hbits, if_pos rfl]
    rfl
  · rw [hbits, if_neg (by decide), if_pos rfl]
    rfl

/-- A system whose memory goes on beyond the greatest address, with a bit set at its beginning.  The
string at offset 100H begins two bytes before that address comes around. -/
def highMemory : System Unit where
  cpu := { Cpu.reset with
    gprs := { eax := 16 }
    segments := Cpu.reset.segments.set .ds
      ⟨0, { Descriptor.realMode 0 false with base := 0xFFFFFEFE }⟩ }
  ram := (Ram.zeroed 0x100000010).setByte 0 1
  io := Io.init ()

theorem size_highMemory : highMemory.ram.size = 0x100000010 :=
  (Ram.size_setByte _ _ _).trans (Ram.size_zeroed _)

theorem byte_highMemory (k : Nat) : highMemory.ram.byte k =
    if 0 = k then 1 else if k < 0x100000010 then 0 else 0xFF := by
  have hset := Ram.byte_setByte (Ram.zeroed 0x100000010) 0 k 1
  rw [Ram.byte_zeroed, Ram.size_zeroed] at hset
  exact hset.trans (if_congr (and_iff_left (by decide)) rfl rfl)

/-- A word goes on beyond the greatest address, whereas counting bytes comes around. -/
theorem bitTest_highMemory :
    let j := testBitmap .keep (.general 0 .dword)
    let s := highMemory
    s.cpu.bitIndex (.general 0 .dword) = 16 ∧
      (s.cpu.displaced .word (.absolute 0x100) 0).toNat + 4 ≤ 0x10000 ∧
      (s.cpu.linear .ds (s.cpu.displaced .word (.absolute 0x100) 0)).toNat + 4 ≤ s.ram.size ∧
      s.ram.bit (s.cpu.bitPlace .word (.absolute 0x100) 16) = true ∧
      ∃ t, (execute j).run s = .ok .retired t ∧ t.cpu.flags.carry = false := by
  intro j s
  have hindex : s.cpu.bitIndex (.general 0 .dword) = 16 := by decide +kernel
  have hlinear : s.cpu.linear .ds (s.cpu.displaced .word (.absolute 0x100) 0) = 0xFFFFFFFE := by
    decide +kernel
  have hplace : s.cpu.bitPlace .word (.absolute 0x100) 16 = 0 := by decide +kernel
  have hword : s.cpu.linear (MemoryOperand.absolute 0x100).segment
      (s.cpu.displaced j.addressSize (.absolute 0x100)
        (s.cpu.bitIndex (.general 0 .dword) / Width.dword.bits * Width.dword.bytes)) =
      0xFFFFFFFE := by
    rw [hindex]
    exact hlinear
  have hperform := run_perform_bitTest (i := j) (u := .keep) (w := .dword) ⟨rfl, rfl, rfl⟩
    (s.cpu.nextOffset j.length) s
  dsimp only at hperform
  have hnumber : ((16 : Int) % Width.dword.bits).toNat = 16 := by decide
  rw [hword, hindex, hnumber] at hperform
  refine ⟨hindex, by decide +kernel, ?_, ?_, _, run_execute_of_next hperform, ?_⟩
  · rw [hlinear, size_highMemory]
    decide
  · rw [hplace, Ram.bit, byte_highMemory, if_pos (by decide)]
    rfl
  · have hzero : s.ram.bit (8 * (0xFFFFFFFE : UInt32).toNat + 16) = false := by
      rw [Ram.bit, byte_highMemory, if_neg (by decide), if_pos (by decide)]
      exact Nat.zero_testBit _
    have hcpu := System.cpu_testBitAt (s := s) (u := .keep) (w := .dword) (a := 0xFFFFFFFE)
      (n := 16) (by decide)
    rw [hzero] at hcpu
    rw [System.cpu_modifyCpu, hcpu]

/-- Bits 0 and 80000H are one bit where offsets have 16 bits, and a word that goes on beyond the
greatest address has other bits than one gets to by counting bytes. -/
theorem bit_test_corners :
    let i := testBitmap .set (.general 0 .dword)
    let j := testBitmap .keep (.general 1 .dword)
    let s := bitmap
    Instruction.decode [0x66, 0x0F, 0xAB, 0x06, 0, 1] false 0 = .ok i ∧
      Instruction.decode [0x66, 0x0F, 0xA3, 0x0E, 0, 1] false 0 = .ok j ∧
      s.cpu.bitIndex (.general 0 .dword) = 0 ∧ s.cpu.bitIndex (.general 1 .dword) = 0x80000 ∧
      s.ReachesBit .word (.absolute 0x100) .dword 0 ∧
      s.ReachesBit .word (.absolute 0x100) .dword 0x80000 ∧
      (∃ t, (execute j).run s = .ok .retired t ∧ t.cpu.flags.carry = false) ∧
      (∃ t y, (execute i).run s = .ok .retired t ∧ (execute j).run t = .ok .retired y ∧
        y.cpu.flags.carry = true) ∧
      let j := testBitmap .keep (.general 0 .dword)
      let s := highMemory
      s.cpu.bitIndex (.general 0 .dword) = 16 ∧
        (s.cpu.displaced .word (.absolute 0x100) 0).toNat + 4 ≤ 0x10000 ∧
        (s.cpu.linear .ds (s.cpu.displaced .word (.absolute 0x100) 0)).toNat + 4 ≤ s.ram.size ∧
        s.ram.bit (s.cpu.bitPlace .word (.absolute 0x100) 16) = true ∧
        ∃ t, (execute j).run s = .ok .retired t ∧ t.cpu.flags.carry = false := by
  intro i j s
  have hfirst : s.cpu.bitIndex (.general 0 .dword) = 0 := by decide +kernel
  have hsecond : s.cpu.bitIndex (.general 1 .dword) = 0x80000 := by decide +kernel
  have hs : s.ReachesBit .word (.absolute 0x100) .dword 0 :=
    reachesBit_bitmap (by decide +kernel) (by decide +kernel)
  have hq : s.ReachesBit .word (.absolute 0x100) .dword 0x80000 :=
    reachesBit_bitmap (by decide +kernel) (by decide +kernel)
  have hp : s.cpu.bitPlace .word (.absolute 0x100) 0 = 8 * 0x100 := by decide +kernel
  have hb : s.cpu.bitPlace .word (.absolute 0x100) 0x80000 = 8 * 0x100 := by decide +kernel
  obtain ⟨u, hj, hu⟩ := run_bitTest (i := j) (s := s) ⟨rfl, rfl, rfl⟩ (hsecond ▸ hq)
  obtain ⟨t, hi, ht⟩ := run_bitTest (i := i) (s := s) ⟨rfl, rfl, rfl⟩ (hfirst ▸ hs)
  have hindex : t.cpu.bitIndex (.general 1 .dword) = 0x80000 := (ht.bitIndex _).trans hsecond
  obtain ⟨y, hafter, hy⟩ := run_bitTest (i := j) (s := t) ⟨rfl, rfl, rfl⟩
    (hindex ▸ ht.reachesBit hq)
  have hplace : s.cpu.bitPlace j.addressSize (.absolute 0x100)
      (s.cpu.bitIndex (.general 1 .dword)) = 8 * 0x100 := by rw [hsecond]; exact hb
  have hplace' : s.cpu.bitPlace i.addressSize (.absolute 0x100)
      (s.cpu.bitIndex (.general 0 .dword)) = 8 * 0x100 := by rw [hfirst]; exact hp
  rw [hplace] at hu
  rw [hplace'] at ht
  rw [ht.bitPlace, ht.bitIndex, hplace] at hy
  refine ⟨by decide +kernel, by decide +kernel, hfirst, hsecond, hs, hq, ⟨u, hj, ?_⟩,
    ⟨t, y, hi, hafter, (ht.again hy).1⟩, bitTest_highMemory⟩
  exact hu.carry.trans (bit_bitmap (by decide))

end Exec

end Ia32
