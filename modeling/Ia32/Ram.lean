/-
  Guest memory: `size` bytes from address 0 on, held in pages, on a bus that floats high.
  A byte outside the memory reads as 0xFF, and a write to it vanishes.

  Main definitions:
  - `Ram`, `Ram.zeroed` : memory of a given size
  - `Ram.byte`, `Ram.setByte` : the byte at an index
  - `Ram.blockRead`, `Ram.blockWrite` : accesses that must lie in memory as a whole
  - `Ram.readBytes`, `Ram.writeBytes` : bus accesses, as a block if they lie in memory as a whole,
    and otherwise byte by byte, around the end of the 64-bit address space
  - `Ram.read8` … `Ram.write32` : little-endian scalars on the bus
  - `Ram.read`, `Ram.write` : the same for an operand width

  Main statements:
  - `Ram.byte_setByte` : a write changes the byte at its index and no other
  - `Ram.readBytes_eq`, `Ram.writeBytes_eq` : blocks are read and written like single bytes
-/
import Ia32.Text.Hex
import Ia32.Width

namespace Ia32

/-- The number of bytes in a page. -/
abbrev pageSize : Nat := 4096

abbrev Page := Vector UInt8 pageSize

structure Ram where
  size : Nat
  pages : Array Page
  size_le : size ≤ pages.size * pageSize

/-- An access that does not lie in memory as a whole. -/
structure OutOfRange where
  addr : UInt64
  len : Nat
  size : Nat
  deriving DecidableEq, Repr

def OutOfRange.message (e : OutOfRange) : String :=
  "guest memory access out of range: addr=" ++ Text.hex0x e.addr.toNat 1 ++
    " len=" ++ toString e.len ++ " size=" ++ Text.hex0x e.size 1

namespace Ram

/-- Every page of `m` filled with `v`. -/
def fill (m : Ram) (v : UInt8) : Ram where
  size := m.size
  pages := Array.replicate m.pages.size (Vector.replicate pageSize v)
  size_le := by simpa using m.size_le

/-- Memory of `n` zero bytes. -/
def zeroed (n : Nat) : Ram where
  size := n
  pages := Array.replicate ((n + (pageSize - 1)) / pageSize) (Vector.replicate pageSize 0)
  size_le := by simp only [Array.size_replicate, pageSize]; omega

theorem page_lt (m : Ram) {i : Nat} (h : i < m.size) : i / pageSize < m.pages.size :=
  (Nat.div_lt_iff_lt_mul (by decide)).2 (Nat.lt_of_lt_of_le h m.size_le)

theorem offset_lt (i : Nat) : i % pageSize < pageSize := Nat.mod_lt _ (by decide)

/-- The byte at index `i`, all ones outside the memory. -/
def byte (m : Ram) (i : Nat) : UInt8 :=
  if h : i < m.size then
    have := m.page_lt h
    have := offset_lt i
    m.pages[i / pageSize][i % pageSize]
  else 0xFF

/-- Put `v` at index `i`; nothing happens outside the memory. -/
def setByte (m : Ram) (i : Nat) (v : UInt8) : Ram :=
  if i < m.size then
    { m with
      pages := m.pages.modify (i / pageSize) fun p => p.set (i % pageSize) v (offset_lt i)
      size_le := by simpa using m.size_le }
  else m

@[simp] theorem size_setByte (m : Ram) (i : Nat) (v : UInt8) : (m.setByte i v).size = m.size := by
  unfold setByte; split <;> rfl

theorem byte_of_size_le (m : Ram) {i : Nat} (h : m.size ≤ i) : m.byte i = 0xFF := by
  simp [byte, Nat.not_lt.2 h]

theorem byte_setByte (m : Ram) (i j : Nat) (v : UInt8) :
    (m.setByte i v).byte j = if i = j ∧ i < m.size then v else m.byte j := by
  unfold setByte
  split
  case isFalse h => simp [h]
  case isTrue hi =>
    by_cases hj : j < m.size
    · simp only [byte, hj, ↓reduceDIte, Array.getElem_modify, hi, and_true]
      by_cases hp : i / pageSize = j / pageSize
      · simp only [hp, ↓reduceIte, Vector.getElem_set]
        have : i = j ↔ i % pageSize = j % pageSize := by
          simp only [pageSize] at hp ⊢; omega
        simp only [this]
      · have : i ≠ j := fun h => hp (by rw [h])
        simp [hp, this]
    · have : i ≠ j := fun h => hj (h ▸ hi)
      simp [byte, hj, this]

@[simp] theorem size_zeroed (n : Nat) : (zeroed n).size = n := rfl

@[simp] theorem size_fill (m : Ram) (v : UInt8) : (m.fill v).size = m.size := rfl

theorem byte_fill (m : Ram) (v : UInt8) (i : Nat) :
    (m.fill v).byte i = if i < m.size then v else 0xFF := by
  simp [byte, fill]

theorem byte_zeroed (n i : Nat) : (zeroed n).byte i = if i < n then 0 else 0xFF := by
  simp [byte, zeroed]

/-! ## Ranges -/

/-- The index at which the `n` bytes at address `a` begin; all of them must lie in memory, and their
end must not wrap around. -/
def start (m : Ram) (a : UInt64) (n : Nat) : Except OutOfRange Nat :=
  if a.toNat + n < UInt64.size ∧ a.toNat + n ≤ m.size then .ok a.toNat
  else .error ⟨a, n, m.size⟩

/-- The `n` bytes from index `i` on. -/
def slice (m : Ram) (i n : Nat) : List UInt8 := (List.range n).map fun k => m.byte (i + k)

/-- Put bytes at the indices from `i` on. -/
def patch (m : Ram) (i : Nat) : List UInt8 → Ram
  | [] => m
  | b :: bs => (m.setByte i b).patch (i + 1) bs

@[simp] theorem length_slice (m : Ram) (i n : Nat) : (m.slice i n).length = n := by simp [slice]

@[simp] theorem size_patch (m : Ram) (i : Nat) (bs : List UInt8) : (m.patch i bs).size = m.size := by
  induction bs generalizing m i with
  | nil => rfl
  | cons b bs ih => rw [patch, ih, size_setByte]

/-! ## Block accesses -/

def blockRead (m : Ram) (a : UInt64) (n : Nat) : Except OutOfRange (List UInt8) := do
  let i ← m.start a n
  return m.slice i n

def blockWrite (m : Ram) (a : UInt64) (bs : List UInt8) : Except OutOfRange Ram := do
  let i ← m.start a bs.length
  return m.patch i bs

/-! ## Bus accesses -/

/-- The `n` bytes at the addresses from `a` on, each looked up by itself. -/
def readEach (m : Ram) (a : UInt64) (n : Nat) : List UInt8 :=
  (List.range n).map fun k => m.byte (a + UInt64.ofNat k).toNat

/-- Put bytes at the addresses from `a` on, each by itself. -/
def writeEach (m : Ram) (a : UInt64) : List UInt8 → Ram
  | [] => m
  | b :: bs => (m.setByte a.toNat b).writeEach (a + 1) bs

/-- The `n` bytes at address `a`, as a block if they lie in memory as a whole. -/
def readBytes (m : Ram) (a : UInt64) (n : Nat) : List UInt8 :=
  match m.start a n with
  | .ok i => m.slice i n
  | .error _ => m.readEach a n

/-- Put bytes at address `a`, as a block if they lie in memory as a whole. -/
def writeBytes (m : Ram) (a : UInt64) (bs : List UInt8) : Ram :=
  match m.start a bs.length with
  | .ok i => m.patch i bs
  | .error _ => m.writeEach a bs

@[simp] theorem size_writeEach (m : Ram) (a : UInt64) (bs : List UInt8) :
    (m.writeEach a bs).size = m.size := by
  induction bs generalizing m a with
  | nil => rfl
  | cons b bs ih => rw [writeEach, ih, size_setByte]

@[simp] theorem length_readBytes (m : Ram) (a : UInt64) (n : Nat) :
    (m.readBytes a n).length = n := by
  unfold readBytes
  split <;> simp [readEach]

@[simp] theorem size_writeBytes (m : Ram) (a : UInt64) (bs : List UInt8) :
    (m.writeBytes a bs).size = m.size := by
  unfold writeBytes
  split <;> simp

/-! ## Blocks and single bytes -/

/-- Addresses are added like indices as long as they do not wrap around. -/
theorem toNat_add_ofNat {a : UInt64} {k : Nat} (h : a.toNat + k < UInt64.size) :
    (a + UInt64.ofNat k).toNat = a.toNat + k := by
  have hk : k % 2 ^ 64 = k := Nat.mod_eq_of_lt (Nat.lt_of_le_of_lt (Nat.le_add_left _ _) h)
  rw [UInt64.toNat_add, UInt64.toNat_ofNat', hk]
  exact Nat.mod_eq_of_lt h

theorem start_eq_ok {m : Ram} {a : UInt64} {n i : Nat} :
    m.start a n = .ok i ↔ i = a.toNat ∧ a.toNat + n < UInt64.size ∧ a.toNat + n ≤ m.size := by
  unfold start
  split
  case isTrue h =>
    refine ⟨?_, fun e => by rw [e.1]⟩
    rintro ⟨⟩
    exact ⟨rfl, h⟩
  case isFalse h => exact ⟨nofun, fun e => absurd e.2 h⟩

/-- A block is made of the bytes at its addresses. -/
theorem slice_of_start {m : Ram} {a : UInt64} {n i : Nat} (h : m.start a n = .ok i) :
    m.slice i n = m.readEach a n := by
  obtain ⟨rfl, hwrap, -⟩ := start_eq_ok.1 h
  refine List.map_congr_left fun k hk => ?_
  rw [toNat_add_ofNat (Nat.lt_trans (Nat.add_lt_add_left (List.mem_range.1 hk) _) hwrap)]

theorem patch_eq_writeEach {m : Ram} {a : UInt64} {bs : List UInt8}
    (h : a.toNat + bs.length < UInt64.size) : m.patch a.toNat bs = m.writeEach a bs := by
  induction bs generalizing m a with
  | nil => rfl
  | cons b bs ih =>
    rw [List.length_cons] at h
    have hnext : (a + 1).toNat = a.toNat + 1 := toNat_add_ofNat (k := 1) (by omega)
    rw [patch, writeEach, ← hnext]
    exact ih (by rw [hnext]; omega)

theorem patch_of_start {m : Ram} {a : UInt64} {bs : List UInt8} {i : Nat}
    (h : m.start a bs.length = .ok i) : m.patch i bs = m.writeEach a bs := by
  obtain ⟨rfl, hwrap, -⟩ := start_eq_ok.1 h
  exact patch_eq_writeEach hwrap

/-- Whether the bytes are read as a block makes no difference. -/
theorem readBytes_eq (m : Ram) (a : UInt64) (n : Nat) : m.readBytes a n = m.readEach a n := by
  unfold readBytes
  split
  · exact slice_of_start ‹_›
  · rfl

/-- Whether the bytes are written as a block makes no difference. -/
theorem writeBytes_eq (m : Ram) (a : UInt64) (bs : List UInt8) :
    m.writeBytes a bs = m.writeEach a bs := by
  unfold writeBytes
  split
  · exact patch_of_start ‹_›
  · rfl

/-! ## Scalars -/

/-- The bytes of a scalar. -/
def readArray (m : Ram) (a : UInt64) (n : Nat) : Vector UInt8 n :=
  ⟨(m.readBytes a n).toArray, by simp⟩

theorem getElem_readArray (m : Ram) (a : UInt64) {n k : Nat} (h : k < n) :
    (m.readArray a n)[k] = m.byte (a + UInt64.ofNat k).toNat := by
  simp [readArray, readBytes_eq, readEach]

def read8 (m : Ram) (a : UInt64) : UInt8 := (m.readArray a 1)[0]

def read16 (m : Ram) (a : UInt64) : UInt16 :=
  let bs := m.readArray a 2
  bs[0].toUInt16 ||| bs[1].toUInt16 <<< 8

def read32 (m : Ram) (a : UInt64) : UInt32 :=
  let bs := m.readArray a 4
  bs[0].toUInt32 ||| bs[1].toUInt32 <<< 8 ||| bs[2].toUInt32 <<< 16 ||| bs[3].toUInt32 <<< 24

def write8 (m : Ram) (a : UInt64) (v : UInt8) : Ram := m.writeBytes a [v]

def write16 (m : Ram) (a : UInt64) (v : UInt16) : Ram :=
  m.writeBytes a [v.toUInt8, (v >>> 8).toUInt8]

def write32 (m : Ram) (a : UInt64) (v : UInt32) : Ram :=
  m.writeBytes a [v.toUInt8, (v >>> 8).toUInt8, (v >>> 16).toUInt8, (v >>> 24).toUInt8]

theorem read8_eq (m : Ram) (a : UInt64) : m.read8 a = m.byte a.toNat := by
  have h0 : a + UInt64.ofNat 0 = a := UInt64.add_zero a
  rw [read8, getElem_readArray, h0]

theorem read16_eq (m : Ram) (a : UInt64) :
    m.read16 a = (m.read8 a).toUInt16 ||| (m.read8 (a + 1)).toUInt16 <<< 8 := by
  have h0 : a + UInt64.ofNat 0 = a := UInt64.add_zero a
  simp only [read16, getElem_readArray, read8_eq, h0]
  rfl

theorem read32_eq (m : Ram) (a : UInt64) :
    m.read32 a = (m.read8 a).toUInt32 ||| (m.read8 (a + 1)).toUInt32 <<< 8 |||
      (m.read8 (a + 2)).toUInt32 <<< 16 ||| (m.read8 (a + 3)).toUInt32 <<< 24 := by
  have h0 : a + UInt64.ofNat 0 = a := UInt64.add_zero a
  simp only [read32, getElem_readArray, read8_eq, h0]
  rfl

theorem write8_eq (m : Ram) (a : UInt64) (v : UInt8) : m.write8 a v = m.setByte a.toNat v := by
  rw [write8, writeBytes_eq]
  rfl

theorem write16_eq (m : Ram) (a : UInt64) (v : UInt16) :
    m.write16 a v = (m.write8 a v.toUInt8).write8 (a + 1) (v >>> 8).toUInt8 := by
  simp only [write16, writeBytes_eq, write8_eq]
  rfl

theorem write32_eq (m : Ram) (a : UInt64) (v : UInt32) :
    m.write32 a v = (((m.write8 a v.toUInt8).write8 (a + 1) (v >>> 8).toUInt8).write8
      (a + 1 + 1) (v >>> 16).toUInt8).write8 (a + 1 + 1 + 1) (v >>> 24).toUInt8 := by
  simp only [write32, writeBytes_eq, write8_eq]
  rfl

/-- The value of width `w` at address `a`. -/
def read (m : Ram) (w : Width) (a : UInt64) : UInt32 :=
  match w with
  | .byte => (m.read8 a).toUInt32
  | .word => (m.read16 a).toUInt32
  | .dword => m.read32 a

/-- Put the low end of `v`, of width `w`, at address `a`. -/
def write (m : Ram) (w : Width) (a : UInt64) (v : UInt32) : Ram :=
  match w with
  | .byte => m.write8 a v.toUInt8
  | .word => m.write16 a v.toUInt16
  | .dword => m.write32 a v

end Ram

end Ia32
