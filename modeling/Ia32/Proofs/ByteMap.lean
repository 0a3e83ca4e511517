/-
  Guest memory as a map from addresses to bytes.

  Main definitions:
  - `ByteMap` : a cell for each 64-bit address, of which those below `size` are backed
  - `ByteMap.bytes`, `ByteMap.putBytes` : the cells from an address on, around the end of the
    address space
  - `littleEndian`, `Width.digits` : numbers and their bytes, lowest first
  - `Access`, `Access.onRam`, `Access.onMap` : one access, to memory and to a byte map
  - `Access.replay` : a sequence of accesses
  - `Ram.Refines` : a memory whose bytes are those of a byte map

  Main statements:
  - `Access.refines_step` : every access answers alike on both, and keeps them alike
  - `Ram.refines_byteMap` : so does every sequence of accesses to a fresh memory
-/
import Ia32.Ram
import Mathlib.Data.Nat.Digits.Defs
import Mathlib.Logic.Function.Basic
import Mathlib.Tactic.Common

namespace Ia32

/-! ## The byte map -/

structure ByteMap where
  size : UInt64
  cell : UInt64 → UInt8

namespace ByteMap

def zeroed (size : UInt64) : ByteMap := ⟨size, fun _ => 0⟩

def clear (c : ByteMap) : ByteMap := { c with cell := fun _ => 0 }

/-- What the bus carries for address `x`: nothing drives it low beyond the backed cells. -/
def get (c : ByteMap) (x : UInt64) : UInt8 := if x < c.size then c.cell x else 0xFF

def put (c : ByteMap) (x : UInt64) (v : UInt8) : ByteMap :=
  if x < c.size then { c with cell := Function.update c.cell x v } else c

def bytes (c : ByteMap) (a : UInt64) (n : Nat) : List UInt8 :=
  (List.range n).map fun i => c.get (a + UInt64.ofNat i)

def putBytes (c : ByteMap) (a : UInt64) (bs : List UInt8) : ByteMap :=
  bs.zipIdx.foldl (fun c (b, i) => c.put (a + UInt64.ofNat i) b) c

@[simp] theorem size_put (c : ByteMap) (x : UInt64) (v : UInt8) : (c.put x v).size = c.size := by
  unfold put
  split <;> rfl

theorem get_put (c : ByteMap) (x y : UInt64) (v : UInt8) :
    (c.put x v).get y = if x = y ∧ x < c.size then v else c.get y := by
  rw [get, size_put, get, put]
  by_cases hx : x < c.size
  · by_cases hy : x = y
    · subst hy
      simp [hx]
    · simp [hx, hy, Function.update_of_ne (Ne.symm hy)]
  · simp [hx]

theorem putBytes_cons (c : ByteMap) (a : UInt64) (b : UInt8) (bs : List UInt8) :
    c.putBytes a (b :: bs) = (c.put a b).putBytes (a + 1) bs := by
  have hfirst : a + UInt64.ofNat 0 = a := UInt64.add_zero a
  have hnext (i : Nat) : a + UInt64.ofNat (i + 1) = a + 1 + UInt64.ofNat i := by
    rw [UInt64.ofNat_add, UInt64.add_comm (UInt64.ofNat i), ← UInt64.add_assoc]
    rfl
  simp only [putBytes, List.zipIdx_cons', List.foldl_cons, List.foldl_map, hfirst, Prod.map, id,
    hnext]

@[simp] theorem size_putBytes (c : ByteMap) (a : UInt64) (bs : List UInt8) :
    (c.putBytes a bs).size = c.size := by
  induction bs generalizing c a with
  | nil => rfl
  | cons b bs ih => rw [putBytes_cons, ih, size_put]

end ByteMap

/-! ## Numbers and their bytes -/

/-- The number whose bytes these are, the lowest first. -/
def littleEndian (bs : List UInt8) : Nat := Nat.ofDigits 256 (bs.map UInt8.toNat)

/-- The bytes of the low end of `v`, the lowest first. -/
def Width.digits (w : Width) (v : UInt32) : List UInt8 :=
  (List.range w.bytes).map fun i => UInt8.ofNat (v.toNat / 256 ^ i)

/-- Numbers without common bits are joined by adding them. -/
theorem Nat.or_shiftLeft {x k : Nat} (h : x < 2 ^ k) (y : Nat) : x ||| y <<< k = x + 2 ^ k * y := by
  have hjoin : 2 ^ k * y + x = 2 ^ k * y ||| x := Nat.two_pow_add_eq_or_of_lt h y
  rw [Nat.or_comm, Nat.shiftLeft_eq, Nat.mul_comm y, ← hjoin, Nat.add_comm]

theorem toNat_pair (x y : UInt8) :
    (x.toUInt16 ||| y.toUInt16 <<< 8).toNat = littleEndian [x, y] := by
  have hx := x.toNat_lt
  have hy := y.toNat_lt
  have hshift : (y.toUInt16 <<< 8).toNat = y.toNat <<< 8 := by
    rw [UInt16.toNat_shiftLeft, UInt8.toNat_toUInt16]
    show y.toNat <<< 8 % 2 ^ 16 = y.toNat <<< 8
    rw [Nat.shiftLeft_eq]
    exact Nat.mod_eq_of_lt (by omega)
  rw [UInt16.toNat_or, hshift, UInt8.toNat_toUInt16, Nat.or_shiftLeft hx]
  simp only [littleEndian, List.map_cons, List.map_nil, Nat.ofDigits_cons, Nat.ofDigits_nil]
  omega

theorem toNat_quad (x y z u : UInt8) :
    (x.toUInt32 ||| y.toUInt32 <<< 8 ||| z.toUInt32 <<< 16 ||| u.toUInt32 <<< 24).toNat =
      littleEndian [x, y, z, u] := by
  have hx := x.toNat_lt
  have hy := y.toNat_lt
  have hz := z.toNat_lt
  have hu := u.toNat_lt
  have hshift (b : UInt8) (k : UInt32) (hk : k.toNat ≤ 24) :
      (b.toUInt32 <<< k).toNat = b.toNat <<< k.toNat := by
    have hb := b.toNat_lt
    have hpow : 2 ^ k.toNat ≤ 2 ^ 24 := Nat.pow_le_pow_right (by decide) hk
    rw [UInt32.toNat_shiftLeft, UInt8.toNat_toUInt32, Nat.mod_eq_of_lt (by omega : k.toNat < 32),
      Nat.shiftLeft_eq]
    refine Nat.mod_eq_of_lt (Nat.lt_of_lt_of_le (Nat.mul_lt_mul_of_lt_of_le hb hpow (by decide)) ?_)
    decide
  simp only [UInt32.toNat_or, UInt8.toNat_toUInt32, hshift y 8 (by decide),
    hshift z 16 (by decide), hshift u 24 (by decide), UInt32.reduceToNat]
  rw [Nat.or_shiftLeft hx, Nat.or_shiftLeft (by omega : x.toNat + 2 ^ 8 * y.toNat < 2 ^ 16),
    Nat.or_shiftLeft (by omega)]
  simp only [littleEndian, List.map_cons, List.map_nil, Nat.ofDigits_cons, Nat.ofDigits_nil]
  omega

theorem Ram.toNat_read (m : Ram) (w : Width) (a : UInt64) :
    (m.read w a).toNat = littleEndian (m.readEach a w.bytes) := by
  have h0 : a + UInt64.ofNat 0 = a := UInt64.add_zero a
  cases w with
  | byte =>
    simp only [Ram.read, Ram.read8_eq, UInt8.toNat_toUInt32]
    show _ = littleEndian [m.byte (a + UInt64.ofNat 0).toNat]
    rw [h0]
    exact (Nat.add_zero _).symm
  | word =>
    simp only [Ram.read, Ram.read16_eq, Ram.read8_eq, UInt16.toNat_toUInt32, toNat_pair]
    show _ = littleEndian [m.byte (a + UInt64.ofNat 0).toNat, m.byte (a + 1).toNat]
    rw [h0]
  | dword =>
    simp only [Ram.read, Ram.read32_eq, Ram.read8_eq, toNat_quad]
    show _ = littleEndian [m.byte (a + UInt64.ofNat 0).toNat, m.byte (a + 1).toNat,
      m.byte (a + 2).toNat, m.byte (a + 3).toNat]
    rw [h0]

/-- Shifted to the low end, a byte is a digit to base 256. -/
theorem toUInt8_shiftRight (v : UInt32) {k : UInt32} {i : Nat} (hk : k.toNat = 8 * i)
    (hi : i < 4) : (v >>> k).toUInt8 = UInt8.ofNat (v.toNat / 256 ^ i) := by
  apply UInt8.toNat_inj.1
  rw [UInt32.toNat_toUInt8, UInt8.toNat_ofNat', UInt32.toNat_shiftRight,
    Nat.mod_eq_of_lt (by omega : k.toNat < 32), hk, Nat.shiftRight_eq_div_pow, Nat.pow_mul]

theorem Ram.write_eq_digits (m : Ram) (w : Width) (a : UInt64) (v : UInt32) :
    m.write w a v = m.writeEach a (w.digits v) := by
  have hlow : v.toUInt8 = UInt8.ofNat (v.toNat / 256 ^ 0) := by
    have h := toUInt8_shiftRight v (k := 0) (i := 0) rfl (by decide)
    rwa [UInt32.shiftRight_zero] at h
  rw [← Ram.writeBytes_eq]
  cases w with
  | byte =>
    show m.writeBytes a _ = _
    rw [hlow]
    rfl
  | word =>
    have hhigh : (v.toUInt16 >>> 8).toUInt8 = UInt8.ofNat (v.toNat / 256 ^ 1) := by
      apply UInt8.toNat_inj.1
      rw [UInt16.toNat_toUInt8, UInt8.toNat_ofNat', UInt16.toNat_shiftRight,
        UInt32.toNat_toUInt16, Nat.shiftRight_eq_div_pow]
      show v.toNat % 2 ^ 16 / 2 ^ 8 % 2 ^ 8 = v.toNat / 256 ^ 1 % 2 ^ 8
      omega
    show m.writeBytes a _ = _
    rw [UInt32.toUInt8_toUInt16, hlow, hhigh]
    rfl
  | dword =>
    show m.writeBytes a _ = _
    rw [hlow, toUInt8_shiftRight v (k := 8) (i := 1) rfl (by decide),
      toUInt8_shiftRight v (k := 16) (i := 2) rfl (by decide),
      toUInt8_shiftRight v (k := 24) (i := 3) rfl (by decide)]
    rfl

/-! ## Memory that is a byte map -/

/-- The bytes of `m` are those of `c`. -/
structure Ram.Refines (m : Ram) (c : ByteMap) : Prop where
  size : m.size = c.size.toNat
  byte : ∀ x : UInt64, m.byte x.toNat = c.get x

namespace Ram

variable {m : Ram} {c : ByteMap}

theorem refines_zeroed (size : UInt64) : (zeroed size.toNat).Refines (.zeroed size) := by
  refine ⟨rfl, fun x => ?_⟩
  rw [byte_zeroed]
  simp only [ByteMap.get, ByteMap.zeroed, UInt64.lt_iff_toNat_lt]

theorem Refines.clear (h : m.Refines c) : (m.fill 0).Refines c.clear := by
  refine ⟨h.size, fun x => ?_⟩
  rw [byte_fill, h.size]
  simp only [ByteMap.get, ByteMap.clear, UInt64.lt_iff_toNat_lt]

theorem Refines.put (h : m.Refines c) (x : UInt64) (v : UInt8) :
    (m.setByte x.toNat v).Refines (c.put x v) := by
  refine ⟨by rw [size_setByte, ByteMap.size_put, h.size], fun y => ?_⟩
  rw [byte_setByte, ByteMap.get_put, h.byte, h.size]
  simp only [UInt64.toNat_inj, UInt64.lt_iff_toNat_lt]

theorem Refines.putBytes (h : m.Refines c) (a : UInt64) (bs : List UInt8) :
    (m.writeEach a bs).Refines (c.putBytes a bs) := by
  induction bs generalizing m c a with
  | nil => exact h
  | cons b bs ih =>
    rw [writeEach, ByteMap.putBytes_cons]
    exact ih (h.put a b) (a + 1)

theorem Refines.bytes (h : m.Refines c) (a : UInt64) (n : Nat) : m.readEach a n = c.bytes a n :=
  List.map_congr_left fun i _ => h.byte (a + UInt64.ofNat i)

/-- With a size that is an address, the end of an access in memory cannot wrap around. -/
theorem Refines.start (h : m.Refines c) (a : UInt64) (n : Nat) :
    m.start a n = if a.toNat + n ≤ c.size.toNat then .ok a.toNat
      else .error ⟨a, n, c.size.toNat⟩ := by
  have hsize : c.size.toNat < UInt64.size := c.size.toNat_lt
  rw [Ram.start, h.size]
  by_cases hin : a.toNat + n ≤ c.size.toNat
  · rw [if_pos ⟨Nat.lt_of_le_of_lt hin hsize, hin⟩, if_pos hin]
  · rw [if_neg fun e => hin e.2, if_neg hin]

/-- Blocks in memory are read as on the bus. -/
theorem Refines.blockRead (h : m.Refines c) (a : UInt64) (n : Nat) :
    m.blockRead a n = if a.toNat + n ≤ c.size.toNat then .ok (m.readBytes a n)
      else .error ⟨a, n, c.size.toNat⟩ := by
  have hstart := h.start a n
  split at hstart
  case isTrue hin =>
    rw [Ram.blockRead, Ram.readBytes, hstart, if_pos hin]
    rfl
  case isFalse hin =>
    rw [Ram.blockRead, hstart, if_neg hin]
    rfl

/-- Blocks in memory are written as on the bus. -/
theorem Refines.blockWrite (h : m.Refines c) (a : UInt64) (bs : List UInt8) :
    m.blockWrite a bs = if a.toNat + bs.length ≤ c.size.toNat then .ok (m.writeBytes a bs)
      else .error ⟨a, bs.length, c.size.toNat⟩ := by
  have hstart := h.start a bs.length
  split at hstart
  case isTrue hin =>
    rw [Ram.blockWrite, Ram.writeBytes, hstart, if_pos hin]
    rfl
  case isFalse hin =>
    rw [Ram.blockWrite, hstart, if_neg hin]
    rfl

end Ram

/-! ## Accesses -/

inductive Access
  | read (w : Width) (a : UInt64)
  | write (w : Width) (a : UInt64) (v : UInt32)
  | readBytes (a : UInt64) (n : Nat)
  | writeBytes (a : UInt64) (bs : List UInt8)
  | blockRead (a : UInt64) (n : Nat)
  | blockWrite (a : UInt64) (bs : List UInt8)
  | clear

inductive Answer
  | number (n : Nat)
  | bytes (bs : List UInt8)
  | done
  | refused (e : OutOfRange)
  deriving DecidableEq

namespace Access

def onRam : Access → Ram → Answer × Ram
  | read w a, m => (.number (m.read w a).toNat, m)
  | write w a v, m => (.done, m.write w a v)
  | readBytes a n, m => (.bytes (m.readBytes a n), m)
  | writeBytes a bs, m => (.done, m.writeBytes a bs)
  | blockRead a n, m =>
    match m.blockRead a n with
    | .ok bs => (.bytes bs, m)
    | .error e => (.refused e, m)
  | blockWrite a bs, m =>
    match m.blockWrite a bs with
    | .ok m' => (.done, m')
    | .error e => (.refused e, m)
  | clear, m => (.done, m.fill 0)

def onMap : Access → ByteMap → Answer × ByteMap
  | read w a, c => (.number (littleEndian (c.bytes a w.bytes)), c)
  | write w a v, c => (.done, c.putBytes a (w.digits v))
  | readBytes a n, c => (.bytes (c.bytes a n), c)
  | writeBytes a bs, c => (.done, c.putBytes a bs)
  | blockRead a n, c =>
    if a.toNat + n ≤ c.size.toNat then (.bytes (c.bytes a n), c)
    else (.refused ⟨a, n, c.size.toNat⟩, c)
  | blockWrite a bs, c =>
    if a.toNat + bs.length ≤ c.size.toNat then (.done, c.putBytes a bs)
    else (.refused ⟨a, bs.length, c.size.toNat⟩, c)
  | clear, c => (.done, c.clear)

/-- The answers to a sequence of accesses, and what is left after the last one. -/
def replay {σ : Type} (act : Access → σ → Answer × σ) : List Access → σ → List Answer × σ
  | [], s => ([], s)
  | x :: xs, s =>
    let one := act x s
    let rest := replay act xs one.2
    (one.1 :: rest.1, rest.2)

/-- One access answers alike on a memory and its byte map, and leaves a memory and its byte map. -/
theorem refines_step {m : Ram} {c : ByteMap} (h : m.Refines c) (x : Access) :
    (x.onRam m).1 = (x.onMap c).1 ∧ (x.onRam m).2.Refines (x.onMap c).2 := by
  cases x with
  | read w a => exact ⟨by rw [onRam, onMap, Ram.toNat_read, h.bytes], h⟩
  | write w a v =>
    refine ⟨rfl, ?_⟩
    rw [onRam, Ram.write_eq_digits]
    exact h.putBytes a (w.digits v)
  | readBytes a n => exact ⟨by rw [onRam, onMap, Ram.readBytes_eq, h.bytes], h⟩
  | writeBytes a bs =>
    refine ⟨rfl, ?_⟩
    rw [onRam, Ram.writeBytes_eq]
    exact h.putBytes a bs
  | blockRead a n =>
    rw [onRam, onMap, h.blockRead]
    by_cases hin : a.toNat + n ≤ c.size.toNat
    · rw [if_pos hin, if_pos hin, Ram.readBytes_eq, h.bytes]
      exact ⟨rfl, h⟩
    · rw [if_neg hin, if_neg hin]
      exact ⟨rfl, h⟩
  | blockWrite a bs =>
    rw [onRam, onMap, h.blockWrite]
    by_cases hin : a.toNat + bs.length ≤ c.size.toNat
    · rw [if_pos hin, if_pos hin, Ram.writeBytes_eq]
      exact ⟨rfl, h.putBytes a bs⟩
    · rw [if_neg hin, if_neg hin]
      exact ⟨rfl, h⟩
  | clear => exact ⟨rfl, h.clear⟩

theorem size_onMap (x : Access) (c : ByteMap) : (x.onMap c).2.size = c.size := by
  cases x with
  | write w a v => exact ByteMap.size_putBytes c a (w.digits v)
  | writeBytes a bs => exact ByteMap.size_putBytes c a bs
  | blockRead a n =>
    rw [onMap]
    split <;> rfl
  | blockWrite a bs =>
    rw [onMap]
    split
    · exact ByteMap.size_putBytes c a bs
    · rfl
  | read | readBytes | clear => rfl

theorem size_replay_onMap (xs : List Access) (c : ByteMap) :
    (replay onMap xs c).2.size = c.size := by
  induction xs generalizing c with
  | nil => rfl
  | cons x xs ih => exact (ih _).trans (size_onMap x c)

theorem refines_replay {m : Ram} {c : ByteMap} (h : m.Refines c) (xs : List Access) :
    (replay onRam xs m).1 = (replay onMap xs c).1 ∧
      (replay onRam xs m).2.Refines (replay onMap xs c).2 := by
  induction xs generalizing m c with
  | nil => exact ⟨rfl, h⟩
  | cons x xs ih =>
    obtain ⟨hanswer, hnext⟩ := refines_step h x
    obtain ⟨hanswers, hlast⟩ := ih hnext
    exact ⟨congrArg₂ List.cons hanswer hanswers, hlast⟩

end Access

namespace Ram

/-- It makes no difference for `m` whether the bytes of an access are taken as a block or one by
one; and a block access is a bus access, refused exactly if it does not lie in memory as a whole. -/
structure Uniform (m : Ram) : Prop where
  slice : ∀ a n i, m.start a n = .ok i → m.slice i n = m.readEach a n
  patch : ∀ a bs i, m.start a bs.length = .ok i → m.patch i bs = m.writeEach a bs
  blockRead : ∀ a n, m.blockRead a n =
    if a.toNat + n ≤ m.size then .ok (m.readBytes a n) else .error ⟨a, n, m.size⟩
  blockWrite : ∀ a bs, m.blockWrite a bs =
    if a.toNat + bs.length ≤ m.size then .ok (m.writeBytes a bs)
    else .error ⟨a, bs.length, m.size⟩

theorem Refines.uniform {m : Ram} {c : ByteMap} (h : m.Refines c) : m.Uniform where
  slice _ _ _ := slice_of_start
  patch _ _ _ := patch_of_start
  blockRead a n := by rw [h.blockRead, h.size]
  blockWrite a bs := by rw [h.blockWrite, h.size]

/-- Whatever is done to a fresh memory, it answers like a byte map and stays one. -/
theorem refines_byteMap (size : UInt64) (xs : List Access) :
    let ram := Access.replay Access.onRam xs (.zeroed size.toNat)
    let map := Access.replay Access.onMap xs (.zeroed size)
    ram.1 = map.1 ∧ ram.2.Refines map.2 ∧ map.2.size = size ∧ ram.2.Uniform := by
  intro ram map
  obtain ⟨hanswers, hlast⟩ := Access.refines_replay (refines_zeroed size) xs
  exact ⟨hanswers, hlast, Access.size_replay_onMap xs _, hlast.uniform⟩

/-- Accesses around the end of the address space and across the end of a memory of two bytes: what
lies beyond floats high, and a block that ends there is refused and changes nothing. -/
example :
    (Access.replay Access.onRam
      [.write .word 0xFFFFFFFFFFFFFFFF 0x1234, .blockWrite 1 [7, 7], .read .dword 0,
        .blockRead 1 1] (zeroed 2)).1 =
      [.done, .refused ⟨1, 2, 2⟩, .number 0xFFFF0012, .bytes [0]] := by
  decide +kernel

end Ram

end Ia32
