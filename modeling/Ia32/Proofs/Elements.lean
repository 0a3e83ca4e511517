/-
  The elements of a string in memory.

  Main definitions:
  - `Ram.Filled` : memory with elements put into it
  - `System.sourceElement`, `System.destinationElement` : what the elements hold
  - `System.HasRoom`, `System.Stored` : room for the elements of the destination, and what is put
    there

  Main statements:
  - `Cpu.destination_disjoint` : elements do not overlap unless the index register comes around
  - `Ram.Filled.write`, `System.HasRoom.stored` : one element more
-/
import Ia32.Proofs.Strings

namespace Ia32

variable {δ : Type} {i : Instruction} {n k : Nat}

namespace Cpu

theorem wrap_elementOffset (c : Cpu) (r : Gpr) (i : Instruction) (k : Nat) :
    i.addressSize.wrap (c.elementOffset r i k) = c.elementOffset r i k :=
  Width.truncate_truncate _ _

/-- One of two elements lies further on than the other, in one direction or the other. -/
theorem elementOffset_apart (c : Cpu) (r : Gpr) (i : Instruction) (j d : Nat) :
    c.elementOffset r i (j + d) =
        i.addressSize.wrap (c.elementOffset r i j + UInt32.ofNat d * i.dataWidth.stride) ∨
      c.elementOffset r i j =
        i.addressSize.wrap (c.elementOffset r i (j + d) + UInt32.ofNat d * i.dataWidth.stride) := by
  have hadd := c.elementOffset_add r i j d
  unfold pace at hadd
  split_ifs at hadd
  · refine .inr ?_
    have hback : UInt32.ofNat d * -i.dataWidth.stride + UInt32.ofNat d * i.dataWidth.stride = 0 := by
      rw [← UInt32.mul_add, UInt32.add_left_neg, UInt32.mul_zero]
    have hzero := c.wrap_elementOffset r i j
    rw [← hadd]
    unfold AddressSize.wrap at hzero ⊢
    rw [Width.truncate_add, UInt32.add_assoc, hback, UInt32.add_zero, hzero]
  · exact .inl hadd.symm

/-- Elements of the destination do not overlap, if there are so few of them that the index register
does not come around. -/
theorem destination_disjoint (c : Cpu) {j : Nat}
    (hn : n * i.dataWidth.bytes ≤ i.addressSize.width.modulus) (hj : j < n) (hk : k < n)
    (hne : j ≠ k) {b : Nat} (hb : i.dataWidth.Covers (c.destinationAddress i j) b) :
    ¬ i.dataWidth.Covers (c.destinationAddress i k) b := by
  have hlater (j d : Nat) (hd : 0 < d) (hjd : j + d < n) (b : Nat) :
      ¬ (i.dataWidth.Covers (c.destinationAddress i j) b ∧
        i.dataWidth.Covers (c.destinationAddress i (j + d)) b) := by
    rintro ⟨hj, hk⟩
    have hbound : (d + 1) * i.dataWidth.bytes ≤ i.addressSize.width.modulus :=
      Nat.le_trans (Nat.mul_le_mul_right _ (by omega)) hn
    have hmodulus := i.addressSize.width.modulus_le
    have hgap : (UInt32.ofNat d * i.dataWidth.stride).toNat = d * i.dataWidth.bytes := by
      have hbytes : 0 < i.dataWidth.bytes := by cases i.dataWidth <;> decide
      have hd' : d ≤ d * i.dataWidth.bytes := Nat.le_mul_of_pos_right d hbytes
      rw [Nat.succ_mul] at hbound
      rw [UInt32.toNat_mul, UInt32.toNat_ofNat', Width.stride_toNat,
        Nat.mod_eq_of_lt (by omega : d < 2 ^ 32)]
      exact Nat.mod_eq_of_lt (by omega)
    have hlow : i.dataWidth.bytes ≤ (UInt32.ofNat d * i.dataWidth.stride).toNat := by
      rw [hgap]
      exact Nat.le_mul_of_pos_left _ hd
    have hhigh : (UInt32.ofNat d * i.dataWidth.stride).toNat + i.dataWidth.bytes ≤
        i.addressSize.width.modulus := by
      rwa [hgap, ← Nat.succ_mul]
    unfold destinationAddress linear at hj hk
    rcases c.elementOffset_apart .edi i j d with e | e
    · rw [e] at hk
      rw [← c.wrap_elementOffset] at hj
      exact Width.covers_disjoint _ hlow hhigh hj hk
    · rw [e] at hj
      rw [← c.wrap_elementOffset] at hk
      exact Width.covers_disjoint _ hlow hhigh hk hj
  intro hb'
  rcases Nat.lt_or_gt_of_ne hne with hlt | hlt
  · obtain ⟨d, rfl⟩ := Nat.exists_eq_add_of_lt hlt
    exact hlater j (d + 1) (Nat.succ_pos d) hk b ⟨hb, hb'⟩
  · obtain ⟨d, rfl⟩ := Nat.exists_eq_add_of_lt hlt
    exact hlater k (d + 1) (Nat.succ_pos d) hj b ⟨hb', hb⟩

end Cpu

/-! ## Memory with elements put into it -/

namespace Ram

/-- Memory `m'` is memory `m`, except that it holds `n` elements of width `w`: `v k` at address
`a k`, for each `k`. -/
structure Filled (m m' : Ram) (w : Width) (a v : Nat → UInt32) (n : Nat) : Prop where
  size : m'.size = m.size
  inside : ∀ k < n, m'.read w (a k).toUInt64 = v k
  outside : ∀ b, (∀ k < n, ¬ w.Covers (a k) b) → m'.byte b = m.byte b

namespace Filled

variable {m m' : Ram} {w : Width} {a v : Nat → UInt32}

theorem refl (m : Ram) (w : Width) (a v : Nat → UInt32) : Filled m m w a v 0 :=
  ⟨rfl, fun _ h => absurd h (Nat.not_lt_zero _), fun _ _ => rfl⟩

/-- One element more, which overlaps none before it. -/
theorem write {x : UInt32} (h : Filled m m' w a v n) (hx : w.truncate x = v n)
    (hroom : (a n).toNat + w.bytes ≤ m.size)
    (hapart : ∀ k < n, ∀ b, w.Covers (a k) b → ¬ w.Covers (a n) b) :
    Filled m (m'.write w (a n).toUInt64 x) w a v (n + 1) where
  size := by rw [size_write, h.size]
  inside k hk := by
    rcases Nat.lt_succ_iff_lt_or_eq.1 hk with hlt | rfl
    · rw [read_write_of_disjoint _ (hapart k hlt), h.inside k hlt]
    · rw [read_write _ (by rw [h.size]; exact hroom), hx]
  outside b hb := by
    rw [byte_write _ (hb n (Nat.lt_succ_self n))]
    exact h.outside b fun k hk => hb k (Nat.lt_succ_of_lt hk)

/-- An element that overlaps none of those put into memory is as before. -/
theorem read_of_disjoint (h : Filled m m' w a v n) {x : UInt32}
    (hapart : ∀ k < n, ∀ b, w.Covers x b → ¬ w.Covers (a k) b) :
    m'.read w x.toUInt64 = m.read w x.toUInt64 :=
  read_congr fun b hb => h.outside b fun k hk => hapart k hk b hb

end Filled

end Ram

namespace System

variable {s t : System δ} {v : Nat → UInt32}

/-- Element number `k` of the source. -/
def sourceElement (s : System δ) (i : Instruction) (k : Nat) : UInt32 :=
  s.readLinear (s.cpu.sourceAddress i k) i.dataWidth

/-- Element number `k` of the destination. -/
def destinationElement (s : System δ) (i : Instruction) (k : Nat) : UInt32 :=
  s.readLinear (s.cpu.destinationAddress i k) i.dataWidth

/-- As long as memory is as in the beginning, the source index leads to the elements of the source. -/
theorem read_source {o : StringOp} (h : o.Walked i s.cpu n k t.cpu) (hs : o.readsSource = true)
    (hram : t.ram = s.ram) : t.read (i.prefixes.segment.getD .ds)
      (t.cpu.low .esi i.addressSize.width) i.dataWidth = s.sourceElement i k := by
  rw [read, h.source hs, readLinear, hram]
  rfl

/-- The first `n` elements of the destination lie in memory, and are so few that the index register
does not come around. -/
structure HasRoom (s : System δ) (i : Instruction) (n : Nat) : Prop where
  around : n * i.dataWidth.bytes ≤ i.addressSize.width.modulus
  backed : ∀ k < n, (s.cpu.destinationAddress i k).toNat + i.dataWidth.bytes ≤ s.ram.size

/-- The first `n` elements of the destination of `s` hold `v`, and nothing else differs in `t`. -/
def Stored (s : System δ) (i : Instruction) (v : Nat → UInt32) (n : Nat) (t : System δ) : Prop :=
  s.ram.Filled t.ram i.dataWidth (s.cpu.destinationAddress i) v n

/-- One element more of the destination. -/
theorem HasRoom.stored {x : UInt32} (h : s.HasRoom i n) (hk : k < n) (ht : s.Stored i v k t)
    (hx : i.dataWidth.truncate x = v k) {u : System δ}
    (hu : u.ram = t.ram.write i.dataWidth (s.cpu.destinationAddress i k).toUInt64 x) :
    s.Stored i v (k + 1) u := by
  rw [Stored, hu]
  exact Ram.Filled.write ht hx (h.backed k hk) fun j hj b =>
    s.cpu.destination_disjoint h.around (Nat.lt_trans hj hk) hk (Nat.ne_of_lt hj)

end System

end Ia32
