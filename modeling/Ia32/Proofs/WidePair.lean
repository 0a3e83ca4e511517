/-
  The accumulator pair: AX, DX:AX or EDX:EAX, whichever is twice as wide as the operands.

  Main definitions:
  - `Cpu.pairHigh` : the upper half of the pair; the lower one is the low end of EAX
  - `System.AlikeBesidePair` : only the pair, the flags and EIP may differ
  - `Operand.Apart` : an operand that does not depend on the pair

  Main statements:
  - `Cpu.toNat_widePair` : the pair as a number
  - `Cpu.low_setWidePair`, `Cpu.pairHigh_setWidePair` : both halves are read back
  - `System.AlikeBesidePair.setWidePair` : nothing else changes
  - `System.AlikeBesidePair.value` : operands that keep their value
-/
import Ia32.Execute.Arithmetic
import Ia32.Proofs.Halves
import Ia32.Proofs.Sums

namespace Ia32

variable {w : Width} {lo hi : UInt32}

/-! ## Words in two parts -/

/-- A merged word is a sum: its two parts have no bit in common. -/
theorem Width.toNat_merge (w : Width) (x y : UInt32) :
    (w.merge x y).toNat = x.toNat / w.modulus * w.modulus + y.toNat % w.modulus := by
  have hx := x.toNat_lt
  have hlow : y.toNat % 2 ^ w.bits < 2 ^ w.bits := Nat.mod_lt _ (Nat.two_pow_pos _)
  have hmask : w.mask.toNat = 2 ^ w.bits - 1 := by rw [mask_toNat, modulus_eq]
  have hrest : (~~~w.mask).toNat = 2 ^ 32 - (2 ^ w.bits - 1 + 1) := by cases w <;> rfl
  have hbits : 2 ^ w.bits - 1 < 2 ^ 32 := by cases w <;> decide
  rw [modulus_eq, Nat.mul_comm, Nat.two_pow_add_eq_or_of_lt hlow]
  refine Nat.eq_of_testBit_eq fun i => ?_
  rw [merge, UInt32.toNat_or, UInt32.toNat_and, UInt32.toNat_and, hmask, hrest, Nat.testBit_or,
    Nat.testBit_or, Nat.testBit_and, Nat.testBit_and, Nat.testBit_two_pow_sub_succ hbits,
    Nat.testBit_two_pow_sub_one, Nat.testBit_two_pow_mul, Nat.testBit_div_two_pow,
    Nat.testBit_mod_two_pow]
  by_cases hi : i < w.bits
  · simp [hi, Nat.not_le_of_lt hi]
  · by_cases h32 : i < 32
    · simp [hi, h32, Nat.le_of_not_lt hi]
    · have hbeyond : x.toNat.testBit i = false :=
        Nat.testBit_lt_two_pow (hx.trans_le (Nat.pow_le_pow_right (by decide) (by omega)))
      simp [hi, hbeyond, Nat.le_of_not_lt hi]

theorem Width.toNat_lt_of_truncate {x : UInt32} (hx : w.truncate x = x) : x.toNat < w.modulus := by
  rw [← hx]
  exact w.unsigned_lt x

/-- A word next to another one. -/
theorem UInt64.toNat_shiftLeft_or {x y k : UInt64} (hk : k.toNat < 64)
    (hx : x.toNat < 2 ^ k.toNat) (hy : y.toNat < 2 ^ (64 - k.toNat)) :
    (y <<< k ||| x).toNat = y.toNat * 2 ^ k.toNat + x.toNat := by
  have hshift : y.toNat * 2 ^ k.toNat < 2 ^ 64 := by
    calc y.toNat * 2 ^ k.toNat < 2 ^ (64 - k.toNat) * 2 ^ k.toNat :=
          Nat.mul_lt_mul_of_pos_right hy (Nat.two_pow_pos _)
      _ = 2 ^ 64 := by rw [← Nat.pow_add, Nat.sub_add_cancel hk.le]
  rw [UInt64.toNat_or, UInt64.toNat_shiftLeft, Nat.mod_eq_of_lt hk, Nat.shiftLeft_eq,
    Nat.mod_eq_of_lt hshift, Nat.mul_comm, Nat.two_pow_add_eq_or_of_lt hx]

theorem Gprs.toNat_low (g : Gprs) (r : Gpr) (w : Width) :
    (g.low r w).toNat = (g.get r).toNat % w.modulus := w.toNat_truncate _

theorem Gprs.toNat_high (g : Gprs) (r : Gpr) :
    (g.high r).toNat = (g.get r).toNat / 2 ^ 8 % 2 ^ 8 := by
  have hshift : (g.get r >>> 8).toNat = (g.get r).toNat / 2 ^ 8 := by
    rw [UInt32.toNat_shiftRight, Nat.shiftRight_eq_div_pow]
    rfl
  rw [Gprs.high, UInt32.toNat_and, hshift]
  exact Nat.and_two_pow_sub_one_eq_mod _ 8

/-! ## The halves -/

namespace Cpu

variable (c : Cpu)

/-- The upper half of the accumulator pair. -/
def pairHigh (w : Width) : UInt32 :=
  match w with
  | .byte => c.gprs.high .eax
  | _ => c.low .edx w

@[simp] theorem low_setLow (r : Gpr) (w : Width) (v : UInt32) :
    (c.setLow r w v).low r w = w.truncate v := Gprs.low_setLow _ _ _ _

theorem get_setLow_of_ne {r q : Gpr} (h : q ≠ r) (w : Width) (v : UInt32) :
    (c.setLow r w v).gprs.get q = c.gprs.get q := Gprs.get_setLow_of_ne h _ _

theorem truncate_low (r : Gpr) (w : Width) : w.truncate (c.low r w) = c.low r w :=
  w.truncate_truncate _

theorem truncate_pairHigh (w : Width) : w.truncate (c.pairHigh w) = c.pairHigh w := by
  cases w
  case byte =>
    have hlt : (c.gprs.high .eax).toNat < Width.byte.modulus := by
      rw [Gprs.toNat_high]
      exact Nat.mod_lt _ (by decide)
    exact Width.truncate_eq_self hlt
  all_goals exact c.truncate_low .edx _

/-- The pair is its two halves. -/
theorem toNat_widePair (w : Width) :
    (c.widePair w).toNat = (c.pairHigh w).toNat * w.modulus + (c.low .eax w).toNat := by
  cases w with
  | byte =>
    have hpair : (c.widePair .byte).toNat = c.gprs.eax.toNat % 2 ^ 16 := rfl
    have hhigh : (c.pairHigh .byte).toNat = c.gprs.eax.toNat / 2 ^ 8 % 2 ^ 8 :=
      c.gprs.toNat_high .eax
    have hlow : (c.low .eax .byte).toNat = c.gprs.eax.toNat % 2 ^ 8 := c.gprs.toNat_low .eax .byte
    rw [hpair, hhigh, hlow]
    change _ = _ * 2 ^ 8 + _
    omega
  | word =>
    have hhigh : (c.pairHigh .word).toNat = c.dx.toUInt64.toNat := c.gprs.toNat_low .edx .word
    have hlow : (c.low .eax .word).toNat = c.ax.toUInt64.toNat := c.gprs.toNat_low .eax .word
    have hdx : c.dx.toUInt64.toNat < 2 ^ 48 := c.dx.toNat_lt.trans_le (by decide)
    rw [hhigh, hlow]
    exact UInt64.toNat_shiftLeft_or (k := 16) (by decide) c.ax.toNat_lt hdx
  | dword =>
    have hhigh : c.pairHigh .dword = c.gprs.edx := Width.truncate_dword _
    have hlow : c.low .eax .dword = c.gprs.eax := Width.truncate_dword _
    rw [hhigh, hlow]
    exact UInt64.toNat_shiftLeft_or (x := c.gprs.eax.toUInt64) (y := c.gprs.edx.toUInt64) (k := 32)
      (by decide) c.gprs.eax.toNat_lt c.gprs.edx.toNat_lt

/-- AX after its two bytes have been replaced. -/
theorem toNat_eax_setWidePair (hlo : Width.truncate .byte lo = lo)
    (hhi : Width.truncate .byte hi = hi) :
    (c.setWidePair .byte lo hi).gprs.eax.toNat =
      c.gprs.eax.toNat / 2 ^ 16 * 2 ^ 16 + (hi.toNat * 2 ^ 8 + lo.toNat) := by
  have hl : lo.toNat < 2 ^ 8 := Width.toNat_lt_of_truncate hlo
  have hh : hi.toNat < 2 ^ 8 := Width.toNat_lt_of_truncate hhi
  have hshift : (hi <<< 8).toNat = hi.toNat * 2 ^ 8 := by
    rw [UInt32.toNat_shiftLeft, Nat.shiftLeft_eq]
    change hi.toNat * 2 ^ 8 % 2 ^ 32 = _
    exact Nat.mod_eq_of_lt (by omega)
  have hpair : (hi <<< 8 ||| lo).toNat = hi.toNat * 2 ^ 8 + lo.toNat := by
    rw [UInt32.toNat_or, hshift, Nat.mul_comm, Nat.two_pow_add_eq_or_of_lt hl]
  have hsmall : hi.toNat * 2 ^ 8 + lo.toNat < 2 ^ 16 := by omega
  change (Width.merge .word c.gprs.eax (hi <<< 8 ||| lo)).toNat = _
  rw [Width.toNat_merge, hpair]
  exact congrArg _ (Nat.mod_eq_of_lt hsmall)

/-- The lower half of the pair is read back. -/
theorem low_setWidePair (hlo : w.truncate lo = lo) (hhi : w.truncate hi = hi) :
    (c.setWidePair w lo hi).low .eax w = lo := by
  -- a write to EDX is not seen in EAX
  have hwide (v : Width) : ((c.setLow .eax v lo).setLow .edx v hi).low .eax v = v.truncate lo := by
    have heax := (c.setLow .eax v lo).get_setLow_of_ne (show Gpr.eax ≠ .edx by decide) v hi
    exact (congrArg v.truncate heax).trans (c.low_setLow .eax v lo)
  cases w
  case byte =>
    have hl : lo.toNat < 2 ^ 8 := Width.toNat_lt_of_truncate hlo
    have h := c.toNat_eax_setWidePair hlo hhi
    have hlow : ((c.setWidePair .byte lo hi).low .eax .byte).toNat =
      (c.setWidePair .byte lo hi).gprs.eax.toNat % 2 ^ 8 := Gprs.toNat_low _ _ _
    rw [← UInt32.toNat_inj, hlow, h]
    omega
  all_goals exact (hwide _).trans hlo

/-- So is the upper one. -/
theorem pairHigh_setWidePair (hlo : w.truncate lo = lo) (hhi : w.truncate hi = hi) :
    (c.setWidePair w lo hi).pairHigh w = hi := by
  cases w
  case byte =>
    have hl : lo.toNat < 2 ^ 8 := Width.toNat_lt_of_truncate hlo
    have hh : hi.toNat < 2 ^ 8 := Width.toNat_lt_of_truncate hhi
    have h := c.toNat_eax_setWidePair hlo hhi
    have hhigh : ((c.setWidePair .byte lo hi).pairHigh .byte).toNat =
      (c.setWidePair .byte lo hi).gprs.eax.toNat / 2 ^ 8 % 2 ^ 8 := Gprs.toNat_high _ _
    rw [← UInt32.toNat_inj, hhigh, h]
    omega
  all_goals exact (low_setLow _ .edx _ hi).trans hhi

end Cpu

/-! ## What lies beside the pair -/

/-- The register holds part of the pair. -/
def Gpr.InPair (w : Width) (r : Gpr) : Prop := r = .eax ∨ r = .edx ∧ w ≠ .byte

instance (w : Width) (r : Gpr) : Decidable (r.InPair w) := inferInstanceAs (Decidable (_ ∨ _))

namespace Cpu

variable (c : Cpu) {r : Gpr}

theorem get_setWidePair (hr : ¬ r.InPair w) :
    (c.setWidePair w lo hi).gprs.get r = c.gprs.get r := by
  obtain ⟨heax, hedx⟩ := not_or.1 hr
  cases w
  case byte => exact c.get_setLow_of_ne heax _ _
  all_goals
    have hedx : r ≠ .edx := fun e => hedx ⟨e, nofun⟩
    exact (get_setLow_of_ne _ hedx _ hi).trans (c.get_setLow_of_ne heax _ lo)

theorem upper_setLow_word (q : Gpr) (v : UInt32) : (c.setLow r .word v).upper q = c.upper q := by
  change (c.gprs.set r _).get q >>> 16 = c.gprs.get q >>> 16
  rw [Gprs.get_set]
  split_ifs with hq
  · rw [Width.shiftRight_merge_word, hq]
  · rfl

theorem upper_setWidePair (hw : w ≠ .dword) (r : Gpr) :
    (c.setWidePair w lo hi).upper r = c.upper r := by
  cases w
  case dword => exact absurd rfl hw
  case byte => exact c.upper_setLow_word r _
  case word => exact (upper_setLow_word _ r _).trans (c.upper_setLow_word r _)

end Cpu

variable {δ : Type} {s t : System δ}

/-- The two systems are equal but for the accumulator pair, the flags and EIP. -/
structure System.AlikeBesidePair (w : Width) (s t : System δ) : Prop where
  others : ∀ r, ¬ Gpr.InPair w r → t.cpu.gprs.get r = s.cpu.gprs.get r
  upper : w ≠ .dword → ∀ r, t.cpu.upper r = s.cpu.upper r
  cpu : t.cpu = { s.cpu with gprs := t.cpu.gprs, flags := t.cpu.flags, eip := t.cpu.eip }
  ram : t.ram = s.ram
  io : t.io = s.io

/-- Neither the operand nor its address lies in the accumulator pair. -/
def Operand.Apart (x : Operand) (w : Width) : Prop :=
  match x with
  | .register r => r.file = .general → ¬ r.slot.1.InPair w
  | .memory m _ => ∀ r, m.base = some r ∨ m.index = some r → ¬ r.InPair w
  | .immediate _ _ => True

namespace System.AlikeBesidePair

theorem setWidePair (s : System δ) (w : Width) (lo hi : UInt32) (f : Flags) (e : UInt32) :
    s.AlikeBesidePair w
      (s.modifyCpu fun c => { c.setWidePair w lo hi with flags := f, eip := e }) where
  others _ hr := s.cpu.get_setWidePair hr
  upper hw := s.cpu.upper_setWidePair hw
  cpu := by
    cases w <;> rfl
  ram := rfl
  io := rfl

theorem readRegister {r : RegisterRef} (h : s.AlikeBesidePair w t)
    (hr : r.file = .general → ¬ r.slot.1.InPair w) :
    t.cpu.readRegister r = s.cpu.readRegister r := by
  cases hfile : r.file with
  | general =>
    have hget := h.others _ (hr hfile)
    unfold Cpu.readRegister
    simp only [hfile]
    rcases hslot : r.slot with ⟨g, _ | _⟩ <;> rw [hslot] at hget
    · exact congrArg r.width.truncate hget
    · exact congrArg (fun x : UInt32 => x >>> 8 &&& 0xFF) hget
  | segment =>
    rw [h.cpu, Cpu.readRegister, Cpu.readRegister, hfile]
    rfl
  | control | debug =>
    rw [h.cpu, Cpu.readRegister, Cpu.readRegister, hfile]

theorem effectiveOffset {m : MemoryOperand} (h : s.AlikeBesidePair w t)
    (hm : ∀ r, m.base = some r ∨ m.index = some r → ¬ r.InPair w) (a : AddressSize) :
    t.cpu.effectiveOffset a m = s.cpu.effectiveOffset a m := by
  have hmap (x : Option Gpr) (hx : ∀ r, x = some r → ¬ r.InPair w) :
      x.map t.cpu.gprs.get = x.map s.cpu.gprs.get :=
    Option.map_congr fun r hr => h.others r (hx r hr)
  unfold Cpu.effectiveOffset
  rw [hmap _ fun r hr => hm r (.inl hr), hmap _ fun r hr => hm r (.inr hr)]

theorem trans {u : System δ} (h : s.AlikeBesidePair w t) (k : t.AlikeBesidePair w u) :
    s.AlikeBesidePair w u where
  others r hr := (k.others r hr).trans (h.others r hr)
  upper hw r := (k.upper hw r).trans (h.upper hw r)
  cpu := by
    rw [k.cpu, h.cpu]
  ram := k.ram.trans h.ram
  io := k.io.trans h.io

/-- An operand apart from the pair keeps its value. -/
theorem value {x : Operand} (h : s.AlikeBesidePair w t) (hx : x.Apart w) (a : AddressSize) :
    t.value a x = s.value a x := by
  cases x with
  | register r => exact h.readRegister hx
  | memory m v =>
    change t.ram.read v (t.cpu.linear m.segment (t.cpu.effectiveOffset a m)).toUInt64 =
      s.ram.read v (s.cpu.linear m.segment (s.cpu.effectiveOffset a m)).toUInt64
    rw [h.ram, h.effectiveOffset hx, h.cpu]
    rfl
  | immediate v u => rfl

end System.AlikeBesidePair

end Ia32
