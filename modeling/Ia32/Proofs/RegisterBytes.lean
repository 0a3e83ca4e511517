/-
  The views of the general registers, and the bytes behind them.

  A general register is seen as a whole, by its low end, by its second byte, or in the way in which
  an instruction refers to it, where the encoding of a byte register tells one byte from the other.
  All of these are views of the same bytes, four to a register: a byte is what was last written to
  it, through whatever view, and a view reads the bytes that it covers.

  Main definitions:
  - `byteOf` : a byte of a word
  - `Cpu.registerByte` : a byte of a general register
  - `RegisterView` : a way to a general register
  - `RegisterView.Covers` : the bytes in a view
  - `RegisterView.lastWritten` : what a byte was last made by a sequence of writes

  Main statements:
  - `ext_byteOf` : a word is its bytes
  - `RegisterView.byteOf_read` : a view reads the bytes that it covers
  - `RegisterView.write?_spec` : a write stores the bytes that the view covers, and no others
  - `RegisterView.writeAll?_spec` : any number of writes
  - `RegisterView.read_of_writes` : the views are aliases of one store of bytes
-/
import Ia32.Cpu
import Mathlib.Tactic.Common
import Mathlib.Tactic.IntervalCases

namespace Ia32

/-! ## Bytes of a word -/

/-- The byte of a word at position `k`, the lowest being at position 0. -/
def byteOf (x : UInt32) (k : Nat) : UInt8 := UInt8.ofBitVec (x.toBitVec.extractLsb' (8 * k) 8)

theorem byteOf_and (x y : UInt32) (k : Nat) : byteOf (x &&& y) k = byteOf x k &&& byteOf y k := by
  simp [byteOf, BitVec.extractLsb'_and]

theorem byteOf_or (x y : UInt32) (k : Nat) : byteOf (x ||| y) k = byteOf x k ||| byteOf y k := by
  simp [byteOf, BitVec.extractLsb'_or]

/-- Bytes are equal if their bits are. -/
theorem byteOf_congr {x y : UInt32} {j k : Nat}
    (h : ∀ i < 8, x.toBitVec.getLsbD (8 * j + i) = y.toBitVec.getLsbD (8 * k + i)) :
    byteOf x j = byteOf y k := by
  apply UInt8.toBitVec_inj.1
  apply BitVec.eq_of_getLsbD_eq
  intro i hi
  simp only [byteOf, UInt8.toBitVec_ofBitVec, BitVec.getLsbD_extractLsb', h i hi]

/-- Words are equal if their bytes are. -/
theorem ext_byteOf {x y : UInt32} (h : ∀ k < 4, byteOf x k = byteOf y k) : x = y := by
  apply UInt32.toBitVec_inj.1
  apply BitVec.eq_of_getLsbD_eq
  intro i hi
  have hbit := congrArg (fun b : UInt8 => b.toBitVec.getLsbD (i % 8)) (h (i / 8) (by omega))
  have hlt : i % 8 < 8 := Nat.mod_lt _ (by decide)
  simpa only [byteOf, UInt8.toBitVec_ofBitVec, BitVec.getLsbD_extractLsb', hlt, decide_true,
    Bool.true_and, Nat.div_add_mod] using hbit

theorem byteOf_shiftRight (x : UInt32) (k : Nat) : byteOf (x >>> 8) k = byteOf x (k + 1) := by
  refine byteOf_congr fun i _ => ?_
  have hplaces : ((8 : UInt32).toBitVec % 32).toNat = 8 := rfl
  have hindex : 8 + (8 * k + i) = 8 * (k + 1) + i := by omega
  rw [UInt32.toBitVec_shiftRight, BitVec.ushiftRight_eq', BitVec.getLsbD_ushiftRight, hplaces,
    hindex]

theorem byteOf_shiftLeft_zero (x : UInt32) : byteOf (x <<< 8) 0 = 0 := by
  have hzero : byteOf (0 : UInt32) 0 = 0 := rfl
  rw [← hzero]
  refine byteOf_congr fun i hi => ?_
  simp [UInt32.toBitVec_shiftLeft, BitVec.shiftLeft_eq', hi]

theorem byteOf_shiftLeft_succ (x : UInt32) {k : Nat} (hk : k < 3) :
    byteOf (x <<< 8) (k + 1) = byteOf x k := by
  refine byteOf_congr fun i hi => ?_
  have hplaces : ((8 : UInt32).toBitVec % 32).toNat = 8 := rfl
  have hindex : 8 * (k + 1) + i - 8 = 8 * k + i := by omega
  have hbound : 8 * (k + 1) + i < 32 := by omega
  have habove : ¬ 8 * (k + 1) + i < 8 := by omega
  rw [UInt32.toBitVec_shiftLeft, BitVec.shiftLeft_eq', hplaces, BitVec.getLsbD_shiftLeft, hindex,
    decide_eq_true hbound, decide_eq_false habove]
  simp

theorem byteOf_mask (w : Width) {k : Nat} (hk : k < 4) :
    byteOf w.mask k = if k < w.bytes then 0xFF else 0 := by
  cases w <;> interval_cases k <;> rfl

theorem byteOf_not_mask (w : Width) {k : Nat} (hk : k < 4) :
    byteOf (~~~w.mask) k = if k < w.bytes then 0 else 0xFF := by
  cases w <;> interval_cases k <;> rfl

theorem byteOf_truncate (w : Width) (x : UInt32) {k : Nat} (hk : k < 4) :
    byteOf (w.truncate x) k = if k < w.bytes then byteOf x k else 0 := by
  rw [Width.truncate, byteOf_and, byteOf_mask w hk]
  split_ifs
  · exact UInt8.and_neg_one
  · exact UInt8.and_zero

theorem byteOf_merge (w : Width) (x y : UInt32) {k : Nat} (hk : k < 4) :
    byteOf (w.merge x y) k = if k < w.bytes then byteOf y k else byteOf x k := by
  rw [Width.merge, byteOf_or, byteOf_and, byteOf_and, byteOf_mask w hk, byteOf_not_mask w hk]
  split_ifs
  · rw [UInt8.and_zero, UInt8.zero_or]
    exact UInt8.and_neg_one
  · rw [UInt8.and_zero, UInt8.or_zero]
    exact UInt8.and_neg_one

namespace Gprs

variable (g : Gprs) (r q : Gpr) (w : Width) (v : UInt32) {k : Nat}

theorem byteOf_low (hk : k < 4) :
    byteOf (g.low r w) k = if k < w.bytes then byteOf (g.get r) k else 0 :=
  byteOf_truncate w _ hk

theorem byteOf_setLow (hk : k < 4) : byteOf ((g.setLow r w v).get q) k =
    if q = r ∧ k < w.bytes then byteOf v k else byteOf (g.get q) k := by
  rw [setLow, get_set]
  by_cases h : q = r
  · subst h
    simp only [if_true, true_and, byteOf_merge w _ v hk]
  · simp only [h, if_false, false_and]

theorem byteOf_high (hk : k < 4) :
    byteOf (g.high r) k = if k < 1 then byteOf (g.get r) (k + 1) else 0 := by
  have hhigh : g.high r = Width.byte.truncate (g.get r >>> 8) := rfl
  rw [hhigh, byteOf_truncate _ _ hk, byteOf_shiftRight]
  rfl

theorem byteOf_setHigh (hk : k < 4) : byteOf ((g.setHigh r v).get q) k =
    if q = r ∧ k = 1 then byteOf v 0 else byteOf (g.get q) k := by
  -- The mask keeps all bytes but the second, and the shift moves the new byte there.
  have hkept : byteOf 0xFFFF00FF k = if k = 1 then 0 else 0xFF := by interval_cases k <;> rfl
  have hwritten : byteOf ((v &&& 0xFF) <<< 8) k = if k = 1 then byteOf v 0 else 0 := by
    cases k with
    | zero => exact byteOf_shiftLeft_zero _
    | succ k =>
      have hbyte : v &&& 0xFF = Width.byte.truncate v := rfl
      rw [byteOf_shiftLeft_succ _ (by omega), hbyte, byteOf_truncate _ _ (by omega)]
      simp only [Width.bytes, Nat.lt_one_iff, Nat.add_eq_right]
      split_ifs with h
      · rw [h]
      · rfl
  rw [setHigh, get_set]
  by_cases h : q = r
  · subst h
    simp only [if_true, true_and]
    rw [byteOf_or, byteOf_and, hkept, hwritten]
    split_ifs
    · rw [UInt8.and_zero, UInt8.zero_or]
    · rw [UInt8.or_zero]
      exact UInt8.and_neg_one
  · simp only [h, if_false, false_and]

/-- The second byte of a register after it has been written. -/
theorem high_setHigh : (g.setHigh r v).high r = v &&& 0xFF := by
  refine ext_byteOf fun k hk => ?_
  have hbyte : v &&& 0xFF = Width.byte.truncate v := rfl
  rw [byteOf_high _ _ hk, hbyte, byteOf_truncate _ _ hk]
  by_cases h : k < 1
  · obtain rfl : k = 0 := by omega
    rw [byteOf_setHigh _ _ _ _ (by decide)]
    simp [Width.bytes]
  · simp only [Width.bytes, h, if_false]

end Gprs

/-! ## Views -/

/-- A byte of a general register. -/
def Cpu.registerByte (c : Cpu) (r : Gpr) (k : Nat) : UInt8 := byteOf (c.gprs.get r) k

/-- A way to a general register: as instructions refer to it, by its low end, by its second byte, or
as a whole. -/
inductive RegisterView
  | reference (i : Fin 8) (w : Width)
  | low (r : Gpr) (w : Width)
  | second (r : Gpr)
  | whole (r : Gpr)
  deriving DecidableEq, Repr

namespace RegisterView

/-- What is read through a view; bytes are extended by zeros. -/
def read (c : Cpu) : RegisterView → UInt32
  | reference i w => c.readRegister (.general i w)
  | low r w => c.low r w
  | second r => c.gprs.high r
  | whole r => c.gprs.get r

def write? (c : Cpu) (x : UInt32) : RegisterView → Option Cpu
  | reference i w => c.writeRegister? (.general i w) x
  | low r w => some (c.setLow r w x)
  | second r => some (c.setHigh r x)
  | whole r => some { c with gprs := c.gprs.set r x }

/-- The register behind a view.  The encodings of byte registers name the first four registers
twice. -/
def register : RegisterView → Gpr
  | reference i .byte => Gpr.ofCode (i % 4)
  | reference i _ => Gpr.ofCode i
  | low r _ | second r | whole r => r

/-- The first byte in a view. -/
def first : RegisterView → Nat
  | reference i .byte => i / 4
  | second _ => 1
  | reference _ _ | low _ _ | whole _ => 0

/-- The number of bytes in a view. -/
def size : RegisterView → Nat
  | reference _ w | low _ w => w.bytes
  | second _ => 1
  | whole _ => 4

/-- Byte `k` of register `r` lies in the view. -/
def Covers (v : RegisterView) (r : Gpr) (k : Nat) : Prop :=
  r = v.register ∧ v.first ≤ k ∧ k < v.first + v.size

instance (v : RegisterView) (r : Gpr) (k : Nat) : Decidable (v.Covers r k) :=
  inferInstanceAs (Decidable (_ ∧ _ ∧ _))

variable (c : Cpu) (i : Fin 8) (w : Width) (x : UInt32) {k : Nat}

/-- References to second bytes are told from the others by the first byte of their view. -/
theorem slot_reference : (RegisterRef.general i w).slot =
    ((reference i w).register, decide ((reference i w).first = 1)) := by
  cases w <;> revert i <;> decide

theorem first_reference :
    (reference i w).first = 0 ∨ (reference i w).first = 1 ∧ (reference i w).size = 1 := by
  cases w <;> revert i <;> decide

theorem read_reference : (reference i w).read c =
    if (reference i w).first = 1 then c.gprs.high (reference i w).register
    else c.low (reference i w).register w := by
  have hslot := slot_reference i w
  rw [read, Cpu.readRegister]
  simp only [RegisterRef.general] at hslot ⊢
  rw [hslot]
  by_cases h : (reference i w).first = 1
  · rw [decide_eq_true h, if_pos h]
  · rw [decide_eq_false h, if_neg h]

theorem write?_reference : (reference i w).write? c x =
    some (if (reference i w).first = 1 then c.setHigh (reference i w).register x
      else c.setLow (reference i w).register w x) := by
  have hslot := slot_reference i w
  rw [write?, Cpu.writeRegister?]
  simp only [RegisterRef.general] at hslot ⊢
  rw [hslot]
  by_cases h : (reference i w).first = 1
  · rw [decide_eq_true h, if_pos h]
  · rw [decide_eq_false h, if_neg h]

/-- Views lie within their registers. -/
theorem lt_of_lt_size (v : RegisterView) (h : k < v.size) : v.first + k < 4 := by
  have hbytes (w : Width) (h : k < w.bytes) : 0 + k < 4 := by
    cases w <;> simp only [Width.bytes] at h <;> omega
  cases v with
  | low r w => exact hbytes w h
  | second r =>
    change k < 1 at h
    change 1 + k < 4
    omega
  | whole r =>
    rw [first, Nat.zero_add]
    exact h
  | reference i w =>
    rcases first_reference i w with e | ⟨e, hsize⟩
    · rw [e]
      exact hbytes w h
    · rw [hsize] at h
      rw [e]
      omega

/-! ## One access -/

/-- A view reads the bytes that it covers. -/
theorem byteOf_read (v : RegisterView) (hk : k < 4) : byteOf (v.read c) k =
    if k < v.size then c.registerByte v.register (v.first + k) else 0 := by
  have hlow (r : Gpr) (w : Width) : byteOf (c.low r w) k =
      if k < w.bytes then c.registerByte r (0 + k) else 0 := by
    rw [Nat.zero_add]
    exact c.gprs.byteOf_low r w hk
  have hsecond (r : Gpr) : byteOf (c.gprs.high r) k =
      if k < 1 then c.registerByte r (1 + k) else 0 := by
    rw [Nat.add_comm]
    exact c.gprs.byteOf_high r hk
  cases v with
  | low r w => exact hlow r w
  | second r => exact hsecond r
  | whole r =>
    change _ = if k < 4 then c.registerByte r (0 + k) else 0
    rw [if_pos hk, Nat.zero_add]
    rfl
  | reference i w =>
    rw [read_reference]
    rcases first_reference i w with h | ⟨h, hsize⟩
    · rw [h, if_neg Nat.zero_ne_one]
      exact hlow _ w
    · rw [h, if_pos rfl, hsize]
      exact hsecond _

/-- A write stores the bytes that the view covers, and changes nothing else. -/
theorem write?_spec (v : RegisterView) : ∃ g, v.write? c x = some { c with gprs := g } ∧
    ∀ r k, k < 4 → byteOf (g.get r) k =
      if v.Covers r k then byteOf x (k - v.first) else c.registerByte r k := by
  have hlow (r : Gpr) (w : Width) (q : Gpr) (k : Nat) (hk : k < 4) :
      byteOf ((c.gprs.setLow r w x).get q) k =
        if q = r ∧ 0 ≤ k ∧ k < 0 + w.bytes then byteOf x (k - 0) else c.registerByte q k := by
    rw [c.gprs.byteOf_setLow r q w x hk]
    simp [Cpu.registerByte]
  have hsecond (r q : Gpr) (k : Nat) (hk : k < 4) : byteOf ((c.gprs.setHigh r x).get q) k =
      if q = r ∧ 1 ≤ k ∧ k < 1 + 1 then byteOf x (k - 1) else c.registerByte q k := by
    have hone : (1 ≤ k ∧ k < 1 + 1) ↔ k = 1 := by omega
    rw [c.gprs.byteOf_setHigh r q x hk]
    simp only [hone]
    split_ifs with h
    · rw [h.2]
    · rfl
  cases v with
  | low r w => exact ⟨_, rfl, hlow r w⟩
  | second r => exact ⟨_, rfl, hsecond r⟩
  | whole r =>
    refine ⟨_, rfl, fun q k hk => ?_⟩
    have hwhole : c.gprs.set r x = c.gprs.setLow r .dword x := by
      rw [Gprs.setLow, Width.merge_dword]
    rw [hwhole]
    exact hlow r .dword q k hk
  | reference i w =>
    rw [write?_reference]
    rcases first_reference i w with h | ⟨h, hsize⟩
    · rw [h, if_neg Nat.zero_ne_one]
      refine ⟨_, rfl, ?_⟩
      simp only [Covers, h]
      exact hlow _ w
    · rw [h, if_pos rfl]
      refine ⟨_, rfl, ?_⟩
      simp only [Covers, h, hsize]
      exact hsecond _

/-! ## Many accesses -/

/-- The processor after values have been written through views, one after the other. -/
def writeAll? (c : Cpu) : List (RegisterView × UInt32) → Option Cpu
  | [] => some c
  | (v, x) :: ws => (v.write? c x).bind (writeAll? · ws)

/-- The value that a byte of a register was last made by a sequence of writes, if one of them covers
it. -/
def lastWritten (r : Gpr) (k : Nat) : List (RegisterView × UInt32) → Option UInt8
  | [] => none
  | (v, x) :: ws =>
    (lastWritten r k ws).or (if v.Covers r k then some (byteOf x (k - v.first)) else none)

theorem writeAll?_spec (ws : List (RegisterView × UInt32)) :
    ∃ g, writeAll? c ws = some { c with gprs := g } ∧
      ∀ r k, k < 4 → byteOf (g.get r) k = (lastWritten r k ws).getD (c.registerByte r k) := by
  induction ws generalizing c with
  | nil => exact ⟨c.gprs, rfl, fun _ _ _ => rfl⟩
  | cons w ws ih =>
    obtain ⟨v, x⟩ := w
    obtain ⟨g, hfirst, hcovered⟩ := v.write?_spec c x
    obtain ⟨g', hrest, hlast⟩ := ih { c with gprs := g }
    refine ⟨g', by rw [writeAll?, hfirst]; exact hrest, fun r k hk => ?_⟩
    rw [hlast r k hk, lastWritten]
    cases lastWritten r k ws with
    | some b => rfl
    | none =>
      -- No later write covers the byte, so the first one decides.
      rw [Option.none_or, Option.getD_none]
      refine (hcovered r k hk).trans ?_
      split_ifs <;> rfl

/-- The byte and word names of registers are views as well. -/
theorem toUInt32_toUInt8 (x : UInt32) : x.toUInt8.toUInt32 = Width.byte.truncate x := by
  apply UInt32.toNat_inj.1
  rw [Width.toNat_truncate, UInt8.toNat_toUInt32, UInt32.toNat_toUInt8]
  rfl

theorem toUInt32_toUInt16 (x : UInt32) : x.toUInt16.toUInt32 = Width.word.truncate x := by
  apply UInt32.toNat_inj.1
  rw [Width.toNat_truncate, UInt16.toNat_toUInt32, UInt32.toNat_toUInt16]
  rfl

/-- **The views of the general registers are aliases of one store of bytes.**  After any sequence of
writes, through whatever views, each byte that is read through a view is what was last written to it
through any view that covers it, and otherwise what it was; above the bytes that it covers a view
reads as zero.  The byte and word names of the accumulator and the data register are views as well.
One more write changes no byte outside its view, and no write changes anything but the general
registers. -/
theorem read_of_writes (ws : List (RegisterView × UInt32)) :
    ∃ d, writeAll? c ws = some d ∧ { d with gprs := c.gprs } = c ∧
      (∀ (v : RegisterView) k, k < 4 → byteOf (v.read d) k =
        if k < v.size then
          (lastWritten v.register (v.first + k) ws).getD
            (c.registerByte v.register (v.first + k))
        else 0) ∧
      (d.al.toUInt32 = (low .eax .byte).read d ∧ d.ax.toUInt32 = (low .eax .word).read d ∧
        d.dx.toUInt32 = (low .edx .word).read d) ∧
      ∀ (v : RegisterView) x, ∃ e, v.write? d x = some e ∧ { e with gprs := d.gprs } = d ∧
        ∀ r k, k < 4 → ¬ v.Covers r k → e.registerByte r k = d.registerByte r k := by
  obtain ⟨g, hrun, hlast⟩ := writeAll?_spec c ws
  refine ⟨_, hrun, rfl, fun v k hk => ?_,
    ⟨toUInt32_toUInt8 _, toUInt32_toUInt16 _, toUInt32_toUInt16 _⟩, fun v x => ?_⟩
  · rw [byteOf_read _ v hk]
    split_ifs with h
    · exact hlast _ _ (v.lt_of_lt_size h)
    · rfl
  · obtain ⟨g', hwrite, hbytes⟩ := v.write?_spec { c with gprs := g } x
    refine ⟨_, hwrite, rfl, fun r k hk hcovers => ?_⟩
    exact (hbytes r k hk).trans (if_neg hcovers)

/-- The lower bytes of the accumulator are overwritten one by one, the second by its encoding. -/
example : (writeAll? Cpu.reset [(whole .eax, 0x11223344), (low .eax .byte, 0xAA),
    (reference 4 .byte, 0xBB)]).map (low .eax .dword).read = some 0x1122BBAA := by
  decide

end RegisterView

end Ia32
