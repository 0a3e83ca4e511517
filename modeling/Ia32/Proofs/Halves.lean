/-
  The lower and the upper halves of the general registers.

  Replacing the upper halves by others commutes with everything that looks at lower halves only:
  narrow registers, 16-bit addresses, and a stack whose pointer is SP.

  Main definitions:
  - `Cpu.upper` : the upper half of a general register
  - `Gprs.under`, `Cpu.under`, `System.under` : the same lower halves under other upper ones

  Main statements:
  - `Gprs.low_under`, `Gprs.setLow_under` : narrow views do not see upper halves
  - `Cpu.effectiveOffset_under` : nor do 16-bit addresses
  - `System.push_under`, `System.peek_under` : nor does a 16-bit stack
-/
import Ia32.Execute.Branch
import Ia32.Proofs.Operands

namespace Ia32

/-! ## Words in two halves -/

theorem UInt32.or_and_distrib (x y z : UInt32) : (x ||| y) &&& z = x &&& z ||| y &&& z := by
  apply UInt32.toBitVec_inj.1
  simp [BitVec.and_or_distrib_right]

namespace Width

variable {w : Width}

/-- What a mask shows of a merged word, if it shows no more than the lower half. -/
theorem merge_word_and {k : UInt32} (hk : 0xFFFF &&& k = k) (x y : UInt32) :
    merge .word x y &&& k = y &&& k := by
  calc merge .word x y &&& k = truncate .word (merge .word x y) &&& k := by
        rw [truncate, UInt32.and_assoc]; exact congrArg _ hk.symm
    _ = truncate .word y &&& k := by rw [truncate_merge]
    _ = y &&& k := by rw [truncate, UInt32.and_assoc]; exact congrArg _ hk

theorem truncate_merge_word (hw : w ≠ .dword) (x y : UInt32) :
    w.truncate (merge .word x y) = w.truncate y := by
  cases w
  case dword => exact absurd rfl hw
  all_goals exact merge_word_and rfl x y

theorem sign_merge_word (hw : w ≠ .dword) (x y : UInt32) :
    w.sign (merge .word x y) = w.sign y := by
  have htop : merge .word x y &&& w.topBit = y &&& w.topBit := by
    cases w
    case dword => exact absurd rfl hw
    all_goals exact merge_word_and rfl x y
  rw [sign, htop, sign]

theorem signExtend_merge_word (hw : w ≠ .dword) (x y : UInt32) :
    w.signExtend (merge .word x y) = w.signExtend y := by
  rw [signExtend, sign_merge_word hw, truncate_merge_word hw, signExtend]

theorem toUInt16_merge_word (x y : UInt32) : (merge .word x y).toUInt16 = y.toUInt16 := by
  have h := congrArg UInt32.toNat (truncate_merge .word x y)
  rw [toNat_truncate, toNat_truncate] at h
  exact UInt16.toNat_inj.1 h

theorem toUInt8_merge_word (x y : UInt32) : (merge .word x y).toUInt8 = y.toUInt8 := by
  have h := congrArg UInt32.toNat (truncate_merge_word (w := .byte) (by decide) x y)
  rw [toNat_truncate, toNat_truncate] at h
  exact UInt8.toNat_inj.1 h

theorem shiftRight_merge_word (x y : UInt32) : merge .word x y >>> 16 = x >>> 16 := by
  -- bit `k` of a shifted word is its bit `16 + k`, which the mask leaves to `x`
  have hmask : ∀ k < 16, (0xFFFF0000#32).getLsbD (16 + k) = true ∧
      (0xFFFF#32).getLsbD (16 + k) = false := by decide
  apply UInt32.toBitVec_inj.1
  ext k hk
  by_cases hlow : k < 16
  · simp [merge, mask, hmask k hlow]
  · have hbeyond (z : BitVec 32) : z.getLsbD (16 + k) = false :=
      BitVec.getLsbD_of_ge z _ (by omega)
    simp [merge, mask, hbeyond]

/-- Replacing bits of the lower half leaves the upper one. -/
theorem merge_word_and_or {k b : UInt32} (hk : 0xFFFF0000 &&& k = 0xFFFF0000)
    (hb : b &&& 0xFFFF = b) (x y : UInt32) :
    merge .word x y &&& k ||| b = merge .word x (y &&& k ||| b) := by
  change (x &&& 0xFFFF0000 ||| y &&& 0xFFFF) &&& k ||| b =
    x &&& 0xFFFF0000 ||| (y &&& k ||| b) &&& 0xFFFF
  rw [UInt32.or_and_distrib, UInt32.or_and_distrib, UInt32.and_assoc, hk, hb, UInt32.or_assoc,
    UInt32.and_assoc, UInt32.and_assoc, UInt32.and_comm 0xFFFF]

theorem merge_merge_word (hw : w ≠ .dword) (x y v : UInt32) :
    w.merge (merge .word x y) v = merge .word x (w.merge y v) := by
  cases w
  case dword => exact absurd rfl hw
  all_goals exact merge_word_and_or rfl (UInt32.and_assoc _ _ _) x y

end Width

/-! ## Registers -/

namespace Gprs

variable {w : Width}

/-- The lower halves of `g` under the upper halves of `h`. -/
def under (g h : Gprs) : Gprs where
  eax := Width.merge .word h.eax g.eax
  ecx := Width.merge .word h.ecx g.ecx
  edx := Width.merge .word h.edx g.edx
  ebx := Width.merge .word h.ebx g.ebx
  esp := Width.merge .word h.esp g.esp
  ebp := Width.merge .word h.ebp g.ebp
  esi := Width.merge .word h.esi g.esi
  edi := Width.merge .word h.edi g.edi

theorem get_under (g h : Gprs) (r : Gpr) :
    (g.under h).get r = Width.merge .word (h.get r) (g.get r) := by
  cases r <;> rfl

theorem set_under (g h : Gprs) (r : Gpr) (v : UInt32) :
    (g.under h).set r (Width.merge .word (h.get r) v) = (g.set r v).under h := by
  cases r <;> rfl

theorem low_under (hw : w ≠ .dword) (g h : Gprs) (r : Gpr) : (g.under h).low r w = g.low r w := by
  rw [low, get_under, Width.truncate_merge_word hw, low]

theorem setLow_under (hw : w ≠ .dword) (g h : Gprs) (r : Gpr) (v : UInt32) :
    (g.under h).setLow r w v = (g.setLow r w v).under h := by
  rw [setLow, get_under, Width.merge_merge_word hw, set_under, setLow]

theorem high_under (g h : Gprs) (r : Gpr) : (g.under h).high r = g.high r := by
  have hshift (x : UInt32) :
      x >>> (8 : UInt32) &&& (0xFF : UInt32) = (x &&& 0xFF00) >>> (8 : UInt32) := by
    apply UInt32.toBitVec_inj.1
    simp [BitVec.ushiftRight_and_distrib]
  unfold high
  rw [hshift, hshift, get_under, Width.merge_word_and rfl]

theorem setHigh_under (g h : Gprs) (r : Gpr) (v : UInt32) :
    (g.under h).setHigh r v = (g.setHigh r v).under h := by
  have hv : (v &&& 0xFF) <<< (8 : UInt32) &&& 0xFFFF = (v &&& 0xFF) <<< (8 : UInt32) := by
    have hshift : (v &&& 0xFF) <<< (8 : UInt32) = v <<< (8 : UInt32) &&& 0xFF00 := by
      apply UInt32.toBitVec_inj.1
      simp [BitVec.shiftLeft_and_distrib]
    rw [hshift, UInt32.and_assoc]
    rfl
  unfold setHigh
  dsimp only
  rw [get_under, Width.merge_word_and_or rfl hv, set_under]

end Gprs

namespace Cpu

variable {w : Width}

/-- The same registers under other upper halves. -/
def under (c : Cpu) (h : Gprs) : Cpu := { c with gprs := c.gprs.under h }

/-- The upper half of a general register. -/
def upper (c : Cpu) (r : Gpr) : UInt32 := c.gprs.get r >>> 16

theorem upper_under (c : Cpu) (h : Gprs) (r : Gpr) : (c.under h).upper r = h.get r >>> 16 := by
  rw [upper, under, Gprs.get_under, Width.shiftRight_merge_word]

@[simp] theorem flags_under (c : Cpu) (h : Gprs) : (c.under h).flags = c.flags := rfl

theorem al_under (c : Cpu) (h : Gprs) : (c.under h).al = c.al := Width.toUInt8_merge_word _ _

theorem ax_under (c : Cpu) (h : Gprs) : (c.under h).ax = c.ax := Width.toUInt16_merge_word _ _

theorem dx_under (c : Cpu) (h : Gprs) : (c.under h).dx = c.dx := Width.toUInt16_merge_word _ _

theorem low_under (hw : w ≠ .dword) (c : Cpu) (h : Gprs) (r : Gpr) :
    (c.under h).low r w = c.low r w := Gprs.low_under hw _ _ _

theorem setLow_under (hw : w ≠ .dword) (c : Cpu) (h : Gprs) (r : Gpr) (v : UInt32) :
    (c.under h).setLow r w v = (c.setLow r w v).under h :=
  congrArg (fun g => { c with gprs := g }) (Gprs.setLow_under hw _ _ _ _)

theorem setHigh_under (c : Cpu) (h : Gprs) (r : Gpr) (v : UInt32) :
    (c.under h).setHigh r v = (c.setHigh r v).under h :=
  congrArg (fun g => { c with gprs := g }) (Gprs.setHigh_under _ _ _ _)

/-- A register that is no doubleword is read from lower halves. -/
theorem readRegister_under {r : RegisterRef} (hr : r.width ≠ .dword) (c : Cpu) (h : Gprs) :
    (c.under h).readRegister r = c.readRegister r := by
  unfold readRegister
  cases r.file with
  | general =>
    dsimp only
    rcases r.slot with ⟨g, _ | _⟩
    · exact low_under hr c h g
    · exact Gprs.high_under _ _ g
  | segment => rfl
  | control => rfl
  | debug => rfl

theorem setGeneral_under {r : RegisterRef} (hr : r.width ≠ .dword) (c : Cpu) (h : Gprs)
    (v : UInt32) : (c.under h).setGeneral r v = (c.setGeneral r v).under h := by
  unfold setGeneral
  rcases r.slot with ⟨g, _ | _⟩
  · exact setLow_under hr c h g v
  · exact setHigh_under c h g v

/-! ## Addresses -/

theorem wrap_word (x : UInt32) : AddressSize.word.wrap x = x.toUInt16.toUInt32 := by
  apply UInt32.toNat_inj.1
  rw [AddressSize.wrap, Width.toNat_truncate, UInt16.toNat_toUInt32, UInt32.toNat_toUInt16]
  rfl

/-- The registers of a 16-bit address count with their lower halves. -/
theorem effectiveOffset_under (c : Cpu) (h : Gprs) (m : MemoryOperand) :
    (c.under h).effectiveOffset .word m = c.effectiveOffset .word m := by
  have hreg (x : Option Gpr) : ((x.map (c.under h).gprs.get).getD 0).toUInt16 =
      ((x.map c.gprs.get).getD 0).toUInt16 := by
    cases x with
    | none => rfl
    | some r =>
      change ((c.gprs.under h).get r).toUInt16 = (c.gprs.get r).toUInt16
      rw [Gprs.get_under, Width.toUInt16_merge_word]
  unfold effectiveOffset
  simp only [wrap_word, UInt32.toUInt16_add, UInt32.toUInt16_mul, hreg]

theorem locate_under (c : Cpu) (h : Gprs) (x : Operand) :
    (c.under h).locate .word x = c.locate .word x := by
  cases x with
  | register r => rfl
  | memory m w => rw [locate, effectiveOffset_under, locate]
  | immediate v w => rfl

/-! ## The stack -/

/-- The stack pointer is SP. -/
def NarrowStack (c : Cpu) : Prop := c.stackWidth = .word

theorem stackTop_under {c : Cpu} (hc : c.NarrowStack) (h : Gprs) :
    (c.under h).stackTop = c.stackTop := by
  unfold stackTop
  rw [show (c.under h).stackWidth = c.stackWidth from rfl, hc]
  exact low_under (by decide) c h .esp

theorem adjustStack_under {c : Cpu} (hc : c.NarrowStack) (h : Gprs) (d : UInt32) :
    (c.under h).adjustStack d = (c.adjustStack d).under h := by
  unfold adjustStack
  rw [stackTop_under hc, show (c.under h).stackWidth = c.stackWidth from rfl, hc]
  exact setLow_under (by decide) c h .esp _

end Cpu

namespace System

variable {δ : Type} {w : Width}

/-- The same system under other upper halves of the general registers. -/
def under (s : System δ) (h : Gprs) : System δ := s.modifyCpu (·.under h)

@[simp] theorem cpu_under (s : System δ) (h : Gprs) : (s.under h).cpu = s.cpu.under h := rfl

theorem modifyCpu_under {s : System δ} {h : Gprs} {f : Cpu → Cpu}
    (hf : f (s.cpu.under h) = (f s.cpu).under h) :
    (s.under h).modifyCpu f = (s.modifyCpu f).under h :=
  congrArg (fun c => { s with cpu := c }) hf

theorem write_under (s : System δ) (h : Gprs) (n : SegmentName) (offset : UInt32) (w : Width)
    (v : UInt32) : (s.under h).write n offset w v = (s.write n offset w v).under h := rfl

theorem load_under {l : Location} (hl : ∀ r, l = .register r → r.width ≠ .dword) (s : System δ)
    (h : Gprs) : (s.under h).load w l = s.load w l := by
  cases l with
  | register r => exact Cpu.readRegister_under (hl r rfl) s.cpu h
  | memory n offset => rfl
  | immediate v => rfl

theorem stored_under {l : Location} (hl : ∀ r, l = .register r → r.width ≠ .dword) (s : System δ)
    (h : Gprs) (v : UInt32) : (s.under h).stored w v l = (s.stored w v l).under h := by
  cases l with
  | register r =>
    exact modifyCpu_under (f := (·.setGeneral r v)) (Cpu.setGeneral_under (hl r rfl) s.cpu h v)
  | memory n offset => rfl
  | immediate v => rfl

/-! ## The stack -/

variable {s : System δ}

theorem peek_under (hs : s.cpu.NarrowStack) (h : Gprs) (offset : UInt32) (w : Width) :
    (s.under h).peek offset w = s.peek offset w := by
  have htop : (s.under h).cpu.stackTop = s.cpu.stackTop := Cpu.stackTop_under hs h
  unfold peek
  rw [htop]
  rfl

theorem adjustStack_under (hs : s.cpu.NarrowStack) (h : Gprs) (d : UInt32) :
    (s.under h).modifyCpu (·.adjustStack d) = (s.modifyCpu (·.adjustStack d)).under h :=
  modifyCpu_under (Cpu.adjustStack_under hs h d)

theorem push_under (hs : s.cpu.NarrowStack) (h : Gprs) (w : Width) (v : UInt32) :
    (s.under h).push w v = (s.push w v).under h := by
  have htop : ((s.modifyCpu (·.adjustStack (-w.stride))).under h).cpu.stackTop =
      (s.modifyCpu (·.adjustStack (-w.stride))).cpu.stackTop :=
    Cpu.stackTop_under (c := s.cpu.adjustStack (-w.stride)) hs h
  unfold push
  dsimp only
  rw [adjustStack_under hs, htop]
  rfl

theorem pop_under (hs : s.cpu.NarrowStack) (h : Gprs) (w : Width) :
    (s.under h).pop w = ((s.pop w).1, (s.pop w).2.under h) := by
  have hvalue := peek_under hs h 0 w
  rw [peek_zero, peek_zero] at hvalue
  exact Prod.ext hvalue (adjustStack_under hs h _)

/-! Several elements. -/

theorem pushFrame_under (hs : s.cpu.NarrowStack) (h : Gprs) (w : Width) (returnEip : UInt32) :
    (s.under h).pushFrame w returnEip = (s.pushFrame w returnEip).under h := by
  let t := s.push w s.cpu.flags.image
  let u := t.push w (s.cpu.selector .cs).toUInt32
  have hflags : (s.under h).push w s.cpu.flags.image = t.under h := push_under hs h w _
  have hcode : (t.under h).push w (s.cpu.selector .cs).toUInt32 = u.under h :=
    push_under (s := t) hs h w _
  change (((s.under h).push w s.cpu.flags.image).push w (s.cpu.selector .cs).toUInt32).push w
    returnEip = _
  rw [hflags, hcode]
  exact push_under (s := u) hs h w returnEip

theorem enterGate_under (hs : s.cpu.NarrowStack) (h : Gprs) (g : Gate) (returnEip : UInt32) :
    (s.under h).enterGate g returnEip = (s.enterGate g returnEip).under h := by
  unfold enterGate
  rw [pushFrame_under hs]
  rfl

/-- Changes one after the other, each of which keeps the stack narrow. -/
theorem foldl_under {α : Type} {f : System δ → α → System δ}
    (hf : ∀ s x, s.cpu.NarrowStack → (f s x).cpu.NarrowStack ∧
      ∀ h, f (s.under h) x = (f s x).under h)
    (xs : List α) (hs : s.cpu.NarrowStack) (h : Gprs) :
    xs.foldl f (s.under h) = (xs.foldl f s).under h := by
  induction xs generalizing s with
  | nil => rfl
  | cons x xs ih =>
    obtain ⟨hnarrow, hunder⟩ := hf s x hs
    rw [List.foldl_cons, List.foldl_cons, hunder, ih hnarrow]

theorem pushAll_under (hw : w ≠ .dword) (hs : s.cpu.NarrowStack) (h : Gprs) :
    (s.under h).pushAll w = (s.pushAll w).under h := by
  have hvalues : (fun (t : System δ) r => t.push w ((s.under h).cpu.low r w)) =
      fun t r => t.push w (s.cpu.low r w) := by
    funext t r
    exact congrArg (t.push w) (s.cpu.low_under hw h r)
  unfold pushAll
  rw [hvalues]
  have hpush (t : System δ) (r : Gpr) (ht : t.cpu.NarrowStack) :
      (t.push w (s.cpu.low r w)).cpu.NarrowStack ∧
        ∀ g, (t.under g).push w (s.cpu.low r w) = (t.push w (s.cpu.low r w)).under g :=
    ⟨ht, fun g => push_under ht g w _⟩
  exact foldl_under hpush _ hs h

theorem popAll_under (hw : w ≠ .dword) (hs : s.cpu.NarrowStack) (h : Gprs) :
    (s.under h).popAll w = (s.popAll w).under h := by
  refine foldl_under (fun t r ht => ?_) _ hs h
  have hwrite (u : System δ) (v : UInt32) (g : Gprs) :
      (u.under g).modifyCpu (·.setLow r w v) = (u.modifyCpu (·.setLow r w v)).under g :=
    modifyCpu_under (u.cpu.setLow_under hw g r v)
  by_cases hr : r = .esp
  · simp only [hr, ↓reduceIte]
    exact ⟨ht, fun g => by rw [pop_under ht]⟩
  · simp only [hr, ↓reduceIte]
    exact ⟨ht, fun g => by rw [pop_under ht, hwrite]⟩

/-! Frames of procedures. -/

theorem pushLinks_under (hs : s.cpu.NarrowStack) (h : Gprs) (w : Width) (n : Nat)
    (outer : UInt32) : (s.under h).pushLinks w n outer = (s.pushLinks w n outer).under h := by
  induction n generalizing s outer with
  | zero => rfl
  | succ n ih =>
    let o := s.cpu.stackWidth.truncate (outer - w.stride)
    have hpush := push_under hs h w (s.read .ss o w)
    change ((s.under h).push w (s.read .ss o w)).pushLinks w n o =
      ((s.push w (s.read .ss o w)).pushLinks w n o).under h
    rw [hpush]
    exact ih (s := s.push w (s.read .ss o w)) hs o

theorem narrowStack_pushLinks (hs : s.cpu.NarrowStack) (w : Width) (n : Nat) (outer : UInt32) :
    (s.pushLinks w n outer).cpu.NarrowStack := by
  induction n generalizing s outer with
  | zero => exact hs
  | succ n ih => exact ih (s := s.push w _) hs _

theorem enterFrame_under (hw : w ≠ .dword) (hs : s.cpu.NarrowStack) (h : Gprs)
    (space : UInt32) (depth : Nat) :
    (s.under h).enterFrame w space depth = (s.enterFrame w space depth).under h := by
  let t := s.push w (s.cpu.low .ebp w)
  have ht : t.cpu.NarrowStack := hs
  have hsaved : (s.under h).push w ((s.under h).cpu.low .ebp w) = t.under h := by
    rw [show (s.under h).cpu.low .ebp w = s.cpu.low .ebp w from s.cpu.low_under hw h .ebp]
    exact push_under hs h w _
  have hframe : (t.under h).cpu.stackTop = t.cpu.stackTop := Cpu.stackTop_under ht h
  have hlink : (t.under h).cpu.low .ebp (t.under h).cpu.stackWidth =
      t.cpu.low .ebp t.cpu.stackWidth := by
    rw [show (t.under h).cpu.stackWidth = t.cpu.stackWidth from rfl, ht]
    exact t.cpu.low_under (by decide) h .ebp
  have hopen (u : System δ) (hu : u.cpu.NarrowStack) (frame : UInt32) :
      (u.under h).modifyCpu (fun c => (c.setLow .ebp w frame).adjustStack (-space)) =
        (u.modifyCpu fun c => (c.setLow .ebp w frame).adjustStack (-space)).under h := by
    refine modifyCpu_under ?_
    rw [Cpu.setLow_under hw, Cpu.adjustStack_under (c := u.cpu.setLow .ebp w frame) hu]
  unfold enterFrame
  dsimp only
  rw [hsaved, hframe, hlink]
  cases depth with
  | zero => exact hopen t ht _
  | succ n =>
    let u := t.pushLinks w n (t.cpu.low .ebp t.cpu.stackWidth)
    have hu : u.cpu.NarrowStack := narrowStack_pushLinks ht w n _
    dsimp only
    rw [pushLinks_under ht, push_under hu]
    exact hopen (u.push w t.cpu.stackTop) hu t.cpu.stackTop

theorem leaveFrame_under (hw : w ≠ .dword) (hs : s.cpu.NarrowStack) (h : Gprs) :
    (s.under h).leaveFrame w = (s.leaveFrame w).under h := by
  let t := s.modifyCpu fun c => c.setLow .esp c.stackWidth (c.low .ebp c.stackWidth)
  have hdropped : ((s.under h).modifyCpu fun c =>
      c.setLow .esp c.stackWidth (c.low .ebp c.stackWidth)) = t.under h := by
    refine modifyCpu_under ?_
    rw [show (s.cpu.under h).stackWidth = s.cpu.stackWidth from rfl, hs,
      Cpu.low_under (by decide), Cpu.setLow_under (by decide)]
  have hpop := pop_under (s := t) hs h w
  unfold leaveFrame
  dsimp only
  rw [hdropped, hpop]
  exact modifyCpu_under (Cpu.setLow_under hw (t.pop w).2.cpu h .ebp _)

end System

end Ia32
