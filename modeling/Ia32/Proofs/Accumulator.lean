/-
  Instructions on the accumulator pair: its extension, products into it and divisions of it.

  Main definitions:
  - `Instruction.Applies` : an arithmetic operation with one operand
  - `Instruction.Extends` : the extension of the accumulator over the pair
  - `Cpu.extended` : the accumulator is extended by its sign
  - `Exec.Multiplied`, `Exec.TakenBack` : what a product leaves, and a division that takes it back

  Main statements:
  - `Exec.run_execute_multiplyWide`, `Exec.run_execute_divideWide`, `Exec.run_execute_extension`
  - `Exec.division_exact` : divisions, also of an extended accumulator
  - `Exec.product_divides` : a division takes a product back
-/
import Ia32.Processor
import Ia32.Proofs.Division
import Ia32.Proofs.WidePair

namespace Ia32

namespace Instruction

/-- The arithmetic operation `o` with the one operand `x`. -/
structure Applies (i : Instruction) (o : ArithmeticOp) (x : Operand) : Prop where
  unit : i.unit = .arithmetic
  operation : i.operation = .arithmetic o
  operands : i.operands = [x]

/-- The accumulator of width `w` is extended by its sign: AL to AX, AX to DX:AX or EAX to
EDX:EAX. -/
structure Extends (i : Instruction) (w : Width) : Prop where
  unit : i.unit = .arithmetic
  operation : i.operation = .arithmetic (if w = .byte then .cbw else .cwd)
  operandWidth : i.operandWidth = if w = .dword then .dword else .word

end Instruction

/-! ## The extension -/

theorem Width.truncate_copies (w : Width) (b : Bool) :
    w.truncate (if b then w.mask else 0) = if b then w.mask else 0 := by
  cases b
  · exact UInt32.zero_and
  · exact UInt32.and_self

namespace Cpu

variable (c : Cpu) {w : Width}

/-- The accumulator, with copies of its sign in the upper half of the pair. -/
def extended (c : Cpu) (w : Width) : Cpu :=
  c.setWidePair w (c.low .eax w) (if w.sign c.gprs.eax then w.mask else 0)

theorem setLow_low (r : Gpr) (w : Width) : c.setLow r w (c.low r w) = c := by
  exact congrArg (fun g => { c with gprs := g }) (c.gprs.setLow_low r w)

theorem extended_byte : c.extended .byte =
    c.setLow .eax .word (Width.signExtend .byte c.gprs.eax) := by
  -- both are written to AX, which sees no more of them than their lower halves
  refine congrArg (fun v => { c with gprs := c.gprs.set .eax v }) (Width.merge_congr _ ?_)
  change ((if Width.sign .byte c.gprs.eax then Width.mask .byte else 0) <<< (8 : UInt32) |||
    Width.truncate .byte c.gprs.eax) &&& 0xFFFF = Width.signExtend .byte c.gprs.eax &&& 0xFFFF
  rw [Width.signExtend]
  split_ifs
  · rw [UInt32.or_and_distrib, UInt32.or_and_distrib, UInt32.or_comm]
    rfl
  · exact congrArg (· &&& (0xFFFF : UInt32)) UInt32.zero_or

theorem extended_of_ne_byte (hw : w ≠ .byte) : c.extended w =
    c.setLow .edx w (if w.sign c.gprs.eax then w.mask else 0) := by
  -- the lower half is written back as it was
  have hsame := c.setLow_low .eax w
  unfold extended setWidePair
  cases w
  case byte => exact absurd rfl hw
  all_goals
    dsimp only
    rw [hsame]

theorem low_extended (w : Width) : (c.extended w).low .eax w = c.low .eax w :=
  c.low_setWidePair (c.truncate_low .eax w) (w.truncate_copies _)

theorem pairHigh_extended (w : Width) :
    (c.extended w).pairHigh w = if w.sign c.gprs.eax then w.mask else 0 :=
  c.pairHigh_setWidePair (c.truncate_low .eax w) (w.truncate_copies _)

/-- The pair then stands for the same number as the accumulator. -/
theorem signedDividend_extended (w : Width) :
    Alu.signedDividend w ((c.extended w).widePair w) = w.signed (c.low .eax w) := by
  rw [Alu.signedDividend_pair (truncate_low _ .eax w) (truncate_pairHigh _ w) (toNat_widePair _ w),
    low_extended, pairHigh_extended]
  have hvalue : w.signed (c.low .eax w) = if w.sign c.gprs.eax then
      ((c.low .eax w).toNat : ℤ) - w.modulus else (c.low .eax w).toNat := by
    rw [Width.signed, c.truncate_low, show w.sign (c.low .eax w) = w.sign c.gprs.eax from
      w.sign_truncate _]
  have hones : w.signed w.mask = -1 := by cases w <;> rfl
  have hzeros : w.signed 0 = 0 := by cases w <;> rfl
  rw [hvalue]
  split_ifs
  · rw [hones]
    omega
  · rw [hzeros]
    omega

end Cpu

/-! ## The instructions -/

namespace Exec

variable {δ : Type} {w : Width} {i j : Instruction} {x : Operand} {o : ArithmeticOp}

theorem run_execute_arithmetic (hunit : i.unit = .arithmetic)
    (hoperation : i.operation = .arithmetic o) (s : System δ) :
    (execute i).run s = match (o.perform i).run s with
      | .ok _ t => .ok .retired (t.modifyCpu fun c => { c with eip := s.cpu.nextOffset i.length })
      | .error f t => .error f t := by
  rw [run_execute, Instruction.perform_arithmetic hunit hoperation, run_bind]
  cases (o.perform i).run s <;> rfl

theorem run_execute_extension (hi : i.Extends w) (s : System δ) :
    (execute i).run s = .ok .retired (s.modifyCpu fun c =>
      { c.extended w with eip := c.nextOffset i.length }) := by
  have hperform : ((if w = .byte then ArithmeticOp.cbw else .cwd).perform i).run s =
      .ok () (s.modifyCpu (·.extended w)) := by
    have hextended : s.modifyCpu (·.extended w) = { s with cpu := s.cpu.extended w } := rfl
    cases w
    case byte =>
      rw [hextended, s.cpu.extended_byte, if_pos rfl, ArithmeticOp.perform, hi.operandWidth]
      rfl
    all_goals
      rw [hextended, s.cpu.extended_of_ne_byte (by decide), if_neg (by decide),
        ArithmeticOp.perform, hi.operandWidth]
      rfl
  rw [run_execute_arithmetic hi.unit hi.operation, hperform]
  rfl

theorem run_execute_multiplyWide {f : Flags → Width → UInt32 → UInt32 → (UInt32 × UInt32) × Flags}
    (hi : i.Applies o x) (ho : (o.perform i : Exec δ Unit) = multiplyWide i f) (s : System δ) :
    let p := f s.cpu.flags x.width (s.cpu.low .eax x.width) (s.value i.addressSize x)
    (execute i).run s = .ok .retired (s.modifyCpu fun c =>
      { c.setWidePair x.width p.1.1 p.1.2 with flags := p.2, eip := c.nextOffset i.length }) := by
  have hx := Instruction.operands_zero hi.operands
  rw [run_execute_arithmetic hi.unit hi.operation, ho, multiplyWide, operand_eq hx,
    readOperand_eq hx]
  rfl

theorem run_execute_divideWide {f : Width → UInt64 → UInt32 → Except Fault (UInt32 × UInt32)}
    (hi : i.Applies o x) (ho : (o.perform i : Exec δ Unit) = divideWide i f) (s : System δ) :
    (execute i).run s =
      match f x.width (s.cpu.widePair x.width) (s.value i.addressSize x) with
      | .ok p => .ok .retired (s.modifyCpu fun c =>
          { c.setWidePair x.width p.1 p.2 with eip := c.nextOffset i.length })
      | .error e => .error e s := by
  have hx := Instruction.operands_zero hi.operands
  rw [run_execute_arithmetic hi.unit hi.operation, ho, divideWide, operand_eq hx,
    readOperand_eq hx, run_pure_bind, run_gets_bind, run_gets_bind, run_bind, run_ofExcept]
  cases f x.width (s.cpu.widePair x.width) (s.value i.addressSize x) <;> rfl

/-! ## Divisions -/

/-- A division after the extension fails only for the least number by minus one. -/
theorem idiv_extended (c : Cpu) (w : Width) {d : UInt32} (hd : w.signed d ≠ 0) :
    Alu.idiv w ((c.extended w).widePair w) d = .error .divideError ↔
      w.signed (c.low .eax w) = -w.half ∧ w.signed d = -1 := by
  have hfault := (Alu.divided_idiv w ((c.extended w).widePair w) d).fault
  rw [c.signedDividend_extended] at hfault
  rw [hfault, or_iff_right hd, w.inSignedRange_tdiv (w.inSignedRange_signed _) hd, not_not]

/-- **Divisions are exact, and fail exactly if they have to.**  Quotient and remainder are those of
the numbers, with or without a sign, unless the divisor is zero or the quotient does not fit.  After
the accumulator has been extended over the pair only the quotient of the least number by minus one
does not; the divisor `d` is what the extension has left of it. -/
theorem division_exact (w : Width) :
    (∀ (n : UInt64) (d : UInt32), Alu.Divided w (fun x => w.unsigned x) w.InUnsignedRange n.toNat
      (w.unsigned d) (Alu.div w n d)) ∧
    (∀ (n : UInt64) (d : UInt32), Alu.Divided w w.signed w.InSignedRange (Alu.signedDividend w n)
      (w.signed d) (Alu.idiv w n d)) ∧
    ∀ (δ : Type) (s : System δ) (i j : Instruction) (x : Operand),
      i.Extends w → j.Applies .idiv x → x.width = w →
      let t := (execute i).after s
      let d := t.value j.addressSize x
      (execute i).answer s = .ok .retired ∧
        (w.signed d ≠ 0 → (execute j).answer t =
          if w.signed (s.cpu.low .eax w) = -w.half ∧ w.signed d = -1 then .error .divideError
          else .ok .retired) := by
  refine ⟨Alu.divided_div w, Alu.divided_idiv w, fun δ s i j x hi hj hx => ?_⟩
  have hrun := run_execute_extension hi s
  rw [after_of_ok hrun, answer_of_ok hrun]
  refine ⟨rfl, fun hd => ?_⟩
  let t := s.modifyCpu fun c => { c.extended w with eip := c.nextOffset i.length }
  have hpair : t.cpu.widePair w = (s.cpu.extended w).widePair w := by cases w <;> rfl
  have hdivide := run_execute_divideWide hj rfl t
  rw [hx, hpair] at hdivide
  have hfault := idiv_extended s.cpu w hd
  rcases (Alu.divided_idiv w _ (t.value j.addressSize x)).error_or_ok with h | ⟨p, h⟩
  · rw [if_pos (hfault.1 h)]
    rw [h] at hdivide
    exact answer_of_error hdivide
  · rw [if_neg fun hno => nomatch h.symm.trans (hfault.2 hno)]
    rw [h] at hdivide
    exact answer_of_ok hdivide

/-- A system in real mode with numbers in EAX and EBX. -/
def withFactors (a b : UInt32) : System Unit where
  cpu := { Cpu.reset with gprs := { eax := a, ebx := b } }
  ram := Ram.zeroed 0x1000
  io := Io.init ()

/-- The least byte by minus one fails, and so does the least pair of doublewords by minus one; the
largest quotient of a byte, without a sign, does not. -/
theorem division_exact_least :
    let x := Operand.register (.general 3 .byte)
    let i := Instruction.ofOperands (.arithmetic .cbw) [] 1
    let j := Instruction.ofOperands (.arithmetic .idiv) [x] 2
    let s := withFactors 0x1280 0x34FF
    let t := (execute i).after s
    i.Extends .byte ∧ j.Applies .idiv x ∧ x.width = .byte ∧
      Width.signed .byte (t.value j.addressSize x) = -1 ∧
      (execute i).answer s = .ok .retired ∧ (execute j).answer t = .error .divideError ∧
      Alu.idiv .dword 0x8000000000000000 0xFFFFFFFF = .error .divideError ∧
      ∃ q r, Alu.div .byte 0x7FFF 0x180 = .ok (q, r) ∧
        Alu.IsQuotient 0x7FFF 0x80 (Width.unsigned .byte q) (Width.unsigned .byte r) := by
  intro x i j s t
  have hi : i.Extends .byte := ⟨rfl, rfl, rfl⟩
  have hj : j.Applies .idiv x := ⟨rfl, rfl, rfl⟩
  obtain ⟨hdiv, -, hextended⟩ := division_exact .byte
  obtain ⟨-, hidiv, -⟩ := division_exact .dword
  have hd : Width.signed .byte (t.value j.addressSize x) = -1 := by decide
  obtain ⟨hanswer, hfault⟩ := hextended Unit s i j x hi hj rfl
  obtain ⟨q, r, hok, -, -, hquotient⟩ := (hdiv 0x7FFF 0x180).value (by decide) (by decide)
  refine ⟨hi, hj, rfl, hd, hanswer, ?_, ?_, q, r, hok, hquotient⟩
  · exact (hfault (by decide)).trans (if_pos (by decide))
  · exact (hidiv _ _).fault.2 (.inr (by decide))

/-! ## Products -/

/-- What is left in `t` of a product by `b`, where `read` finds the numbers in words and `exceeds`
tells of a product that a word cannot hold. -/
structure Multiplied (read : UInt32 → ℤ) (exceeds : Bool) (w : Width) (b : UInt32)
    (s t : System δ) : Prop where
  product : read (t.cpu.pairHigh w) * w.modulus + (t.cpu.low .eax w).toNat =
    read (s.cpu.low .eax w) * read b
  flags : t.cpu.flags = { s.cpu.flags with carry := exceeds, overflow := exceeds }
  beside : s.AlikeBesidePair w t

/-- What a division leaves in `u` that takes back a product. -/
structure TakenBack (w : Width) (s u : System δ) : Prop where
  quotient : u.cpu.low .eax w = s.cpu.low .eax w
  remainder : u.cpu.pairHigh w = 0
  beside : s.AlikeBesidePair w u

variable {s : System δ}

/-- A product in two halves is what its instruction leaves. -/
theorem multiplied_execute {f : Flags → Width → UInt32 → UInt32 → (UInt32 × UInt32) × Flags}
    (read : UInt32 → ℤ) (hi : i.Applies o x)
    (ho : (o.perform i : Exec δ Unit) = multiplyWide i f) {exceeds : Bool} {p : (UInt32 × UInt32) × Flags}
    (hp : f s.cpu.flags x.width (s.cpu.low .eax x.width) (s.value i.addressSize x) = p)
    (hlo : x.width.truncate p.1.1 = p.1.1) (hhi : x.width.truncate p.1.2 = p.1.2)
    (hproduct : read p.1.2 * x.width.modulus + p.1.1.toNat =
      read (s.cpu.low .eax x.width) * read (s.value i.addressSize x))
    (hflags : p.2 = { s.cpu.flags with carry := exceeds, overflow := exceeds }) :
    (execute i).answer s = .ok .retired ∧ ((execute i).after s).cpu.pairHigh x.width = p.1.2 ∧
      Multiplied read exceeds x.width (s.value i.addressSize x) s ((execute i).after s) := by
  have hrun := run_execute_multiplyWide hi ho s
  rw [hp] at hrun
  let t := s.modifyCpu fun c =>
    { c.setWidePair x.width p.1.1 p.1.2 with flags := p.2, eip := c.nextOffset i.length }
  have hlow : t.cpu.low .eax x.width = p.1.1 := s.cpu.low_setWidePair hlo hhi
  have hhigh : t.cpu.pairHigh x.width = p.1.2 := s.cpu.pairHigh_setWidePair hlo hhi
  rw [answer_of_ok hrun, after_of_ok (t := t) hrun]
  refine ⟨rfl, hhigh, ?_, hflags, .setWidePair s _ _ _ _ _⟩
  rw [hhigh, hlow, hproduct]

theorem multiplied_mul (hi : i.Applies .mul x) (s : System δ) :
    (execute i).answer s = .ok .retired ∧
      Multiplied (fun y => x.width.unsigned y) (((execute i).after s).cpu.pairHigh x.width != 0)
        x.width (s.value i.addressSize x) s ((execute i).after s) := by
  have hperform : (ArithmeticOp.mul.perform i : Exec δ Unit) = multiplyWide i Alu.mul := rfl
  obtain ⟨hlo, hhi, hproduct⟩ := Alu.mul_equation s.cpu.flags x.width (s.cpu.low .eax x.width)
    (s.value i.addressSize x)
  have hread (y : UInt32) (hy : x.width.truncate y = y) : x.width.unsigned y = y.toNat :=
    congrArg UInt32.toNat hy
  rw [← hread _ hhi] at hproduct
  obtain ⟨hanswer, hhigh, h⟩ := multiplied_execute (fun y => x.width.unsigned y) hi hperform rfl
    hlo hhi (by exact_mod_cast hproduct) (Alu.flags_mul _ _ _ _)
  rw [hhigh]
  exact ⟨hanswer, h⟩

theorem multiplied_imul (hi : i.Applies .imul x) (s : System δ) :
    (execute i).answer s = .ok .retired ∧
      Multiplied x.width.signed (!decide (x.width.InSignedRange
          (x.width.signed (s.cpu.low .eax x.width) * x.width.signed (s.value i.addressSize x))))
        x.width (s.value i.addressSize x) s ((execute i).after s) := by
  have hperform : (ArithmeticOp.imul.perform i : Exec δ Unit) = multiplyWide i Alu.imul := by
    rw [ArithmeticOp.perform, hi.operands]
    rfl
  obtain ⟨hlo, hhi, hproduct⟩ := Alu.imul_equation s.cpu.flags x.width (s.cpu.low .eax x.width)
    (s.value i.addressSize x)
  obtain ⟨hanswer, -, h⟩ :=
    multiplied_execute _ hi hperform rfl hlo hhi hproduct (Alu.flags_imul _ _ _ _)
  exact ⟨hanswer, h⟩

/-- A division whose quotient is the old accumulator takes a product back. -/
theorem takenBack_execute {f : Width → UInt64 → UInt32 → Except Fault (UInt32 × UInt32)}
    {t : System δ} (hj : j.Applies o x)
    (ho : (o.perform j : Exec δ Unit) = divideWide j f)
    (hf : f x.width (t.cpu.widePair x.width) (t.value j.addressSize x) =
      .ok (s.cpu.low .eax x.width, 0))
    (hst : s.AlikeBesidePair x.width t) :
    (execute j).answer t = .ok .retired ∧ TakenBack x.width s ((execute j).after t) := by
  have hrun := run_execute_divideWide hj ho t
  rw [hf] at hrun
  rw [answer_of_ok hrun, after_of_ok hrun]
  have ha := s.cpu.truncate_low .eax x.width
  exact ⟨rfl, t.cpu.low_setWidePair ha UInt32.zero_and,
    t.cpu.pairHigh_setWidePair ha UInt32.zero_and, hst.trans (.setWidePair t _ _ _ _ _)⟩

/-- **Products are exact, and divisions take them back.**  A multiplication by `b`, with or without a
sign, leaves the whole product in the pair; the carry and the overflow flag tell whether its upper
half is needed.  If `b`, which is not zero, is the same afterwards, as it is apart from the pair, a
division by it does not fail and gives back the old accumulator.  Besides the pair no register
changes, and no product needs more than 64 bits. -/
theorem product_divides (s : System δ) (i j : Instruction) (x : Operand) :
    let w := x.width
    let a := s.cpu.low .eax w
    let b := s.value i.addressSize x
    let t := (execute i).after s
    let u := (execute j).after t
    let exceeds := !decide (w.InSignedRange (w.signed a * w.signed b))
    (i.Applies .mul x → (execute i).answer s = .ok .retired ∧
      Multiplied (fun y => w.unsigned y) (t.cpu.pairHigh w != 0) w b s t ∧
      (j.Applies .div x → t.value j.addressSize x = b → w.unsigned b ≠ 0 →
        (execute j).answer t = .ok .retired ∧ TakenBack w s u)) ∧
    (i.Applies .imul x → (execute i).answer s = .ok .retired ∧
      Multiplied w.signed exceeds w b s t ∧
      (j.Applies .idiv x → t.value j.addressSize x = b → w.signed b ≠ 0 →
        (execute j).answer t = .ok .retired ∧ TakenBack w s u)) ∧
    (i.Applies .mul x ∨ i.Applies .imul x → x.Apart w → t.value i.addressSize x = b) ∧
    w.unsigned a * w.unsigned b < 2 ^ 64 ∧
    -2 ^ 63 ≤ w.signed a * w.signed b ∧ w.signed a * w.signed b < 2 ^ 63 := by
  have ha := s.cpu.truncate_low .eax x.width
  refine ⟨fun hi => ?_, fun hi => ?_, fun hi hx => ?_, ?_, ?_⟩
  · obtain ⟨hanswer, h⟩ := multiplied_mul hi s
    refine ⟨hanswer, h, fun hj hb hne => ?_⟩
    refine takenBack_execute hj rfl (Alu.div_of_product ha (hb ▸ hne) ?_) h.beside
    have hproduct := h.product
    rw [Width.unsigned, Cpu.truncate_pairHigh] at hproduct
    rw [hb, Cpu.toNat_widePair]
    exact_mod_cast hproduct
  · obtain ⟨hanswer, h⟩ := multiplied_imul hi s
    refine ⟨hanswer, h, fun hj hb hne => ?_⟩
    refine takenBack_execute hj rfl (Alu.idiv_of_product ha (hb ▸ hne) ?_) h.beside
    rw [hb, ← h.product]
    exact Alu.signedDividend_pair (Cpu.truncate_low _ .eax _) (Cpu.truncate_pairHigh _ _)
      (Cpu.toNat_widePair _ _)
  · rcases hi with hi | hi
    · exact (multiplied_mul hi s).2.beside.value hx _
    · exact (multiplied_imul hi s).2.beside.value hx _
  · exact (Alu.unsigned_mul_lt _ _ _).trans_le (by cases x.width <;> decide)
  · exact Alu.signed_mul_bounds _ _ _

/-- Words, by an operand apart from the pair: the least number by minus one does not fit into AX, and
DX:AX by minus one gives it back; the same words without a sign. -/
theorem product_divides_least :
    let x := Operand.register (.general 3 .word)
    let i := Instruction.ofOperands (.arithmetic .imul) [x] 2
    let j := Instruction.ofOperands (.arithmetic .idiv) [x] 2
    let k := Instruction.ofOperands (.arithmetic .mul) [x] 2
    let l := Instruction.ofOperands (.arithmetic .div) [x] 2
    let s := withFactors 0xABCD8000 0xFFFF
    let t := (execute i).after s
    let u := (execute k).after s
    (i.Applies .imul x ∧ j.Applies .idiv x ∧ x.Apart .word ∧
      t.value j.addressSize x = s.value i.addressSize x ∧
      Width.signed .word (s.value i.addressSize x) = -1 ∧
      Width.signed .word (t.cpu.pairHigh .word) * 0x10000 + (t.cpu.low .eax .word).toNat = 0x8000 ∧
      t.cpu.flags.carry = true ∧ t.cpu.upper .eax = 0xABCD ∧
      (execute j).answer t = .ok .retired ∧ ((execute j).after t).cpu.low .eax .word = 0x8000) ∧
    (k.Applies .mul x ∧ l.Applies .div x ∧
      u.value l.addressSize x = s.value k.addressSize x ∧
      (execute l).answer u = .ok .retired ∧ ((execute l).after u).cpu.pairHigh .word = 0) := by
  intro x i j k l s t u
  have hi : i.Applies .imul x := ⟨rfl, rfl, rfl⟩
  have hj : j.Applies .idiv x := ⟨rfl, rfl, rfl⟩
  have hk : k.Applies .mul x := ⟨rfl, rfl, rfl⟩
  have hl : l.Applies .div x := ⟨rfl, rfl, rfl⟩
  have hx : x.Apart .word := fun _ => by decide
  obtain ⟨-, himul, hsame, -⟩ := product_divides s i j x
  obtain ⟨hmul, -, hsame', -⟩ := product_divides s k l x
  have hb := hsame (.inr hi) hx
  have hb' := hsame' (.inl hk) hx
  obtain ⟨-, hproduct, hback⟩ := himul hi
  obtain ⟨-, -, hback'⟩ := hmul hk
  obtain ⟨hanswer, htaken⟩ := hback hj hb (by decide)
  obtain ⟨hanswer', htaken'⟩ := hback' hl hb' (by decide)
  refine ⟨⟨hi, hj, hx, hb, by decide, ?_, ?_, ?_, hanswer, ?_⟩, hk, hl, hb', hanswer',
    htaken'.remainder⟩
  · exact hproduct.product.trans (by decide)
  · rw [hproduct.flags]
    decide
  · exact (hproduct.beside.upper (by decide) .eax).trans (by decide)
  · exact htaken.quotient.trans (by decide)

end Exec

end Ia32
