/-
  The opcode maps keep to the instruction set reference.

  An opcode map gives the operands of a mnemonic as forms.  How a form is read decides the kind of
  the operand and its size, so the maps are checked against the forms of the mnemonics once, row by
  row, and what is read with them keeps to these.

  Main definitions:
  - `Reader.Yields` : whatever is read has a property
  - `RawInstruction.Sound` : the operands are of a form of the mnemonic and of its sizes
  - `OperandForm.kind` : the kind of the operands that a form in a map stands for
  - `Form.Sound`, `Entry.Sound` : the same of the entries of a map
  - `Form.Foreign` : the entry has no mnemonic

  Main statements:
  - `primaryEntry_sound`, `secondaryEntry_sound` : the opcode maps
  - `disassemble_keepsForms`, `disassemble_keepsSizes` : the disassembler that has them
  - `Instruction.wellFormed_of_decode` : decoded instructions are well formed
-/
import Ia32.Encoding.Decode
import Ia32.Proofs.OperandWidths
import Mathlib.Tactic.IntervalCases

namespace Ia32

namespace Encoding

/-! ## What readers yield -/

/-- Whatever `x` reads has property `P`. -/
def Reader.Yields {α : Type} (P : α → Prop) (x : Reader α) : Prop :=
  ∀ bs a rest, x.run bs = .ok (a, rest) → P a

namespace Reader.Yields

variable {α β : Type} {P : α → Prop} {Q : β → Prop}

theorem pure {a : α} (h : P a) : Yields P (pure a) := by
  rintro bs b rest ⟨⟩
  exact h

theorem fail (d : Defect) : Yields P (fail d) := by
  rintro bs a rest ⟨⟩

theorem bind {x : Reader α} {f : α → Reader β} (hx : Yields P x)
    (hf : ∀ a, P a → Yields Q (f a)) : Yields Q (x >>= f) := by
  intro bs b rest h
  rw [StateT.run_bind] at h
  cases e : x.run bs with
  | error d => rw [e] at h; cases h
  | ok r => rw [e] at h; exact hf r.1 (hx bs r.1 r.2 e) r.2 b rest h

theorem and {P Q : α → Prop} {x : Reader α} (hP : Yields P x) (hQ : Yields Q x) :
    Yields (fun a => P a ∧ Q a) x :=
  fun bs a rest h => ⟨hP bs a rest h, hQ bs a rest h⟩

/-- Nothing need be known of what is read first. -/
theorem after {x : Reader α} {f : α → Reader β} (hf : ∀ a, Yields Q (f a)) :
    Yields Q (x >>= f) :=
  bind (P := fun _ => True) (fun _ _ _ _ => trivial) fun a _ => hf a

end Reader.Yields

open Reader (Yields)

/-! ## Operands -/

/-- The kind of the operands that a form stands for, if the byte after the opcode selects registers
or, without `registers`, memory. -/
def OperandForm.kind (registers : Bool) : OperandForm → OperandKind
  | place _ | placeOfWord _ | address | table => if registers then .general else .memory
  | pointer _ => if registers then .general else .pointer
  | placeRegister _ | selected _ | coded _ _ => .general
  | named r => r.kind
  | offset _ | translation => .memory
  | source | destination => .element
  | immediate _ | second | extended _ | one => .immediate
  | distance _ _ => .near
  | far _ => .far

/-- The operands of the form are bytes or have width `v`. -/
def OperandForm.isSized (v : Width) : OperandForm → Bool
  | place w | selected w | immediate w | extended w => w == .byte || w == v
  | _ => false

theorem kind_registerName (n : Nat) (w : Width) : (registerName n w).kind = .general := by
  unfold registerName
  cases w <;> dsimp only <;> split <;> rfl

theorem count_registerName (n : Nat) (w : Width) : (registerName n w).count = w.bytes := by
  unfold registerName
  cases w <;> dsimp only <;> split <;> rfl

theorem kind_placeOperand {p : Option RawPlace} {m : ModRm} (w : Width) (n : PlaceSize)
    (h : p.isSome = !m.isRegister) :
    (placeOperand p m w n).kind = if m.isRegister then .general
      else if n = .farPointer16 ∨ n = .farPointer32 then .pointer else .memory := by
  cases p with
  | none =>
    have hm : m.isRegister = true := by simpa using h.symm
    rw [hm, if_pos rfl]
    exact kind_registerName _ _
  | some p =>
    have hm : m.isRegister = false := by simpa using h.symm
    rw [hm]
    rfl

theorem kind_immediateOperand (w : Width) (x : UInt32) :
    (immediateOperand w x).kind = .immediate := by
  cases w <;> rfl

theorem kind_extendedOperand (w : Width) (x : UInt32) :
    (extendedOperand w x).kind = .immediate := by
  cases w <;> rfl

theorem kind_nearOperand (w : Width) (x : UInt32) : (nearOperand w x).kind = .near := by
  cases w <;> rfl

theorem kind_farOperand (w : Width) (o : UInt32) (c : UInt16) :
    (farOperand w o c).kind = .far := by
  cases w <;> rfl

theorem count_placeOperand (p : Option RawPlace) (m : ModRm) (w : Width) :
    (placeOperand p m w (.bytes w.bytes)).count = w.bytes := by
  cases p with
  | none => exact count_registerName _ _
  | some p => rfl

theorem readOperand_kind (a : AddressSize) {m : ModRm} {p : Option RawPlace} {x : OperandForm}
    (h : x.isPlace = true → p.isSome = !m.isRegister) :
    Yields (fun y => y.kind = x.kind m.isRegister) (readOperand a m p x) := by
  cases x with
  | place w | placeOfWord w | address | table => exact .pure (kind_placeOperand _ _ (h rfl))
  | pointer w =>
    have hpointer : pointerSize w = .farPointer16 ∨ pointerSize w = .farPointer32 := by
      cases w <;> decide
    exact .pure ((kind_placeOperand w _ (h rfl)).trans (by rw [if_pos hpointer]; rfl))
  | placeRegister w | selected w | coded n w => exact .pure (kind_registerName _ _)
  | named r => exact .pure rfl
  | offset w => exact .after fun d => .pure rfl
  | translation | source | destination | one => exact .pure rfl
  | immediate w => exact .after fun v => .pure (kind_immediateOperand _ _)
  | second => exact .after fun v => .pure rfl
  | extended w => exact .after fun v => .pure (kind_extendedOperand _ _)
  | distance d w => exact .after fun v => .pure (kind_nearOperand _ _)
  | far w => exact .after fun o => .after fun c => .pure (kind_farOperand _ _ _)

theorem readOperand_sized (a : AddressSize) (m : ModRm) (p : Option RawPlace) {v : Width}
    {x : OperandForm} (h : x.isSized v = true) :
    Yields (fun y => y.count = 1 ∨ y.count = v.bytes) (readOperand a m p x) := by
  have hwidth {w : Width} (hw : (w == .byte || w == v) = true) :
      w.bytes = 1 ∨ w.bytes = v.bytes := by
    rw [Bool.or_eq_true, beq_iff_eq, beq_iff_eq] at hw
    rcases hw with rfl | rfl
    · exact .inl rfl
    · exact .inr rfl
  cases x with
  | place w => exact .pure (by rw [count_placeOperand]; exact hwidth h)
  | selected w =>
    exact .pure (by rw [RawOperand.count, count_registerName]; exact hwidth h)
  | immediate w =>
    refine .after fun u => .pure ?_
    have hw := hwidth h
    cases w <;> exact hw
  | extended w =>
    refine .after fun u => .pure ?_
    have hw := hwidth h
    cases w <;> exact hw
  | _ => cases h

theorem readOperands_kind (a : AddressSize) {m : ModRm} {p : Option RawPlace}
    {xs : List OperandForm} (h : xs.any (·.isPlace) = true → p.isSome = !m.isRegister) :
    Yields (fun ys => ys.map RawOperand.kind = xs.map (·.kind m.isRegister))
      (readOperands a m p xs) := by
  induction xs with
  | nil => exact .pure rfl
  | cons x xs ih =>
    have hx : x.isPlace = true → p.isSome = !m.isRegister := fun e => h (by simp [e])
    have hxs : xs.any (·.isPlace) = true → p.isSome = !m.isRegister := fun e => h (by simp [e])
    refine (readOperand_kind a hx).bind fun y hy => (ih hxs).bind fun ys hys => .pure ?_
    rw [List.map_cons, List.map_cons, hy, hys]

/-- What holds of the operand of each form holds of all operands. -/
theorem readOperands_forall (a : AddressSize) (m : ModRm) (p : Option RawPlace)
    {P : RawOperand → Prop} {xs : List OperandForm}
    (h : ∀ x ∈ xs, Yields P (readOperand a m p x)) :
    Yields (fun ys => ∀ y ∈ ys, P y) (readOperands a m p xs) := by
  induction xs with
  | nil => exact Yields.pure (List.forall_mem_nil _)
  | cons x xs ih =>
    rw [List.forall_mem_cons] at h
    refine h.1.bind fun y hy => (ih h.2).bind fun ys hys => ?_
    exact Yields.pure (List.forall_mem_cons.2 ⟨hy, hys⟩)

theorem readPlace_yields (a : AddressSize) (m : ModRm) (xs : List OperandForm) :
    Yields (fun p => xs.any (·.isPlace) = true → p.isSome = !m.isRegister)
      (readPlace a m xs) := by
  rw [readPlace]
  split
  · rename_i h
    rw [Bool.and_eq_true] at h
    exact .after fun p => .pure fun _ => h.1.symm
  · rename_i h
    refine .pure fun hx => ?_
    cases hm : m.isRegister <;> simp_all

end Encoding

/-! ## Entries of the maps -/

/-- The operands are of a form of the mnemonic, and if they are multiplied or divided they are bytes
or have width `v`.  It is no move into CS. -/
structure RawInstruction.Sound (v : Width) (r : RawInstruction) : Prop where
  form : r.HasForm
  code : ¬ r.MovesToCode
  sizes : r.mnemonic.isProduct = true → ∀ x ∈ r.operands, x.count = 1 ∨ x.count = v.bytes

namespace Encoding

open Reader (Yields)

/-- The operands of the entry are sound. -/
def Form.Sound (v : Width) (registers : Bool) : Form → Prop
  | known o xs _ =>
    let ks := xs.map (·.kind registers)
    (o.shapes.contains ks && !(o == .mov && ks.head? == some (.segment .cs)) &&
      (!o.isProduct || xs.all (·.isSized v))) = true
  | _ => True

def Entry.Sound (v : Width) : Entry → Prop
  | fixed f => f.Sound v false
  | selected f => ∀ m, (f m).Sound v m.isRegister

/-- The form stands for no mnemonic; either it is foreign, or reading it ends in a defect. -/
def Form.Foreign : Form → Prop
  | known _ _ _ => False
  | _ => True

theorem Form.Foreign.sound {f : Form} (h : f.Foreign) (v : Width) (registers : Bool) :
    f.Sound v registers := by
  cases f with
  | known o xs lockable => exact h.elim
  | _ => trivial

theorem sound_foreignInstruction (v : Width) : foreignInstruction.Sound v where
  form := .inl rfl
  code := nofun
  sizes := nofun

theorem readForm_yields (a : AddressSize) (p : PrefixSet) {v : Width} {m : ModRm} {f : Form}
    (h : f.Sound v m.isRegister) : Yields (RawInstruction.Sound v) (readForm a p m f) := by
  cases f with
  | known o xs lockable =>
    rw [Form.Sound, Bool.and_eq_true, Bool.and_eq_true] at h
    obtain ⟨⟨hshape, hcode⟩, hsizes⟩ := h
    have hsized (place : Option RawPlace) : Yields (fun ys => o.isProduct = true →
        ∀ y ∈ ys, y.count = 1 ∨ y.count = v.bytes) (readOperands a m place xs) := by
      intro bs ys rest hrun hp
      have hall : ∀ x ∈ xs, x.isSized v = true := by simpa [hp] using hsizes
      exact readOperands_forall a m place (fun x hx => readOperand_sized a m place (hall x hx))
        bs ys rest hrun
    refine (readPlace_yields a m xs).bind fun place hplace =>
      ((readOperands_kind a hplace).and (hsized place)).bind fun ys hys => .after fun _ => .pure ?_
    obtain ⟨hkinds, hcounts⟩ := hys
    refine ⟨.inr ?_, ?_, hcounts⟩
    · rw [RawInstruction.kinds, hkinds]
      exact List.contains_iff_mem.1 hshape
    · rw [RawInstruction.MovesToCode, RawInstruction.kinds, hkinds]
      simpa [imp_iff_not_or] using hcode
  | foreign addressed tail lockable =>
    exact .after fun _ => .after fun _ => .pure (sound_foreignInstruction v)
  | refused addressed tail => exact .after fun _ => .fail _
  | vector kind => exact .after fun _ => .pure (sound_foreignInstruction v)

theorem readEntry_yields (a : AddressSize) (p : PrefixSet) {v : Width} {e : Entry}
    (h : e.Sound v) : Yields (RawInstruction.Sound v) (readEntry a p e) := by
  cases e with
  | fixed f => exact readForm_yields a p h
  | selected f => exact .after fun b => readForm_yields a p (h ⟨b⟩)

/-- A form with a place is sound if it is so for registers and for memory. -/
theorem sound_of_both {v : Width} {f : Form} {m : ModRm} (hm : f.Sound v false)
    (hr : f.Sound v true) : f.Sound v m.isRegister := by
  cases m.isRegister
  · exact hm
  · exact hr

/-! ## The one-byte map -/

section Maps

variable (v : Width)

/-- The two-operand operations take a place and anything but a second place. -/
theorem binaryForm_sound {n : Nat} {registers : Bool} {w : Width} {x : OperandForm}
    (h : x.kind registers = .general ∨ x.kind registers = .immediate) :
    (binaryForm n [.place w, x]).Sound v registers := by
  unfold binaryForm binaryOp
  rw [Form.Sound, List.map_cons, List.map_cons]
  cases registers <;> rcases h with h | h <;> rw [h] <;> split <;> rfl

theorem binaryEntry_sound (n column : Nat) : (binaryEntry v n column).Sound v := by
  unfold binaryEntry
  split
  case h_1 | h_2 => exact fun m => binaryForm_sound v (.inl rfl)
  case h_3 | h_4 =>
    unfold binaryOp
    exact fun m => sound_of_both (by split <;> rfl) (by split <;> rfl)
  case h_5 | h_6 =>
    unfold binaryOp
    split <;> rfl

theorem cornerEntry_sound (b : Nat) : (cornerEntry b).Sound v := by
  unfold cornerEntry
  split
  case h_12 => exact fun _ => trivial
  all_goals rfl

theorem row6_sound (b : Nat) : (row6 v b).Sound v := by
  unfold row6
  dsimp only
  split
  case h_1 | h_2 => cases v <;> rfl
  case h_3 => intro m; dsimp only; split <;> trivial
  case h_4 => exact fun _ => trivial
  case h_6 | h_8 => exact fun m => sound_of_both (by cases v <;> rfl) (by cases v <;> rfl)
  case h_9 | h_10 | h_11 | h_12 => cases lowBitWidth v b <;> rfl
  case h_13 => exact fun _ => trivial
  all_goals rfl

theorem row8_sound (b : Nat) : (row8 v b).Sound v := by
  unfold row8
  dsimp only
  split
  case h_1 | h_2 | h_3 | h_4 => exact fun m => binaryForm_sound v (.inr rfl)
  case h_13 =>
    intro m
    dsimp only
    split
    · rename_i s _
      cases s <;> exact sound_of_both rfl rfl
    · trivial
  case h_14 =>
    intro m
    cases h : m.isRegister
    · simp only [h]; rfl
    · simp only [h]; trivial
  case h_15 =>
    intro m
    dsimp only
    split
    · trivial
    · trivial
    · rename_i s hcs _
      cases s
      case cs => exact absurd rfl hcs
      all_goals exact sound_of_both rfl rfl
  case h_16 =>
    intro m
    dsimp only
    split_ifs
    · trivial
    · exact sound_of_both rfl rfl
    · trivial
  all_goals exact fun m => sound_of_both rfl rfl

theorem row9_sound (p : Mandatory) (b : Nat) : (row9 v p b).Sound v := by
  unfold row9
  split
  case h_1 => split_ifs <;> rfl
  case h_2 | h_3 | h_6 | h_7 => cases v <;> rfl
  all_goals rfl

theorem rowA_sound (b : Nat) : (rowA v b).Sound v := by
  unfold rowA
  dsimp only
  split
  case h_5 | h_6 | h_7 | h_8 | h_11 | h_12 | h_13 | h_14 | h_15 =>
    cases lowBitWidth v b <;> rfl
  all_goals rfl

theorem moveGroup_sound (w : Width) (m : ModRm) : (moveGroup w m).Sound v m.isRegister := by
  unfold moveGroup
  split_ifs
  · exact sound_of_both rfl rfl
  · trivial
  · trivial

theorem farLoad_sound {o : Mnemonic} (ho : o = .les ∨ o = .lds) (kind : VectorKind) :
    (farLoad v o kind).Sound v := by
  intro m
  cases h : m.isRegister
  · rcases ho with rfl | rfl <;> simp only [h] <;> rfl
  · simp only [h]; trivial

theorem shiftForm_sound (n : Nat) {m : ModRm} {w : Width} {x : OperandForm}
    (hx : ∀ registers, x.kind registers = .general ∨ x.kind registers = .immediate) :
    (Form.op (shiftOp n) [.place w, x]).Sound v m.isRegister := by
  unfold shiftOp
  rw [Form.op, Form.Sound, List.map_cons, List.map_cons]
  rcases hx m.isRegister with h | h <;> rw [h] <;> cases m.isRegister <;> split <;> rfl

theorem rowC_sound (b : Nat) : (rowC v b).Sound v := by
  unfold rowC
  dsimp only
  split
  case h_1 | h_2 => exact fun m => shiftForm_sound v _ fun _ => .inr rfl
  case h_5 => exact farLoad_sound v (.inl rfl) _
  case h_6 => exact farLoad_sound v (.inr rfl) _
  case h_7 | h_8 => exact moveGroup_sound v _
  case h_16 => cases v <;> rfl
  all_goals rfl

theorem floatForm_foreign (b : Nat) (m : ModRm) : (floatForm b m).Foreign := by
  unfold floatForm
  dsimp only
  split_ifs <;> trivial

theorem rowD_sound (b : Nat) : (rowD v b).Sound v := by
  unfold rowD
  dsimp only
  split
  case h_1 | h_2 => exact fun m => shiftForm_sound v _ fun _ => .inr rfl
  case h_3 | h_4 => exact fun m => shiftForm_sound v _ fun _ => .inl rfl
  case h_7 => trivial
  case h_9 => exact fun m => (floatForm_foreign b m).sound v _
  all_goals rfl

theorem rowE_sound (a : AddressSize) (b : Nat) : (rowE v a b).Sound v := by
  unfold rowE
  dsimp only
  split
  case h_4 => split_ifs <;> rfl
  all_goals rfl

/-- Most products and quotients are in this group. -/
theorem unaryGroup_sound {w : Width} (hw : w = .byte ∨ v = w) (m : ModRm) :
    (unaryGroup w m).Sound v m.isRegister := by
  unfold unaryGroup
  rcases hw with rfl | rfl
  · split <;> exact sound_of_both (by cases v <;> rfl) (by cases v <;> rfl)
  · split <;> exact sound_of_both (by cases v <;> rfl) (by cases v <;> rfl)

theorem farTarget_sound (w : Width) (m : ModRm) {o : Mnemonic} (h : o = .call ∨ o = .jmp) :
    (farTarget w m o).Sound v m.isRegister := by
  unfold farTarget
  cases m.isRegister
  · rcases h with rfl | rfl <;> rfl
  · trivial

theorem stepGroup_sound (w : Width) (m : ModRm) : (stepGroup w m).Sound v m.isRegister := by
  unfold stepGroup
  split
  case h_4 => exact farTarget_sound v w m (.inl rfl)
  case h_6 => exact farTarget_sound v w m (.inr rfl)
  case h_8 => trivial
  all_goals exact sound_of_both rfl rfl

theorem byteStepGroup_sound (m : ModRm) : (byteStepGroup m).Sound v m.isRegister := by
  unfold byteStepGroup
  split_ifs
  · exact stepGroup_sound v .byte m
  · trivial

theorem rowF_sound (b : Nat) : (rowF v b).Sound v := by
  unfold rowF
  split
  case h_1 => trivial
  case h_4 => exact unaryGroup_sound v (.inl rfl)
  case h_5 => exact unaryGroup_sound v (.inr rfl)
  case h_12 => exact byteStepGroup_sound v
  case h_13 => exact stepGroup_sound v v
  case h_14 => exact fun _ => trivial
  all_goals rfl

theorem jumpForm_sound (n : Nat) (d : Width) :
    (Form.op (jumpOp n) [.distance d v]).Sound v false := by
  unfold jumpOp
  split <;> rfl

theorem primaryEntry_sound (a : AddressSize) (p : Mandatory) (op : UInt8) :
    (primaryEntry v a p op).Sound v := by
  unfold primaryEntry
  dsimp only
  split
  case h_5 => split_ifs <;> rfl
  case h_6 => split_ifs <;> rfl
  case h_7 => exact row6_sound v _
  case h_8 => exact jumpForm_sound v _ _
  case h_9 => exact row8_sound v _
  case h_10 => exact row9_sound v _ _
  case h_11 => exact rowA_sound v _
  case h_12 => rfl
  case h_13 => exact rowC_sound v _
  case h_14 => exact rowD_sound v _
  case h_15 => exact rowE_sound v _ _
  case h_16 => exact rowF_sound v _
  all_goals
    split_ifs
    · exact binaryEntry_sound v _ _
    · exact cornerEntry_sound v _

/-! ## The two-byte map -/

theorem Variants.form_foreign (x : Variants) (p : Mandatory) (m : ModRm) :
    (x.form p m).Foreign := by
  unfold Variants.form
  dsimp only
  split_ifs <;> trivial

theorem systemForm_sound (p : Mandatory) (m : ModRm) :
    (systemForm v p m).Sound v m.isRegister := by
  unfold systemForm
  split
  · exact sound_of_both rfl rfl
  · exact sound_of_both rfl rfl
  · cases h : m.isRegister
    · rw [if_neg Bool.false_ne_true]
      split
      case h_5 => split_ifs <;> trivial
      case h_6 => trivial
      all_goals rfl
    · rw [if_pos rfl]
      split_ifs <;> trivial

/-- Control and debug registers are numbered below eight. -/
theorem numbered_sound (load : Bool) (m : ModRm) {r : Nat → RegisterName}
    (hr : r = .cr ∨ r = .dr) :
    (Form.op .mov (if load then [.named (r m.reg), .placeRegister .dword]
      else [.placeRegister .dword, .named (r m.reg)])).Sound v m.isRegister := by
  have hlt : m.reg < 8 := Nat.mod_lt _ (by decide)
  generalize m.reg = n at hlt
  rcases hr with rfl | rfl <;> cases load <;> interval_cases n <;> rfl

theorem controlForm_sound (load : Bool) (m : ModRm) :
    (controlForm load m).Sound v m.isRegister := by
  unfold controlForm
  split_ifs
  · trivial
  · exact numbered_sound v true m (.inl rfl)
  · exact numbered_sound v false m (.inl rfl)

theorem debugForm_sound (load : Bool) (m : ModRm) : (debugForm load m).Sound v m.isRegister :=
  numbered_sound v load m (.inr rfl)

theorem bitGroup_sound (m : ModRm) : (bitGroup v m).Sound v m.isRegister := by
  unfold bitGroup
  split
  case h_5 => trivial
  all_goals exact sound_of_both rfl rfl

theorem stateForm_foreign (sized : Bool) (p : Mandatory) (m : ModRm) :
    (stateForm sized p m).Foreign := by
  unfold stateForm
  dsimp only
  split_ifs <;> trivial

theorem exchangeForm_foreign (p : Mandatory) (m : ModRm) : (exchangeForm p m).Foreign := by
  unfold exchangeForm
  dsimp only
  split_ifs <;> trivial

theorem cipherForm_foreign (b : Nat) (a : AddressSize) (p : Mandatory) (m : ModRm) :
    (cipherForm b a p m).Foreign := by
  unfold cipherForm
  dsimp only
  split_ifs <;> trivial

theorem vectorShiftForm_foreign (b : Nat) (p : Mandatory) (m : ModRm) :
    (vectorShiftForm b p m).Foreign := by
  unfold vectorShiftForm
  dsimp only
  split_ifs <;> trivial

theorem bitFieldForm_foreign (p : Mandatory) (m : ModRm) : (bitFieldForm p m).Foreign := by
  unfold bitFieldForm
  split
  case h_1 | h_4 => trivial
  all_goals split_ifs <;> trivial

theorem thirdMapForm_foreign (b : Nat) (p : Mandatory) (m : ModRm) :
    (thirdMapForm b p m).Foreign := by
  unfold thirdMapForm
  split_ifs
  · trivial
  · trivial
  · exact Variants.form_foreign _ p m

theorem fourthMapForm_foreign (b : Nat) (p : Mandatory) (m : ModRm) :
    (fourthMapForm b p m).Foreign := by
  unfold fourthMapForm
  split_ifs
  · trivial
  · trivial
  · exact Variants.form_foreign _ p m

theorem secondaryRow0_sound (p : Mandatory) (b : Nat) : (secondaryRow0 v p b).Sound v := by
  unfold secondaryRow0
  split
  case h_1 => intro m; dsimp only; split_ifs <;> trivial
  case h_2 => exact systemForm_sound v p
  case h_13 => exact fun _ => trivial
  all_goals first | exact fun _ => trivial | trivial

theorem secondaryRow2_sound (p : Mandatory) (b : Nat) : (secondaryRow2 p b).Sound v := by
  unfold secondaryRow2
  split
  case h_1 => exact controlForm_sound v false
  case h_2 => exact debugForm_sound v false
  case h_3 => exact controlForm_sound v true
  case h_4 => exact debugForm_sound v true
  case h_9 => exact fun m => (Variants.form_foreign _ p m).sound v _
  all_goals exact fun _ => trivial

theorem secondaryRow7_sound (p : Mandatory) (b : Nat) : (secondaryRow7 p b).Sound v := by
  unfold secondaryRow7
  split
  case h_1 | h_2 | h_3 => exact fun m => (vectorShiftForm_foreign _ p m).sound v _
  case h_4 => rw [Entry.Sound]; split_ifs <;> trivial
  case h_5 => exact fun m => (bitFieldForm_foreign p m).sound v _
  case h_6 => exact fun m => (Variants.form_foreign _ p m).sound v _

theorem unlessRep_sound (p : Mandatory) {e : Entry} (h : e.Sound v) : (unlessRep p e).Sound v := by
  unfold unlessRep
  split_ifs
  · exact fun _ => trivial
  · exact h

theorem secondaryRowA_sound (a : AddressSize) (sized : Bool) (p : Mandatory) (b : Nat) :
    (secondaryRowA v a sized p b).Sound v := by
  unfold secondaryRowA
  split
  case h_16 => exact fun _ => sound_of_both (by cases v <;> rfl) (by cases v <;> rfl)
  all_goals first
    | rfl
    | trivial
    | exact fun m => (cipherForm_foreign _ a p m).sound v _
    | exact fun m => (stateForm_foreign sized p m).sound v _
    | exact fun _ => sound_of_both rfl rfl
    | exact fun _ => trivial

theorem loadFarEntry_sound {o : Mnemonic} (ho : o = .lss ∨ o = .lfs ∨ o = .lgs) :
    (loadFarEntry v o).Sound v := by
  intro m
  cases h : m.isRegister
  · rcases ho with rfl | rfl | rfl <;> simp only [h] <;> rfl
  · simp only [h]; trivial

theorem secondaryRowB_sound (p : Mandatory) (b : Nat) : (secondaryRowB v p b).Sound v := by
  unfold secondaryRowB
  split
  case h_3 => exact loadFarEntry_sound v (.inl rfl)
  case h_5 => exact loadFarEntry_sound v (.inr (.inl rfl))
  case h_6 => exact loadFarEntry_sound v (.inr (.inr rfl))
  case h_9 => split_ifs <;> exact fun _ => trivial
  case h_11 => exact bitGroup_sound v
  case h_13 | h_14 => exact unlessRep_sound v p fun _ => sound_of_both rfl rfl
  all_goals first
    | exact fun _ => sound_of_both rfl rfl
    | exact fun _ => trivial

theorem secondaryRowC_sound (p : Mandatory) (b : Nat) : (secondaryRowC p b).Sound v := by
  unfold secondaryRowC
  split
  case h_3 => exact fun m => (exchangeForm_foreign p m).sound v _
  case h_4 =>
    split_ifs
    · trivial
    · exact fun m => (Variants.form_foreign _ p m).sound v _
  all_goals exact fun _ => trivial

theorem setForm_sound (n : Nat) (m : ModRm) :
    (Form.op (setOp n) [.place .byte]).Sound v m.isRegister := by
  unfold setOp
  exact sound_of_both (by split <;> rfl) (by split <;> rfl)

theorem secondaryEntry_sound (a : AddressSize) (q : PrefixSet) (op : UInt8) :
    (secondaryEntry v a q op).Sound v := by
  unfold secondaryEntry
  dsimp only
  split
  case h_1 => exact secondaryRow0_sound v _ _
  case h_2 =>
    split_ifs
    · exact fun m => (Variants.form_foreign _ _ m).sound v _
    · intro m
      dsimp only
      split_ifs
      · exact sound_of_both rfl rfl
      · trivial
  case h_3 => exact secondaryRow2_sound v _ _
  case h_4 =>
    split_ifs
    · trivial
    · trivial
    · trivial
    · exact fun _ => trivial
  case h_5 => exact fun _ => trivial
  case h_6 | h_7 => exact fun m => (Variants.form_foreign _ _ m).sound v _
  case h_8 => exact secondaryRow7_sound v _ _
  case h_9 => exact jumpForm_sound v _ _
  case h_10 => exact fun m => setForm_sound v _ m
  case h_11 => exact secondaryRowA_sound v a _ _ _
  case h_12 => exact secondaryRowB_sound v _ _
  case h_13 => exact secondaryRowC_sound v _ _
  case h_14 =>
    split_ifs
    · exact fun _ => trivial
    · exact fun m => (Variants.form_foreign _ _ m).sound v _

end Maps

/-! ## Instructions -/

theorem readPackedFloat_yields (a : AddressSize) (p : PrefixSet) (v : Width) :
    Yields (RawInstruction.Sound v) (readPackedFloat a p) := by
  refine .after fun m => .after fun _ => .after fun b => readForm_yields a p ?_
  split_ifs <;> trivial

theorem readBody_yields (s : Sizes) (p : PrefixSet) :
    Yields (RawInstruction.Sound s.operand) (readBody s p) := by
  refine .after fun b => ?_
  split_ifs
  · exact readEntry_yields _ p (primaryEntry_sound _ _ _ b)
  · refine .after fun b => ?_
    split_ifs
    · exact .after fun b => readEntry_yields _ p (e := .selected _) fun m =>
        (thirdMapForm_foreign _ _ m).sound _ _
    · exact .after fun b => readEntry_yields _ p (e := .selected _) fun m =>
        (fourthMapForm_foreign _ _ m).sound _ _
    · exact readPackedFloat_yields _ p _
    · exact readEntry_yields _ p (secondaryEntry_sound _ _ _ b)

end Encoding

/-! ## The disassembler -/

/-- A target may be anywhere. -/
theorem RawInstruction.Sound.relocate {v : Width} {r : RawInstruction} (h : r.Sound v)
    (next : UInt32) : (r.relocate next).Sound v where
  form := h.form.relocate next
  code := by rw [MovesToCode, kinds_relocate]; exact h.code
  sizes hp x hx := by
    obtain ⟨y, hy, rfl⟩ := List.mem_map.1 hx
    rw [RawOperand.count_relocate]
    exact h.sizes hp y hy

namespace Encoding

variable {wide : Bool} {bs : List UInt8} {ip : UInt32} {r : RawInstruction} {n : Nat}

/-- What is disassembled is a body behind legacy bytes. -/
theorem body_of_disassemble (h : disassemble wide bs ip = .ok (r, n)) : ∃ q left,
    let p := PrefixSet.ofBytes (PrefixSet.leading bs)
    (readBody (Sizes.ofPrefixes wide p) p).run (bs.drop (PrefixSet.leading bs).length) =
        .ok (q, left) ∧
      n = bs.length - left.length ∧ r = q.relocate (ip + UInt32.ofNat n) := by
  rw [disassemble, PrefixSet.takeAll_eq, PrefixSet.empty_followedBy] at h
  dsimp only at h
  split at h
  · rename_i q left hbody
    cases h
    exact ⟨q, left, hbody, rfl, rfl⟩
  · cases h
  · cases h

theorem sound_of_disassemble (h : disassemble wide bs ip = .ok (r, n)) :
    r.Sound (Sizes.ofPrefixes wide (.ofBytes (PrefixSet.leading bs))).operand := by
  obtain ⟨q, left, hbody, -, rfl⟩ := body_of_disassemble h
  exact (readBody_yields _ _ _ _ _ hbody).relocate _

/-- **The opcode maps keep to the forms of the mnemonics.** -/
theorem disassemble_keepsForms : disassemble.KeepsForms :=
  fun _ _ _ _ _ h => (sound_of_disassemble h).form

/-- **The opcode maps keep to the sizes of products.** -/
theorem disassemble_keepsSizes : disassemble.KeepsSizes :=
  fun _ _ _ _ _ h => (sound_of_disassemble h).sizes

end Encoding

namespace Instruction

open Encoding

variable {bs : List UInt8} {wide : Bool} {ip : UInt32} {i : Instruction}

/-- **Decoded instructions are well formed**, as the opcode maps have no move into CS. -/
theorem wellFormed_of_decode (h : decode bs wide ip = .ok i) : i.WellFormed := by
  obtain ⟨p, rest, r, n, -, hr, -, hi⟩ := decodeBy_eq_ok.1 h
  have hsound := sound_of_disassemble hr
  exact ⟨(RawInstruction.becomes_of_convert? hi).unit,
    (accepts_of_convert? hsound.form hi).resolve_right hsound.code⟩

end Instruction

end Ia32
