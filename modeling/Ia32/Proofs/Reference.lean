/-
  Disassemblers that follow an instruction set reference.

  By the reference it is the bytes of an instruction that tell what it is, and the offset of the
  next instruction that near targets are counted from.  A disassembler that follows it looks no
  further than these bytes, and what it gives at another offset differs in near targets only.

  Main definitions:
  - `Reference` : what byte strings stand for, near targets as distances
  - `Reference.Lawful` : instructions have an opcode, and operands of a form of their mnemonic
  - `Disassembler.Follows` : what is disassembled is what the reference tells of the first bytes
  - `Instruction.movedBy` : the instruction at another distance from its target

  Main statements:
  - `RawInstruction.convert?_relocate` : targets move along
  - `Instruction.decodeBy_eq_ok_iff` : what is decoded, by the reference
-/
import Ia32.Proofs.LegacyBytes
import Ia32.Proofs.OperandKinds

namespace Ia32

open PrefixSet (leading legacyBytes)

/-! ## The instruction set reference -/

/-- An instruction set reference, for code segments that are 32 bits wide or not: what a byte string
stands for, if it is an instruction.  Near targets are distances from its end. -/
abbrev Reference := (wide : Bool) → (bytes : List UInt8) → Option RawInstruction

/-- Behind its legacy bytes an instruction has an opcode, which is none of them; and its operands
are of a form of the mnemonic. -/
structure Reference.Lawful (R : Reference) : Prop where
  opcode : ∀ {wide bs r}, R wide bs = some r → ∃ b ∈ bs, b ∉ legacyBytes
  form : ∀ {wide bs r}, R wide bs = some r → r.HasForm

/-- **The disassembler follows the reference**: it gives the instruction that the first bytes stand
for, with its near targets counted from the offset of the next one. -/
def Disassembler.Follows (d : Disassembler) (R : Reference) : Prop :=
  ∀ wide bs ip r n, d wide bs ip = .ok (r, n) ↔
    n ≤ bs.length ∧ ∃ q, R wide (bs.take n) = some q ∧ r = q.relocate (ip + UInt32.ofNat n)

/-! ## Targets -/

/-- Distances add up. -/
theorem RawOperand.relocate_relocate (a b : UInt32) (x : RawOperand) :
    (x.relocate a).relocate b = x.relocate (a + b) := by
  cases x with
  | near16 t =>
    rw [relocate, relocate, relocate, UInt32.toUInt16_add, ← UInt16.add_assoc,
      UInt16.add_comm b.toUInt16]
  | near32 t => rw [relocate, relocate, relocate, ← UInt32.add_assoc, UInt32.add_comm b]
  | _ => rfl

theorem RawInstruction.relocate_relocate (a b : UInt32) (r : RawInstruction) :
    (r.relocate a).relocate b = r.relocate (a + b) := by
  rw [relocate, relocate, relocate, List.map_map]
  exact congrArg _ (List.map_congr_left fun x _ => x.relocate_relocate a b)

/-- Only near targets move. -/
theorem RawOperand.relocate_of_kind {x : RawOperand} (h : x.kind ≠ .near) (a : UInt32) :
    x.relocate a = x := by
  cases x with
  | near16 t | near32 t => exact absurd rfl h
  | _ => rfl

/-- An operand that holds a target, moved by a distance. -/
def Operand.moveTarget (d : UInt32) : Operand → Operand
  | immediate t w => immediate (w.truncate (d + t)) w
  | x => x

@[simp] theorem Operand.width_moveTarget (d : UInt32) (x : Operand) :
    (x.moveTarget d).width = x.width := by
  cases x <;> rfl

theorem UInt16.toUInt32_add_toUInt16 (d : UInt32) (t : UInt16) :
    (d.toUInt16 + t).toUInt32 = Width.word.truncate (d + t.toUInt32) := by
  apply UInt32.toNat_inj.1
  rw [Width.toNat_truncate, Width.modulus]
  simp

namespace RawOperand

variable {segment : Option SegmentName} {w : Width}

/-- Targets, and places that may hold one, become operands whose target moves. -/
theorem convert?_relocate {x : RawOperand}
    (h : x.kind = .near ∨ x.kind = .general ∨ x.kind = .memory) (a : UInt32) :
    (x.relocate a).convert? segment w =
      (x.convert? segment w).map (List.map (Operand.moveTarget a)) := by
  cases x with
  | register r =>
    change convert? _ _ (register r) = _
    rw [convert?]
    cases r.ref? <;> rfl
  | near16 t =>
    rw [relocate, convert?, convert?, Option.map_some, List.map_singleton, Operand.moveTarget,
      UInt16.toUInt32_add_toUInt16]
  | near32 t =>
    rw [relocate, convert?, convert?, Option.map_some, List.map_singleton, Operand.moveTarget,
      Width.truncate_dword]
  | memory p =>
    change convert? _ _ (memory p) = _
    rw [convert?]
    cases p.memory? segment <;> rfl
  | _ => rcases h with h | h | h <;> cases h

/-- A target is a word or a doubleword. -/
theorem width_of_target {x : RawOperand}
    (h : x.kind = .near ∨ x.kind = .general ∨ x.kind = .memory) {ys : List Operand}
    (hys : x.convert? segment w = some ys) {t : UInt32} {u : Width}
    (ht : .immediate t u ∈ ys) : u = .word ∨ u = .dword := by
  cases x with
  | near16 t => cases hys; cases List.mem_singleton.1 ht; exact .inl rfl
  | near32 t => cases hys; cases List.mem_singleton.1 ht; exact .inr rfl
  | register r =>
    obtain ⟨q, -, hys⟩ := Option.bind_eq_some_iff.1 hys
    cases hys
    cases List.mem_singleton.1 ht
  | memory p =>
    obtain ⟨m, -, hys⟩ := Option.bind_eq_some_iff.1 hys
    cases hys
    cases List.mem_singleton.1 ht
  | _ => rcases h with h | h | h <;> cases h

theorem convertAll?_relocate {xs : List RawOperand}
    (h : ∀ x ∈ xs, x.kind = .near ∨ x.kind = .general ∨ x.kind = .memory) (a : UInt32) :
    convertAll? segment w (xs.map (·.relocate a)) =
      (convertAll? segment w xs).map (List.map (Operand.moveTarget a)) := by
  induction xs with
  | nil => rfl
  | cons x xs ih =>
    rw [List.forall_mem_cons] at h
    rw [List.map_cons, convertAll?, convertAll?, convert?_relocate h.1, ih h.2]
    cases x.convert? segment w with
    | none => rfl
    | some ys =>
      cases convertAll? segment w xs with
      | none => rfl
      | some zs => exact congrArg some List.map_append.symm

theorem width_of_targets {xs : List RawOperand}
    (h : ∀ x ∈ xs, x.kind = .near ∨ x.kind = .general ∨ x.kind = .memory) {ys : List Operand}
    (hys : convertAll? segment w xs = some ys) {t : UInt32} {u : Width}
    (ht : .immediate t u ∈ ys) : u = .word ∨ u = .dword := by
  induction xs generalizing ys with
  | nil => cases hys; cases ht
  | cons x xs ih =>
    rw [List.forall_mem_cons] at h
    obtain ⟨a, ha, hys⟩ := Option.bind_eq_some_iff.1 hys
    obtain ⟨b, hb, hys⟩ := Option.bind_eq_some_iff.1 hys
    cases hys
    rcases List.mem_append.1 ht with ht | ht
    · exact width_of_target h.1 ha ht
    · exact ih h.2 hb ht

end RawOperand

/-- The operation goes to a target that its immediate operand gives. -/
def Operation.isRelative : Operation → Bool
  | .branch (.jmp) | .branch (.jcc _) | .branch .jcxz | .branch (.loop _) | .branch .call => true
  | _ => false

/-- Those operations take a near target, or a place that holds one, and no others do. -/
def Mnemonic.aims (m : Mnemonic) (ks : List OperandKind) : Bool :=
  match m.operationOn? ks with
  | none => true
  | some o =>
    if o.isRelative then ks.all fun k => k == .near || k == .general || k == .memory
    else !ks.contains .near

theorem Mnemonic.aims_of_mem_shapes {m : Mnemonic} {ks : List OperandKind} (h : ks ∈ m.shapes) :
    m.aims ks = true := by
  revert ks
  cases m <;> decide

/-- The instruction with its target, if it is a near one, moved by a distance. -/
def Instruction.movedBy (i : Instruction) (d : UInt32) : Instruction :=
  if i.operation.isRelative then { i with operands := i.operands.map (Operand.moveTarget d) }
  else i

namespace RawInstruction

variable {r : RawInstruction} {wide : Bool} {p : PrefixSet} {n : Nat}

theorem operation?_relocate (a : UInt32) (r : RawInstruction) :
    (r.relocate a).operation? = r.operation? := by
  rw [operation?_eq, operation?_eq, kinds_relocate]
  rfl

/-- Without near targets nothing moves. -/
theorem relocate_eq_self (h : .near ∉ r.kinds) (a : UInt32) : r.relocate a = r := by
  have hmap : r.operands.map (·.relocate a) = r.operands := by
    refine (List.map_congr_left fun x hx => ?_).trans (List.map_id _)
    exact x.relocate_of_kind (fun hx' => h (hx' ▸ List.mem_map_of_mem hx)) a
  rw [relocate, hmap]

/-- Operands of a form aim where the operation asks them to. -/
theorem aims_of_operation? {o : Operation} (hform : r.HasForm) (ho : r.operation? = some o) :
    if o.isRelative then
      ∀ x ∈ r.operands, x.kind = .near ∨ x.kind = .general ∨ x.kind = .memory
    else .near ∉ r.kinds := by
  have hshape : r.kinds ∈ r.mnemonic.shapes := by
    refine hform.resolve_left fun hother => ?_
    rw [operation?, hother] at ho
    cases ho
  have haims := Mnemonic.aims_of_mem_shapes hshape
  rw [operation?_eq] at ho
  rw [Mnemonic.aims, ho] at haims
  cases hrelative : o.isRelative <;> simpa [hrelative, kinds, or_assoc] using haims

theorem isImplied_of_isRelative {o : Operation} (h : o.isRelative = true) :
    o.isImplied = false := by
  cases o with
  | branch o => rfl
  | _ => cases h

/-- The operands, with the target of a relative operation moved. -/
theorem operands?_relocate {o : Operation} {segment : Option SegmentName} {w : Width}
    (hform : r.HasForm) (ho : r.operation? = some o) (a : UInt32) :
    (r.relocate a).operands? o segment w = (r.operands? o segment w).map fun xs =>
      (if o.isRelative then xs.1.map (Operand.moveTarget a) else xs.1, xs.2) := by
  have haims := aims_of_operation? hform ho
  cases hrelative : o.isRelative with
  | false =>
    rw [hrelative, if_neg Bool.false_ne_true] at haims
    rw [relocate_eq_self haims]
    cases r.operands? o segment w <;> rfl
  | true =>
    rw [hrelative, if_pos rfl] at haims
    have himplied := isImplied_of_isRelative hrelative
    rw [operands?_eq_map himplied, operands?_eq_map himplied, relocate,
      RawOperand.convertAll?_relocate haims, Option.map_map, Option.map_map]
    refine congrArg (Option.map · _) (funext fun xs => ?_)
    simp [List.map_take, Function.comp_def]

/-- **Targets move along**, and nothing else changes. -/
theorem convert?_relocate (hform : r.HasForm) (a : UInt32) :
    (r.relocate a).convert? wide p n = (r.convert? wide p n).map (·.movedBy a) := by
  rw [convert?, convert?, operation?_relocate]
  cases ho : r.operation? with
  | none => rfl
  | some o =>
    dsimp only [bind, Option.bind]
    rw [operands?_relocate hform ho]
    cases r.operands? o p.segment (Sizes.ofPrefixes wide p).operand with
    | none => rfl
    | some xs =>
      dsimp only [Option.map, pure]
      rw [Instruction.movedBy]
      cases o.isRelative <;> rfl

end RawInstruction

namespace Instruction

variable {d : Disassembler} {R : Reference} {bs : List UInt8} {wide : Bool} {ip : UInt32}
  {i : Instruction}

/-- What is decoded, by the reference: the first bytes are an instruction, within the length limit,
and the legacy bytes in front are all that count besides. -/
theorem decodeBy_eq_ok_iff (hR : R.Lawful) (hd : d.Follows R) :
    decodeBy d bs wide ip = .ok i ↔
      i.length.toNat ≤ maxInstructionLength ∧ i.length.toNat ≤ bs.length ∧
      ∃ q, R wide (bs.take i.length.toNat) = some q ∧
        (q.relocate (ip + UInt32.ofNat i.length.toNat)).convert? wide (.ofBytes (leading bs))
          i.length.toNat = some i := by
  rw [decodeBy_eq_ok]
  constructor
  · rintro ⟨p, rest, r, n, hscan, hr, hn, hi⟩
    obtain ⟨hle, q, hq, rfl⟩ := (hd _ _ _ _ _).1 hr
    have hlength : i.length.toNat = n := by
      rw [(RawInstruction.becomes_of_convert? hi).length, UInt8.toNat_ofNat']
      rw [maxInstructionLength] at hn
      omega
    rw [List.length_take] at hle
    rw [List.take_take, Nat.min_eq_left hn] at hq
    rw [hlength, ← (PrefixSet.scan_eq_ok.1 hscan).2.2.1]
    exact ⟨hn, by omega, q, hq, hi⟩
  · rintro ⟨hn, hle, q, hq, hi⟩
    -- the opcode is within the instruction, so the legacy bytes end before it does
    obtain ⟨b, hb, hopcode⟩ := hR.opcode hq
    have hlt := PrefixSet.length_leading_lt hb hopcode
    rw [maxInstructionLength] at hn
    refine ⟨_, _, _, _, PrefixSet.scan_eq_ok.2 ⟨by omega, by omega, rfl, rfl⟩,
      (hd _ _ _ _ _).2 ⟨?_, q, ?_, rfl⟩, hn, hi⟩
    · rw [List.length_take, maxInstructionLength]
      omega
    · rwa [List.take_take, maxInstructionLength, Nat.min_eq_left hn]

end Instruction

end Ia32
