/-
  Operands by their kinds, and what kinds of operands a mnemonic has.

  The instruction set reference lists the forms of each mnemonic, with the kinds of operands that
  each of them takes.  Of a disassembler no more is asked here than that it keeps to these forms.
  Kinds decide what operands are taken over, so the forms can be held against the signatures of the
  operations, one mnemonic after the other.

  Main definitions:
  - `OperandKind`, `RawOperand.kind` : an encoded operand, up to its contents
  - `Mnemonic.forms`, `Mnemonic.shapes` : the operands that the reference gives a mnemonic
  - `Disassembler.KeepsForms` : the disassembler gives no others
  - `Instruction.MovesToCode` : a move into CS
  - `Instruction.Fit` : the operands fit the operation, unless it is a move into CS

  Main statements:
  - `RawOperand.class_of_convert?` : kinds decide the classes of operands
  - `Mnemonic.fits_of_mem_shapes` : the forms of each mnemonic fit its operation
  - `Instruction.fit_of_decodeBy` : what a disassembler gives that keeps to the forms
-/
import Ia32.Decoder.Decode
import Ia32.Proofs.Signature
import Mathlib.Data.List.Sections

namespace Ia32

/-- An encoded operand up to its contents.  A `pointer` is a far pointer in memory, an `element` one
of a string. -/
inductive OperandKind
  | general
  | segment (s : SegmentName)
  | control (n : Nat)
  | debug (n : Nat)
  | memory | pointer | element
  | immediate | near | far
  | other
  deriving DecidableEq, Repr

def RegisterName.kind : RegisterName → OperandKind
  | al | cl | dl | bl | ah | ch | dh | bh => .general
  | ax | cx | dx | bx | sp | bp | si | di => .general
  | eax | ecx | edx | ebx | esp | ebp | esi | edi => .general
  | es => .segment .es
  | cs => .segment .cs
  | ss => .segment .ss
  | ds => .segment .ds
  | fs => .segment .fs
  | gs => .segment .gs
  | cr n => .control n
  | dr n => .debug n
  | absent | other => .other

def RawOperand.kind : RawOperand → OperandKind
  | register r => r.kind
  | near16 _ | near32 _ => .near
  | far16 _ _ | far32 _ _ => .far
  | immediate8 _ | second8 _ | immediate16 _ | immediate32 _ | extended16 _ | extended32 _ =>
    .immediate
  | memory p => if p.size = .farPointer16 ∨ p.size = .farPointer32 then .pointer else .memory
  | source _ | destination _ => .element
  | other => .other

def RawInstruction.kinds (r : RawInstruction) : List OperandKind := r.operands.map RawOperand.kind

@[simp] theorem RawOperand.kind_relocate (a : UInt32) (x : RawOperand) :
    (x.relocate a).kind = x.kind := by
  cases x <;> rfl

@[simp] theorem RawInstruction.kinds_relocate (a : UInt32) (r : RawInstruction) :
    (r.relocate a).kinds = r.kinds := by
  rw [kinds, relocate, List.map_map]
  exact List.map_congr_left fun x _ => x.kind_relocate a

/-! ## The forms of the reference -/

namespace OperandKind

/-- A general register or memory. -/
def place : List OperandKind := [general, memory]

def segments : List OperandKind := SegmentName.all.map segment

/-- CS can be pushed, but not popped. -/
def popped : List OperandKind := [segment .es, segment .ss, segment .ds, segment .fs, segment .gs]

def controls : List OperandKind := (List.range 8).map control

def debugs : List OperandKind := (List.range 8).map debug

end OperandKind

open OperandKind in
/-- The forms of each mnemonic, with the kinds that each of their operands may have.  Two of the
string operations share their mnemonics with vector ones, and no forms are told of the instructions
that are not carried out. -/
def Mnemonic.forms : Mnemonic → List (List (List OperandKind))
  | add | adc | sub | sbb | cmp | and | or | xor =>
    [[place, [general]], [[general], place], [place, [immediate]]]
  | test | bt | bts | btr | btc => [[place, [general]], [place, [immediate]]]
  | inc | dec | neg | not | mul | div | idiv => [[place]]
  | imul => [[place], [[general], place], [[general], place, [immediate]]]
  | shl | sal | shr | sar | rol | ror | rcl | rcr => [[place, [immediate]], [place, [general]]]
  | seto | setno | setb | setae | sete | setne | setbe | seta
  | sets | setns | setp | setnp | setl | setge | setle | setg => [[place]]
  | bsf | bsr | movzx | movsx => [[[general], place]]
  | mov =>
    [[place, [general]], [[general], place], [place, [immediate]],
      [place, segments], [segments, place],
      [[general], controls], [controls, [general]], [[general], debugs], [debugs, [general]]]
  | xchg => [[place, [general]]]
  | lea => [[[general], [memory]]]
  | push => [[place], [[immediate]], [segments]]
  | pop => [[place], [popped]]
  | lds | les | lfs | lgs | lss => [[[general], [pointer]]]
  | xlatb => [[], [[memory]]]
  | jmp | call => [[[near]], [place], [[far]], [[pointer]]]
  | jo | jno | jb | jae | je | jne | jbe | ja | js | jns | jp | jnp | jl | jge | jle | jg
  | jcxz | jecxz | loop | loope | loopne => [[[near]]]
  | ret | retf => [[], [[immediate]]]
  | aam | aad | int => [[[immediate]]]
  | enter => [[[immediate], [immediate]]]
  | movsb | movsw | cmpsb | cmpsw => [[[element], [element]]]
  | movsd => [[[element], [element]], [[.other], [.other, memory]], [[memory], [.other]]]
  | cmpsd => [[[element], [element]], [[.other], [.other, memory], [immediate]]]
  | stosb | stosw | stosd | insb | insw | insd => [[[element], [general]]]
  | lodsb | lodsw | lodsd | scasb | scasw | scasd | outsb | outsw | outsd =>
    [[[general], [element]]]
  | input => [[[general], [immediate]], [[general], [general]]]
  | output => [[[immediate], [general]], [[general], [general]]]
  | lgdt | lidt | sgdt | sidt => [[[memory]]]
  | lmsw | smsw => [[place]]
  | nop => [[], [place]]
  | cbw | cwde | cwd | cdq | daa | das | aaa | aas
  | pusha | pushad | popa | popad | pushf | pushfd | popf | popfd | lahf | sahf
  | int3 | into | iret | iretd | leave
  | clc | stc | cmc | cld | std | cli | sti | hlt | wait | pause => [[]]
  | .other => []

/-- The lists of kinds that operands of a mnemonic can have. -/
def Mnemonic.shapes (m : Mnemonic) : List (List OperandKind) := m.forms.flatMap List.sections

/-- The operands are of one of the forms, if forms are told. -/
def RawInstruction.HasForm (r : RawInstruction) : Prop :=
  r.mnemonic = .other ∨ r.kinds ∈ r.mnemonic.shapes

theorem RawInstruction.HasForm.relocate {r : RawInstruction} (h : r.HasForm) (a : UInt32) :
    (r.relocate a).HasForm := by
  rw [HasForm, kinds_relocate]
  exact h

/-- **Operands are those of the instruction set reference** for the mnemonic: their number is, and
so are their kinds. -/
def Disassembler.KeepsForms (d : Disassembler) : Prop :=
  ∀ wide bs ip r n, d wide bs ip = .ok (r, n) → r.HasForm

/-! ## What is taken over -/

/-- The classes of the operands that one of this kind stands for, if it is taken over. -/
def OperandKind.classes? : OperandKind → Option (List OperandClass)
  | general => some [.general]
  | segment s => some [.special (.segment s)]
  | control n => if [0, 2, 3, 4].contains n then some [.special (.control n)] else none
  | debug n => if [0, 1, 2, 3, 6, 7].contains n then some [.special (.debug n)] else none
  | memory | pointer => some [.memory]
  | immediate | near => some [.immediate]
  | far => some [.immediate, .immediate]
  | element | other => none

/-- The classes of all operands. -/
def OperandKind.classesAll? : List OperandKind → Option (List OperandClass)
  | [] => some []
  | k :: ks => do
    let a ← k.classes?
    let b ← classesAll? ks
    return a ++ b

theorem RegisterName.class_of_ref? {r : RegisterName} {q : RegisterRef} (h : r.ref? = some q) :
    r.kind.classes? = some [q.class] := by
  cases r with
  | absent | other => cases h
  | cr n | dr n =>
    rw [ref?] at h
    rw [kind, OperandKind.classes?]
    split_ifs at h ⊢
    cases h
    rfl
  | _ => cases h; rfl

namespace RawOperand

variable {segment : Option SegmentName} {w : Width}

/-- Kinds decide the classes of operands. -/
theorem class_of_convert? {x : RawOperand} {ys : List Operand}
    (h : x.convert? segment w = some ys) : x.kind.classes? = some (ys.map Operand.class) := by
  cases x with
  | register r =>
    obtain ⟨q, hq, hys⟩ := Option.bind_eq_some_iff.1 h
    cases hys
    exact r.class_of_ref? hq
  | memory p =>
    obtain ⟨m, -, hys⟩ := Option.bind_eq_some_iff.1 h
    cases hys
    rw [kind]
    split_ifs <;> rfl
  | source a | destination a | other => cases h
  | _ => cases h; rfl

theorem class_of_convertAll? {xs : List RawOperand} {ys : List Operand}
    (h : convertAll? segment w xs = some ys) :
    OperandKind.classesAll? (xs.map kind) = some (ys.map Operand.class) := by
  induction xs generalizing ys with
  | nil => cases h; rfl
  | cons x xs ih =>
    obtain ⟨a, ha, h⟩ := Option.bind_eq_some_iff.1 h
    obtain ⟨b, hb, hys⟩ := Option.bind_eq_some_iff.1 h
    cases hys
    rw [List.map_cons, OperandKind.classesAll?, class_of_convert? ha, ih hb, List.map_append]
    rfl

end RawOperand

/-! ## What operation it is -/

/-- The operation of a mnemonic with operands of these kinds. -/
def Mnemonic.operationOn? (m : Mnemonic) (ks : List OperandKind) : Option Operation :=
  m.operation? (ks.head?.any fun k => k == .far || k == .pointer) (ks.any (· == .element))

theorem RawOperand.isFarPointer_eq (x : RawOperand) :
    x.isFarPointer = (x.kind == .far || x.kind == .pointer) := by
  cases x with
  | register r => cases r <;> rfl
  | memory p =>
    rw [isFarPointer, kind, Bool.eq_iff_iff]
    split_ifs with h <;> simp [h]
  | _ => rfl

theorem RawOperand.isElement_eq (x : RawOperand) : x.isElement = (x.kind == .element) := by
  cases x with
  | register r => cases r <;> rfl
  | memory p =>
    rw [kind]
    split_ifs <;> rfl
  | _ => rfl

/-- Kinds decide the operation. -/
theorem RawInstruction.operation?_eq (r : RawInstruction) :
    r.operation? = r.mnemonic.operationOn? r.kinds := by
  have hfar : r.isFarPointer = r.kinds.head?.any fun k => k == .far || k == .pointer := by
    rw [isFarPointer, kinds, List.head?_map, Option.any_map]
    exact congrArg (Option.any · r.operands.head?) (funext RawOperand.isFarPointer_eq)
  have hstring : r.isStringForm = r.kinds.any (· == .element) := by
    rw [isStringForm, kinds, List.any_map]
    exact congrArg (List.any r.operands) (funext RawOperand.isElement_eq)
  rw [operation?, Mnemonic.operationOn?, hfar, hstring]

/-! ## Forms and signatures -/

/-- The instruction is a move into CS. -/
def Instruction.MovesToCode (i : Instruction) : Prop :=
  i.operation = .transfer .mov ∧
    ∃ r : RegisterRef, i.operands[0]? = some (.register r) ∧ r.segmentName? = some .cs

/-- The instruction is given to the unit of its operation, with operands that the operation has,
unless it is a move into CS. -/
structure Instruction.Fit (i : Instruction) : Prop where
  unit : i.unit = i.operation.unit
  accepts : i.operation.accepts (i.operands.map Operand.class) = true ∨ i.MovesToCode

/-- The operands of an operation are implied. -/
def Operation.isImplied : Operation → Bool
  | .string _ | .transfer .xlat => true
  | _ => false

/-- The operands are those of a move into CS. -/
def RawInstruction.MovesToCode (r : RawInstruction) : Prop :=
  r.mnemonic = .mov ∧ r.kinds.head? = some (.segment .cs)

/-- The operation that a mnemonic stands for with operands of these kinds accepts them, if they are
taken over at all, or it is a move into CS. -/
def Mnemonic.fits (m : Mnemonic) (ks : List OperandKind) : Bool :=
  match m.operationOn? ks with
  | none => true
  | some o => o.isImplied || (OperandKind.classesAll? ks).all (o.accepts ·) ||
    (m == .mov && ks.head? == some (.segment .cs))

/-- **The forms of each mnemonic fit its operation.** -/
theorem Mnemonic.fits_of_mem_shapes {m : Mnemonic} {ks : List OperandKind} (h : ks ∈ m.shapes) :
    m.fits ks = true := by
  revert ks
  cases m <;> decide

theorem Mnemonic.accepts_of_mem_shapes {m : Mnemonic} {ks : List OperandKind} {o : Operation}
    {cs : List OperandClass} (h : ks ∈ m.shapes) (ho : m.operationOn? ks = some o)
    (himplied : o.isImplied = false) (hcs : OperandKind.classesAll? ks = some cs) :
    o.accepts cs = true ∨ m = .mov ∧ ks.head? = some (.segment .cs) := by
  have hfits := fits_of_mem_shapes h
  rw [fits, ho] at hfits
  simpa [himplied, hcs] using hfits

/-! ## Instructions -/

/-- What an instruction `i` of `n` bytes is made of, behind legacy bytes that ask for `p`. -/
structure RawInstruction.Becomes (r : RawInstruction) (wide : Bool) (p : PrefixSet) (n : Nat)
    (i : Instruction) : Prop where
  operation : r.operation? = some i.operation
  unit : i.unit = i.operation.unit
  operands : r.operands? i.operation p.segment i.operandWidth = some (i.operands, i.dataWidth)
  prefixes : i.prefixes = p
  operandWidth : i.operandWidth = (Sizes.ofPrefixes wide p).operand
  length : i.length = UInt8.ofNat n

theorem RawInstruction.becomes_of_convert? {r : RawInstruction} {wide : Bool} {p : PrefixSet}
    {n : Nat} {i : Instruction} (h : r.convert? wide p n = some i) : r.Becomes wide p n i := by
  obtain ⟨o, ho, h⟩ := Option.bind_eq_some_iff.1 h
  obtain ⟨⟨xs, w⟩, hxs, h⟩ := Option.bind_eq_some_iff.1 h
  cases h
  exact ⟨ho, rfl, hxs, rfl, rfl, rfl⟩

/-- Operands that are not implied are taken over, the first three of them. -/
theorem RawInstruction.operands?_eq_map {o : Operation} (h : o.isImplied = false)
    (r : RawInstruction) (segment : Option SegmentName) (w : Width) :
    r.operands? o segment w = (RawOperand.convertAll? segment w r.operands).map fun xs =>
      (xs.take 3, (xs.head?.map Operand.width).getD w) := by
  have hmap : (do
      let xs ← RawOperand.convertAll? segment w r.operands
      return (xs.take 3, (xs.head?.map Operand.width).getD w)) =
      (RawOperand.convertAll? segment w r.operands).map fun xs =>
        (xs.take 3, (xs.head?.map Operand.width).getD w) := by
    cases RawOperand.convertAll? segment w r.operands <;> rfl
  cases o with
  | string o => cases h
  | transfer o =>
    cases o with
    | xlat => cases h
    | _ => exact hmap
  | _ => exact hmap

/-- There are no operands but the implied ones and those that are taken over. -/
theorem RawInstruction.operands_of_operands? {r : RawInstruction} {o : Operation}
    {segment : Option SegmentName} {v w : Width} {xs : List Operand}
    (h : r.operands? o segment v = some (xs, w)) :
    (o.isImplied = true ∧ xs = []) ∨
      o.isImplied = false ∧ ∃ ys, RawOperand.convertAll? segment v r.operands = some ys ∧
        xs = ys.take 3 := by
  cases himplied : o.isImplied with
  | true =>
    refine .inl ⟨rfl, ?_⟩
    cases o with
    | string o => cases h; rfl
    | transfer o => cases o <;> first | (cases h; rfl) | cases himplied
    | _ => cases himplied
  | false =>
    rw [operands?_eq_map himplied, Option.map_eq_some_iff] at h
    obtain ⟨ys, hys, h⟩ := h
    cases h
    exact .inr ⟨rfl, ys, hys, rfl⟩

theorem RawInstruction.length_operands? {r : RawInstruction} {o : Operation}
    {segment : Option SegmentName} {v w : Width} {xs : List Operand}
    (h : r.operands? o segment v = some (xs, w)) : xs.length ≤ 3 := by
  obtain ⟨-, rfl⟩ | ⟨-, ys, -, rfl⟩ := operands_of_operands? h
  · exact Nat.zero_le 3
  · exact List.length_take_le 3 ys

theorem RawOperand.eq_of_kind_code {x : RawOperand} (h : x.kind = .segment .cs) :
    x = .register .cs := by
  cases x with
  | register r => cases r <;> first | rfl | cases h
  | memory p =>
    rw [RawOperand.kind] at h
    split_ifs at h
  | _ => cases h

theorem Operation.accepts_nil_of_isImplied {o : Operation} (h : o.isImplied = true) :
    o.accepts [] = true := by
  cases o with
  | string o => rfl
  | transfer o => cases o <;> first | rfl | cases h
  | _ => cases h

namespace Instruction

variable {r : RawInstruction} {wide : Bool} {p : PrefixSet} {n : Nat} {i : Instruction}

/-- A move into CS stays one. -/
theorem movesToCode_of_convert? (hr : r.MovesToCode) (h : r.convert? wide p n = some i) :
    i.MovesToCode := by
  have hbecomes := RawInstruction.becomes_of_convert? h
  obtain ⟨hmov, hcode⟩ := hr
  have ho : i.operation = .transfer .mov := by
    have ho := hbecomes.operation
    rw [RawInstruction.operation?, hmov] at ho
    exact (Option.some.inj ho).symm
  rw [RawInstruction.kinds, List.head?_map, Option.map_eq_some_iff] at hcode
  obtain ⟨x, hx, hkind⟩ := hcode
  cases RawOperand.eq_of_kind_code hkind
  obtain ⟨himplied, -⟩ | ⟨-, ys, hys, htake⟩ :=
    RawInstruction.operands_of_operands? hbecomes.operands
  · rw [ho] at himplied
    cases himplied
  · obtain ⟨xs, hxs⟩ := List.head?_eq_some_iff.1 hx
    rw [hxs] at hys
    obtain ⟨b, hb, hys⟩ := Option.bind_eq_some_iff.1 hys
    cases hys
    exact ⟨ho, .segment .cs, by rw [htake]; rfl, rfl⟩

/-- Operands of a form of the mnemonic fit the operation, except those of a move into CS. -/
theorem accepts_of_convert? (hform : r.HasForm) (h : r.convert? wide p n = some i) :
    i.operation.accepts (i.operands.map Operand.class) = true ∨ r.MovesToCode := by
  have hbecomes := RawInstruction.becomes_of_convert? h
  obtain ⟨himplied, hnil⟩ | ⟨himplied, ys, hys, htake⟩ :=
    RawInstruction.operands_of_operands? hbecomes.operands
  · rw [hnil]
    exact .inl (Operation.accepts_nil_of_isImplied himplied)
  · have ho := hbecomes.operation
    have hshape : r.kinds ∈ r.mnemonic.shapes := by
      refine hform.resolve_left fun hother => ?_
      rw [RawInstruction.operation?, hother] at ho
      cases ho
    rw [RawInstruction.operation?_eq] at ho
    have hclasses := RawOperand.class_of_convertAll? hys
    refine (Mnemonic.accepts_of_mem_shapes hshape ho himplied hclasses).imp_left fun haccepts => ?_
    -- what is accepted has three operands at most
    have hthree := Operation.length_of_accepts haccepts
    rw [List.length_map] at hthree
    rwa [htake, List.take_of_length_le hthree]

variable {d : Disassembler} {bs : List UInt8} {ip : UInt32}

/-- What comes out of decoding has been found by the disassembler, in the bytes that it sees. -/
theorem decodeBy_eq_ok : decodeBy d bs wide ip = .ok i ↔ ∃ p rest r n,
    PrefixSet.scan bs = .ok (p, rest) ∧ d wide (bs.take maxInstructionLength) ip = .ok (r, n) ∧
      n ≤ maxInstructionLength ∧ r.convert? wide p n = some i := by
  rw [decodeBy]
  constructor
  · intro h
    cases hscan : PrefixSet.scan bs with
    | error e => rw [hscan] at h; cases h
    | ok q =>
      rw [hscan] at h
      dsimp only [bind, Except.bind] at h
      split at h
      · cases h
      · cases h
      · rename_i r n hd
        split_ifs at h with hlong
        dsimp only [pure, Except.pure] at h
        split at h
        · rename_i j hj
          cases h
          exact ⟨q.1, q.2, r, n, rfl, hd, Nat.not_lt.1 hlong, hj⟩
        · cases h
  · rintro ⟨p, rest, r, n, hscan, hd, hn, hi⟩
    rw [hscan]
    dsimp only [bind, Except.bind]
    rw [hd]
    dsimp only
    rw [if_neg (Nat.not_lt.2 hn)]
    dsimp only [pure, Except.pure]
    rw [hi]

/-- **What a disassembler gives that keeps to the forms** fits the operation that it becomes. -/
theorem fit_of_decodeBy (hd : d.KeepsForms) (h : decodeBy d bs wide ip = .ok i) : i.Fit := by
  obtain ⟨p, rest, r, n, -, hr, -, hi⟩ := decodeBy_eq_ok.1 h
  have hform := hd _ _ _ _ _ hr
  exact ⟨(RawInstruction.becomes_of_convert? hi).unit,
    (accepts_of_convert? hform hi).imp_right (movesToCode_of_convert? · hi)⟩

end Instruction

end Ia32
