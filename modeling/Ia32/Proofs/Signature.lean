/-
  What operands an operation comes with.

  Main definitions:
  - `OperandClass`, `Operand.class` : an operand, up to its contents
  - `Operation.signatures` : the lists of operands that an operation can have
  - `Instruction.WellFormed` : an instruction whose operands fit its operation, and which is given
    to the unit that performs it

  Main statements:
  - `fits_cons`, `fits_nil` : operands that fit a signature, one by one
  - `Operation.operand_of_accepts`, `Operation.operands_of_accepts` : operations with one signature
  - `ArithmeticOp.operands_of_imul`, `TransferOp.operands_of_mov`, `TransferOp.operand_of_pop`,
    `TransferOp.operands_of_loadFar` : operations with several
-/
import Ia32.Instruction
import Mathlib.Tactic.Common

namespace Ia32

/-- An operand up to its contents.  A `special` register is one of another file than the general
one. -/
inductive OperandClass
  | general | memory | immediate
  | special (r : RegisterRef)
  deriving DecidableEq, Repr

def RegisterRef.class (r : RegisterRef) : OperandClass :=
  if r.file = .general then .general else .special r

def Operand.class : Operand → OperandClass
  | register r => r.class
  | memory _ _ => .memory
  | immediate _ _ => .immediate

/-! ## Signatures -/

/-- What an operation asks of one of its operands. -/
abbrev OperandTest := OperandClass → Bool

namespace OperandTest

def any : OperandTest := fun _ => true

def general : OperandTest := (· == .general)

def memory : OperandTest := (· == .memory)

def immediate : OperandTest := (· == .immediate)

/-- A general register or memory. -/
def place : OperandTest := fun c => c == .general || c == .memory

/-- A segment register that can be loaded. -/
def segment : OperandTest
  | .special r => r.segmentName?.any (· != .cs)
  | _ => false

/-- A control register that exists. -/
def control : OperandTest
  | .special r => r.file == .control && r.index != 1 && r.index < 5
  | _ => false

/-- A debug register that exists. -/
def debug : OperandTest
  | .special r => r.file == .debug && r.index < 8
  | _ => false

end OperandTest

open OperandTest

def ArithmeticOp.signatures : ArithmeticOp → List (List OperandTest)
  | add | adc | sub | sbb => [[place, any]]
  | cmp => [[any, any]]
  | inc | dec | neg => [[place]]
  | mul | div | idiv => [[any]]
  | imul => [[any], [general, any], [general, any, any]]
  | cbw | cwd => [[]]

def DecimalOp.signatures : DecimalOp → List (List OperandTest)
  | daa | das | aaa | aas => [[]]
  | aam | aad => [[any]]

def LogicOp.signatures : LogicOp → List (List OperandTest)
  | and | or | xor => [[place, any]]
  | test => [[any, any]]
  | not => [[place]]

def BitByteOp.signatures : BitByteOp → List (List OperandTest)
  | setcc _ => [[place]]
  | bitTest _ => [[place, any]]
  | scanForward | scanReverse => [[general, any]]

def TransferOp.signatures : TransferOp → List (List OperandTest)
  | mov => [[place, any], [segment, any], [control, any], [debug, any]]
  | movzx | movsx => [[general, any]]
  | xchg => [[place, place]]
  | lea => [[general, memory]]
  | push => [[any]]
  | pop => [[place], [segment]]
  | pusha | popa | pushf | popf | lahf | sahf | xlat => [[]]
  | loadFar .cs => []
  | loadFar _ => [[general, memory]]

def BranchOp.signatures : BranchOp → List (List OperandTest)
  | jmp | call | jcc _ | jcxz | loop _ | int => [[any]]
  | jmpFar | callFar => [[immediate, immediate], [memory]]
  | ret | retFar => [[], [immediate]]
  | int3 | into | iret | leave => [[]]
  | enter => [[any, any]]

def PortOp.signatures : PortOp → List (List OperandTest)
  | input => [[general, any]]
  | output => [[any, any]]

def SystemOp.signatures : SystemOp → List (List OperandTest)
  | hlt => [[]]
  | nop => [[], [any]]
  | lgdt | lidt | sgdt | sidt => [[memory]]
  | lmsw => [[any]]
  | smsw => [[place]]

def Operation.signatures : Operation → List (List OperandTest)
  | branch o => o.signatures
  | arithmetic o => o.signatures
  | decimal o => o.signatures
  | logic o => o.signatures
  | shiftRotate _ => [[place, any]]
  | bitByte o => o.signatures
  | transfer o => o.signatures
  | string _ => [[]]
  | port o => o.signatures
  | flag _ => [[]]
  | system o => o.signatures

/-- The classes pass the tests, one by one. -/
def fits : List OperandTest → List OperandClass → Bool
  | [], [] => true
  | t :: ts, c :: cs => t c && fits ts cs
  | _, _ => false

/-- The operation can have operands of these classes. -/
def Operation.accepts (o : Operation) (cs : List OperandClass) : Bool :=
  o.signatures.any (fits · cs)

structure Instruction.WellFormed (i : Instruction) : Prop where
  unit : i.unit = i.operation.unit
  accepts : i.operation.accepts (i.operands.map Operand.class) = true

/-! ## Operands that fit -/

theorem fits_nil {xs : List Operand} : fits [] (xs.map Operand.class) = true ↔ xs = [] := by
  cases xs <;> simp [fits]

theorem fits_cons {t : OperandTest} {ts : List OperandTest} {xs : List Operand} :
    fits (t :: ts) (xs.map Operand.class) = true ↔
      ∃ x ys, xs = x :: ys ∧ t x.class = true ∧ fits ts (ys.map Operand.class) = true := by
  cases xs <;> simp [fits]

theorem fits_one {t : OperandTest} {xs : List Operand} :
    fits [t] (xs.map Operand.class) = true ↔ ∃ x, xs = [x] ∧ t x.class = true := by
  simp [fits_cons, fits_nil]

theorem fits_two {t u : OperandTest} {xs : List Operand} :
    fits [t, u] (xs.map Operand.class) = true ↔
      ∃ x y, xs = [x, y] ∧ t x.class = true ∧ u y.class = true := by
  rw [fits_cons]
  constructor
  · rintro ⟨x, ys, rfl, hx, hys⟩
    obtain ⟨y, rfl, hy⟩ := fits_one.1 hys
    exact ⟨x, y, rfl, hx, hy⟩
  · rintro ⟨x, y, rfl, hx, hy⟩
    exact ⟨x, [y], rfl, hx, fits_one.2 ⟨y, rfl, hy⟩⟩

theorem fits_three {t u v : OperandTest} {xs : List Operand} :
    fits [t, u, v] (xs.map Operand.class) = true ↔
      ∃ x y z, xs = [x, y, z] ∧ t x.class = true ∧ u y.class = true ∧ v z.class = true := by
  rw [fits_cons]
  constructor
  · rintro ⟨x, ys, rfl, hx, hys⟩
    obtain ⟨y, z, rfl, hy, hz⟩ := fits_two.1 hys
    exact ⟨x, y, z, rfl, hx, hy, hz⟩
  · rintro ⟨x, y, z, rfl, hx, hy, hz⟩
    exact ⟨x, [y, z], rfl, hx, fits_two.2 ⟨y, z, rfl, hy, hz⟩⟩

theorem Operation.accepts_iff {o : Operation} {cs : List OperandClass} :
    o.accepts cs = true ↔ ∃ ts ∈ o.signatures, fits ts cs = true :=
  List.any_eq_true

/-- The operand of an operation with one signature. -/
theorem Operation.operand_of_accepts {o : Operation} {t : OperandTest} {xs : List Operand}
    (h : o.accepts (xs.map Operand.class) = true) (hsig : o.signatures = [[t]]) :
    ∃ x, xs = [x] ∧ t x.class = true := by
  obtain ⟨ts, hts, hfits⟩ := accepts_iff.1 h
  rw [hsig, List.mem_singleton] at hts
  subst hts
  exact fits_one.1 hfits

/-- The operands of an operation with one signature. -/
theorem Operation.operands_of_accepts {o : Operation} {t u : OperandTest} {xs : List Operand}
    (h : o.accepts (xs.map Operand.class) = true) (hsig : o.signatures = [[t, u]]) :
    ∃ x y, xs = [x, y] ∧ t x.class = true ∧ u y.class = true := by
  obtain ⟨ts, hts, hfits⟩ := accepts_iff.1 h
  rw [hsig, List.mem_singleton] at hts
  subst hts
  exact fits_two.1 hfits

theorem length_of_fits {ts : List OperandTest} {cs : List OperandClass} (h : fits ts cs = true) :
    cs.length = ts.length := by
  induction ts generalizing cs with
  | nil => cases cs <;> simp_all [fits]
  | cons t ts ih =>
    cases cs with
    | nil => simp [fits] at h
    | cons c cs =>
      rw [fits, Bool.and_eq_true] at h
      rw [List.length_cons, List.length_cons, ih h.2]

/-- No operation has more than three operands. -/
theorem Operation.length_signature_le {o : Operation} {ts : List OperandTest}
    (h : ts ∈ o.signatures) : ts.length ≤ 3 := by
  have hall : ∀ us ∈ o.signatures, us.length ≤ 3 := by
    cases o with
    | branch o => cases o <;> simp [signatures, BranchOp.signatures]
    | arithmetic o => cases o <;> simp [signatures, ArithmeticOp.signatures]
    | decimal o => cases o <;> simp [signatures, DecimalOp.signatures]
    | logic o => cases o <;> simp [signatures, LogicOp.signatures]
    | shiftRotate o => simp [signatures]
    | bitByte o => cases o <;> simp [signatures, BitByteOp.signatures]
    | transfer o =>
      cases o with
      | loadFar n => cases n <;> simp [signatures, TransferOp.signatures]
      | _ => simp [signatures, TransferOp.signatures]
    | string o => simp [signatures]
    | port o => cases o <;> simp [signatures, PortOp.signatures]
    | flag o => simp [signatures]
    | system o => cases o <;> simp [signatures, SystemOp.signatures]
  exact hall ts h

theorem Operation.length_of_accepts {o : Operation} {cs : List OperandClass}
    (h : o.accepts cs = true) : cs.length ≤ 3 := by
  obtain ⟨ts, hts, hfits⟩ := accepts_iff.1 h
  rw [length_of_fits hfits]
  exact length_signature_le hts

theorem Operand.register_of_general {x : Operand} (h : x.class = .general) :
    ∃ r : RegisterRef, x = .register r ∧ r.file = .general := by
  cases x with
  | register r =>
    refine ⟨r, rfl, ?_⟩
    by_contra hr
    simp [Operand.class, RegisterRef.class, hr] at h
  | memory m w => simp [Operand.class] at h
  | immediate v w => simp [Operand.class] at h

theorem Operand.memory_of_class {x : Operand} (h : x.class = .memory) :
    ∃ m w, x = .memory m w := by
  cases x with
  | register r =>
    simp only [Operand.class, RegisterRef.class] at h
    split at h <;> cases h
  | memory m w => exact ⟨m, w, rfl⟩
  | immediate v w => simp [Operand.class] at h

theorem Operand.immediate_of_class {x : Operand} (h : x.class = .immediate) :
    ∃ v w, x = .immediate v w := by
  cases x with
  | register r =>
    simp only [Operand.class, RegisterRef.class] at h
    split at h <;> cases h
  | memory m w => simp [Operand.class] at h
  | immediate v w => exact ⟨v, w, rfl⟩

theorem Operand.register_of_special {x : Operand} {r : RegisterRef} (h : x.class = .special r) :
    x = .register r ∧ r.file ≠ .general := by
  cases x with
  | register q =>
    simp only [Operand.class, RegisterRef.class] at h
    split at h
    · cases h
    · cases h; exact ⟨rfl, ‹_›⟩
  | memory m w => simp [Operand.class] at h
  | immediate v w => simp [Operand.class] at h

theorem Operand.register_of_segment {x : Operand} (h : OperandTest.segment x.class = true) :
    ∃ (r : RegisterRef) (n : SegmentName), x = .register r ∧ r.segmentName? = some n ∧ n ≠ .cs := by
  cases hc : x.class with
  | special r =>
    rw [hc] at h
    obtain ⟨n, hn, hne⟩ := Option.any_eq_true _ _ |>.1 h
    exact ⟨r, n, (register_of_special hc).1, hn, by simpa using hne⟩
  | _ => rw [hc] at h; cases h

theorem Operand.register_of_control {x : Operand}
    (h : OperandTest.control x.class = true) :
    ∃ r : RegisterRef, x = .register r ∧ OperandTest.control (.special r) = true := by
  cases hc : x.class with
  | special r => rw [hc] at h; exact ⟨r, (register_of_special hc).1, h⟩
  | _ => rw [hc] at h; cases h

theorem Operand.register_of_debug {x : Operand} (h : OperandTest.debug x.class = true) :
    ∃ r : RegisterRef, x = .register r ∧ OperandTest.debug (.special r) = true := by
  cases hc : x.class with
  | special r => rw [hc] at h; exact ⟨r, (register_of_special hc).1, h⟩
  | _ => rw [hc] at h; cases h

/-! ## Operations with several signatures -/

theorem ArithmeticOp.operands_of_imul {xs : List Operand}
    (h : (Operation.arithmetic .imul).accepts (xs.map Operand.class) = true) :
    (∃ x, xs = [x]) ∨ (∃ x y, xs = [x, y] ∧ general x.class = true) ∨
      ∃ x y z, xs = [x, y, z] ∧ general x.class = true := by
  obtain ⟨ts, hts, hfits⟩ := Operation.accepts_iff.1 h
  rcases List.mem_cons.1 hts with rfl | hts
  · obtain ⟨x, rfl, -⟩ := fits_one.1 hfits
    exact .inl ⟨x, rfl⟩
  rcases List.mem_cons.1 hts with rfl | hts
  · obtain ⟨x, y, rfl, hx, -⟩ := fits_two.1 hfits
    exact .inr (.inl ⟨x, y, rfl, hx⟩)
  · cases List.mem_singleton.1 hts
    obtain ⟨x, y, z, rfl, hx, -, -⟩ := fits_three.1 hfits
    exact .inr (.inr ⟨x, y, z, rfl, hx⟩)

/-- A move writes to a place, or to a register of one of the special kinds. -/
theorem TransferOp.operands_of_mov {xs : List Operand}
    (h : (Operation.transfer .mov).accepts (xs.map Operand.class) = true) :
    ∃ x y, xs = [x, y] ∧ (place x.class = true ∨ segment x.class = true ∨
      control x.class = true ∨ debug x.class = true) := by
  obtain ⟨ts, hts, hfits⟩ := Operation.accepts_iff.1 h
  rcases List.mem_cons.1 hts with rfl | hts
  · obtain ⟨x, y, rfl, hx, -⟩ := fits_two.1 hfits
    exact ⟨x, y, rfl, .inl hx⟩
  rcases List.mem_cons.1 hts with rfl | hts
  · obtain ⟨x, y, rfl, hx, -⟩ := fits_two.1 hfits
    exact ⟨x, y, rfl, .inr (.inl hx)⟩
  rcases List.mem_cons.1 hts with rfl | hts
  · obtain ⟨x, y, rfl, hx, -⟩ := fits_two.1 hfits
    exact ⟨x, y, rfl, .inr (.inr (.inl hx))⟩
  · cases List.mem_singleton.1 hts
    obtain ⟨x, y, rfl, hx, -⟩ := fits_two.1 hfits
    exact ⟨x, y, rfl, .inr (.inr (.inr hx))⟩

theorem TransferOp.operand_of_pop {xs : List Operand}
    (h : (Operation.transfer .pop).accepts (xs.map Operand.class) = true) :
    ∃ x, xs = [x] ∧ (place x.class = true ∨ segment x.class = true) := by
  obtain ⟨ts, hts, hfits⟩ := Operation.accepts_iff.1 h
  rcases List.mem_cons.1 hts with rfl | hts
  · obtain ⟨x, rfl, hx⟩ := fits_one.1 hfits
    exact ⟨x, rfl, .inl hx⟩
  · cases List.mem_singleton.1 hts
    obtain ⟨x, rfl, hx⟩ := fits_one.1 hfits
    exact ⟨x, rfl, .inr hx⟩

/-- No far pointer is loaded into CS. -/
theorem TransferOp.operands_of_loadFar {n : SegmentName} {xs : List Operand}
    (h : (Operation.transfer (.loadFar n)).accepts (xs.map Operand.class) = true) :
    n ≠ .cs ∧ ∃ x m w, xs = [x, .memory m w] ∧ general x.class = true := by
  obtain ⟨ts, hts, hfits⟩ := Operation.accepts_iff.1 h
  have hn : n ≠ .cs ∧ ts = [general, memory] := by
    cases n <;> simp_all [Operation.signatures, TransferOp.signatures]
  obtain ⟨hn, rfl⟩ := hn
  obtain ⟨x, y, rfl, hx, hy⟩ := fits_two.1 hfits
  obtain ⟨m, w, rfl⟩ := Operand.memory_of_class (beq_iff_eq.1 hy)
  exact ⟨hn, x, m, w, rfl, hx⟩

end Ia32
