/-
  Which flags the arithmetic unit reads and which it defines.

  Each operation of the unit looks at some of the flags and writes some, and both are known from the
  operation and its operands.  Two runs that agree on what is read agree on what comes out and on
  what is defined; whatever is not defined is kept, be it the same in both or not.

  Main definitions:
  - `Flags.AgreeOn` : two sets of flags agree on some of them
  - `Flags.Within` : no flags but some have been written
  - `Flags.blend` : some flags of one set, the others of another
  - `Disciplined` : a function reads some flags, defines some, and keeps the others
  - `Alu.Call` : an operation of the unit with its operands
  - `Alu.Call.reads`, `Alu.Call.defines` : its flags

  Main statements:
  - `Disciplined.of_blend` : it is enough to run a function on the flags that it reads
  - `Alu.Call.disciplined` : every operation is disciplined
  - `Alu.Call.run_of_agreeOn` : two runs of an operation
-/
import Ia32.Alu.Decimal
import Ia32.Alu.Product
import Ia32.Alu.Shift
import Ia32.Alu.Sum
import Mathlib.Tactic.Common

namespace Ia32

/-- The flags that arithmetic defines. -/
inductive StatusFlag
  | carry | parity | adjust | zero | sign | overflow
  deriving DecidableEq, Repr

namespace Flags

def get (f : Flags) : StatusFlag → Bool
  | .carry => f.carry
  | .parity => f.parity
  | .adjust => f.adjust
  | .zero => f.zero
  | .sign => f.sign
  | .overflow => f.overflow

/-- The flags that arithmetic does not define, the others cleared. -/
def control (f : Flags) : Flags :=
  { f with
    carry := false, parity := false, adjust := false, zero := false, sign := false,
    overflow := false }

/-- The flags `xs` are the same in `f` and in `g`. -/
def AgreeOn (xs : List StatusFlag) (f g : Flags) : Prop := ∀ x ∈ xs, f.get x = g.get x

instance (xs : List StatusFlag) (f g : Flags) : Decidable (AgreeOn xs f g) :=
  inferInstanceAs (Decidable (∀ x ∈ xs, f.get x = g.get x))

/-- No flags but those among `xs` have been written to make `g` of `f`. -/
structure Within (xs : List StatusFlag) (f g : Flags) : Prop where
  kept : ∀ x, x ∉ xs → g.get x = f.get x
  control : g.control = f.control

/-- The flags `xs` of `g`, and of `f` all others. -/
def blend (f : Flags) (xs : List StatusFlag) (g : Flags) : Flags :=
  { f with
    carry := if .carry ∈ xs then g.carry else f.carry
    parity := if .parity ∈ xs then g.parity else f.parity
    adjust := if .adjust ∈ xs then g.adjust else f.adjust
    zero := if .zero ∈ xs then g.zero else f.zero
    sign := if .sign ∈ xs then g.sign else f.sign
    overflow := if .overflow ∈ xs then g.overflow else f.overflow }

variable {xs : List StatusFlag} {f g h : Flags}

theorem get_blend (f : Flags) (xs : List StatusFlag) (g : Flags) (x : StatusFlag) :
    (f.blend xs g).get x = if x ∈ xs then g.get x else f.get x := by
  cases x <;> rfl

theorem control_blend (f : Flags) (xs : List StatusFlag) (g : Flags) :
    (f.blend xs g).control = f.control := rfl

theorem within_blend (f : Flags) (xs : List StatusFlag) (g : Flags) :
    f.Within xs (f.blend xs g) where
  kept x hx := by rw [get_blend, if_neg hx]
  control := control_blend f xs g

/-- Sets of flags are equal if their flags are. -/
theorem ext_get (hget : ∀ x, f.get x = g.get x) (hcontrol : f.control = g.control) : f = g := by
  have hcarry := hget .carry
  have hparity := hget .parity
  have hadjust := hget .adjust
  have hzero := hget .zero
  have hsign := hget .sign
  have hoverflow := hget .overflow
  cases f
  cases g
  simp_all [get, control]

theorem blend_congr (f : Flags) (hgh : g.AgreeOn xs h) : f.blend xs g = f.blend xs h := by
  refine ext_get (fun x => ?_) rfl
  rw [get_blend, get_blend]
  split_ifs with hx
  · exact hgh x hx
  · rfl

end Flags

/-- A function of the flags looks at the flags `reads`, defines the flags `defines`, and keeps all
others. -/
structure Disciplined {α : Type} (reads defines : List StatusFlag) (run : Flags → α × Flags) :
    Prop where
  result : ∀ f g, f.AgreeOn reads g → (run f).1 = (run g).1
  defined : ∀ f g, f.AgreeOn reads g → (run f).2.AgreeOn defines (run g).2
  within : ∀ f : Flags, f.Within defines (run f).2

namespace Disciplined

variable {α β : Type} {reads defines : List StatusFlag} {run : Flags → α × Flags}

/-- A function is disciplined if it can do with the flags that it reads, all others cleared, and if
the flags that it defines are all that is taken from there. -/
theorem of_blend (h : ∀ f, run f = ((run (({} : Flags).blend reads f)).1,
    f.blend defines (run (({} : Flags).blend reads f)).2)) : Disciplined reads defines run where
  result f g hfg := by rw [h f, h g, Flags.blend_congr _ hfg]
  defined f g hfg x hx := by
    rw [h f, h g, Flags.blend_congr _ hfg, Flags.get_blend, Flags.get_blend, if_pos hx, if_pos hx]
  within f := by
    rw [h f]
    exact f.within_blend _ _

/-- What is made of the result does not matter. -/
theorem map (h : Disciplined reads defines run) (φ : α → β) :
    Disciplined reads defines fun f => (φ (run f).1, (run f).2) where
  result f g hfg := congrArg φ (h.result f g hfg)
  defined := h.defined
  within := h.within

end Disciplined

namespace Alu

/-- The flags of a result. -/
def resultFlags : List StatusFlag := [.sign, .zero, .parity]

/-- The flags of a sum; increments and decrements keep the carry. -/
def sumFlags : List StatusFlag := [.carry, .parity, .adjust, .zero, .sign, .overflow]

/-- The flags of a shift or a rotate by `n` places, if `xs` are those of one by a number of
places. -/
def countedFlags (n : UInt32) (xs : List StatusFlag) : List StatusFlag :=
  if n &&& 0x1F = 0 then [] else if n &&& 0x1F = 1 then .overflow :: xs else xs

/-- The flag that a rotate through the carry takes in. -/
def Rotate.reads : Rotate → List StatusFlag
  | carryLeft | carryRight => [.carry]
  | left | right => []

/-! ## The functions -/

theorem disciplined_shift (k : Shift) (w : Width) (a n : UInt32) :
    Disciplined [] (countedFlags n (.carry :: resultFlags)) fun f => shift f k w a n := by
  refine .of_blend fun f => ?_
  by_cases hzero : n &&& 0x1F = 0
  · simp only [shift, countedFlags, hzero, if_true]
    rfl
  · by_cases hone : n &&& 0x1F = 1
    · simp only [shift, countedFlags, hone]
      rfl
    · simp only [shift, countedFlags, hzero, hone, beq_iff_eq, if_false]
      rfl

/-- Only rotates through the carry take it in. -/
theorem Rotate.apply_congr (k : Rotate) (w : Width) (n : Nat) (x : UInt32) {f g : Flags}
    (h : f.AgreeOn k.reads g) : k.apply w n x f.carry = k.apply w n x g.carry := by
  cases k with
  | left | right => rfl
  | carryLeft | carryRight =>
    have hcarry : f.carry = g.carry := h .carry List.mem_cons_self
    rw [hcarry]

theorem disciplined_rotate (k : Rotate) (w : Width) (a n : UInt32) :
    Disciplined k.reads (countedFlags n [.carry]) fun f => rotate f k w a n := by
  refine .of_blend fun f => ?_
  have hcarry := k.apply_congr w (n &&& 0x1F).toNat (w.truncate a) (f := f)
    (g := ({} : Flags).blend k.reads f) fun x hx => by rw [Flags.get_blend, if_pos hx]
  by_cases hzero : n &&& 0x1F = 0
  · simp only [rotate, countedFlags, hzero, if_true]
    rfl
  · by_cases hone : n &&& 0x1F = 1
    · simp only [rotate, countedFlags, hone] at hcarry ⊢
      rw [hcarry]
      rfl
    · simp only [rotate, countedFlags, hzero, hone, beq_iff_eq, if_false]
      rw [hcarry]
      rfl

/-! ## Calls -/

/-- An operation of the arithmetic unit with its operands.  The carry of a sum is either given or
taken from the flags. -/
inductive Call
  | result (w : Width) (r : UInt32)
  | add (w : Width) (a b : UInt32) (c : Bool)
  | sub (w : Width) (a b : UInt32) (c : Bool)
  | addCarry (w : Width) (a b : UInt32)
  | subCarry (w : Width) (a b : UInt32)
  | logic (w : Width) (x : UInt32)
  | inc (w : Width) (a : UInt32)
  | dec (w : Width) (a : UInt32)
  | neg (w : Width) (a : UInt32)
  | shift (k : Shift) (w : Width) (a n : UInt32)
  | rotate (k : Rotate) (w : Width) (a n : UInt32)
  | mul (w : Width) (a b : UInt32)
  | imul (w : Width) (a b : UInt32)
  | div (w : Width) (n : UInt64) (d : UInt32)
  | idiv (w : Width) (n : UInt64) (d : UInt32)
  | daa (al : UInt8)
  | das (al : UInt8)
  | aaa (ax : UInt16)
  | aas (ax : UInt16)
  | aam (al base : UInt8)
  | aad (ax : UInt16) (base : UInt8)
  deriving DecidableEq, Repr

namespace Call

/-- The results, and the flags afterwards; a fault leaves them. -/
def run : Call → Flags → Except Fault (List UInt32) × Flags
  | result w r, f => (.ok [], f.ofResult w r)
  | add w a b c, f => let (r, f) := Alu.add f w a b c; (.ok [r], f)
  | sub w a b c, f => let (r, f) := Alu.sub f w a b c; (.ok [r], f)
  | addCarry w a b, f => let (r, f) := Alu.add f w a b f.carry; (.ok [r], f)
  | subCarry w a b, f => let (r, f) := Alu.sub f w a b f.carry; (.ok [r], f)
  | logic w x, f => let (r, f) := Alu.logic f w x; (.ok [r], f)
  | inc w a, f => let (r, f) := Alu.inc f w a; (.ok [r], f)
  | dec w a, f => let (r, f) := Alu.dec f w a; (.ok [r], f)
  | neg w a, f => let (r, f) := Alu.neg f w a; (.ok [r], f)
  | shift k w a n, f => let (r, f) := Alu.shift f k w a n; (.ok [r], f)
  | rotate k w a n, f => let (r, f) := Alu.rotate f k w a n; (.ok [r], f)
  | mul w a b, f => let ((lo, hi), f) := Alu.mul f w a b; (.ok [lo, hi], f)
  | imul w a b, f => let ((lo, hi), f) := Alu.imul f w a b; (.ok [lo, hi], f)
  | div w n d, f => ((Alu.div w n d).map fun (q, r) => [q, r], f)
  | idiv w n d, f => ((Alu.idiv w n d).map fun (q, r) => [q, r], f)
  | daa al, f => let (r, f) := Alu.daa f al; (.ok [r.toUInt32], f)
  | das al, f => let (r, f) := Alu.das f al; (.ok [r.toUInt32], f)
  | aaa ax, f => let (r, f) := Alu.aaa f ax; (.ok [r.toUInt32], f)
  | aas ax, f => let (r, f) := Alu.aas f ax; (.ok [r.toUInt32], f)
  | aam al base, f =>
    match Alu.aam f al base with
    | .ok (r, f) => (.ok [r.toUInt32], f)
    | .error e => (.error e, f)
  | aad ax base, f => let (r, f) := Alu.aad f ax base; (.ok [r.toUInt32], f)

/-- The flags that are looked at. -/
def reads : Call → List StatusFlag
  | addCarry _ _ _ | subCarry _ _ _ => [.carry]
  | rotate k _ _ _ => k.reads
  | daa _ | das _ => [.adjust, .carry]
  | aaa _ | aas _ => [.adjust]
  | _ => []

/-- The flags that are defined. -/
def defines : Call → List StatusFlag
  | add _ _ _ _ | sub _ _ _ _ | addCarry _ _ _ | subCarry _ _ _ | neg _ _ => sumFlags
  | inc _ _ | dec _ _ => sumFlags.erase .carry
  | logic _ _ => .carry :: .overflow :: resultFlags
  | shift _ _ _ n => countedFlags n (.carry :: resultFlags)
  | rotate _ _ _ n => countedFlags n [.carry]
  | mul _ _ _ | imul _ _ _ => [.carry, .overflow]
  | div _ _ _ | idiv _ _ _ => []
  | daa _ | das _ => .adjust :: .carry :: resultFlags
  | aaa _ | aas _ => [.adjust, .carry]
  | aam _ base => if base = 0 then [] else resultFlags
  | result _ _ | aad _ _ => resultFlags

theorem disciplined (k : Call) : Disciplined k.reads k.defines k.run := by
  cases k with
  | shift k w a n => exact (disciplined_shift k w a n).map fun r => Except.ok [r]
  | rotate k w a n => exact (disciplined_rotate k w a n).map fun r => Except.ok [r]
  | aam al base =>
    refine .of_blend fun f => ?_
    by_cases h : base = 0
    · simp only [run, defines, Alu.aam, h]
      rfl
    · simp only [run, defines, Alu.aam, h, beq_iff_eq, if_false]
      rfl
  -- What the others define does not depend on their operands.
  | _ => exact .of_blend fun _ => rfl

/-- **The flags of the arithmetic unit.**  Whatever the operation and its operands are, two runs
that agree on the flags that it reads give the same results and agree on the flags that it defines;
and each of them keeps its own flags otherwise. -/
theorem run_of_agreeOn (k : Call) {f g : Flags} (h : f.AgreeOn k.reads g) :
    (k.run f).1 = (k.run g).1 ∧ (k.run f).2.AgreeOn k.defines (k.run g).2 ∧
      f.Within k.defines (k.run f).2 ∧ g.Within k.defines (k.run g).2 :=
  ⟨k.disciplined.result f g h, k.disciplined.defined f g h, k.disciplined.within f,
    k.disciplined.within g⟩

/-- A rotate through the carry by two places.  The carry is the same before and after it; the zero,
the overflow and the direction flag differ before it, and so they do after it. -/
theorem run_of_agreeOn_rotate :
    let k : Call := .rotate .carryLeft .byte 0x60 2
    let f : Flags := { carry := true, zero := true, overflow := true }
    let g : Flags := { carry := true, direction := true }
    f.AgreeOn k.reads g ∧ (k.run f).1 = .ok [0x82] ∧ (k.run g).1 = .ok [0x82] ∧
      (k.run f).2.carry = (k.run g).2.carry ∧
      (k.run f).2.overflow = true ∧ (k.run g).2.overflow = false ∧
      (k.run g).2.direction = true := by
  have hagree : ({ carry := true, zero := true, overflow := true } : Flags).AgreeOn
      (rotate .carryLeft .byte 0x60 2).reads { carry := true, direction := true } := by
    decide
  obtain ⟨hresult, hdefined, hleft, hright⟩ := run_of_agreeOn _ hagree
  refine ⟨hagree, by decide, hresult ▸ by decide, hdefined .carry (by decide),
    hleft.kept .overflow (by decide), hright.kept .overflow (by decide), ?_⟩
  exact congrArg Flags.direction hright.control

end Call

end Alu

end Ia32
