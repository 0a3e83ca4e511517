/-
  Repeated string instructions: where the elements lie, and what becomes of the registers.

  The index registers and the count wrap around the address size, and their upper parts stay.  So
  element number `k` is found through the index registers as they were in the beginning, moved past
  `k` elements, whatever the elements before it were.

  Main definitions:
  - `Instruction.Repeats`, `Cpu.repeatCount` : a repeated string instruction, and how often
  - `Cpu.sourceAddress`, `Cpu.destinationAddress` : where the elements lie
  - `StringOp.registersAfter` : the general registers after some of the elements
  - `StringOp.Walked` : registers that have come so far

  Main statements:
  - `StringOp.walked_counted` : one element
  - `StringOp.repetition_induction` : all of them, or up to the one that ends the repetition
  - `StringOp.repetition_walked`, `StringOp.cpu_repetition` : operations that take all of them
  - `Exec.run_perform_of_repeats`
-/
import Ia32.Proofs.Computation
import Ia32.Proofs.StackFrame
import Ia32.Execute.Dispatch

namespace Ia32

variable {δ : Type} {i : Instruction} {o : StringOp} {p : Repeat}

/-! ## Elements -/

/-- A string instruction with a repetition byte in front. -/
structure Instruction.Repeats (i : Instruction) (o : StringOp) (p : Repeat) : Prop where
  operation : i.operation = .string o
  unit : i.unit = .string
  rep : i.prefixes.rep = some p

namespace StringOp

/-- Whether the elements of the source play a part. -/
def readsSource : StringOp → Bool
  | movs | cmps | lods | outs => true
  | stos | scas | ins => false

/-- Whether the elements of the destination play a part. -/
def usesDestination : StringOp → Bool
  | movs | cmps | stos | scas | ins => true
  | lods | outs => false

end StringOp

namespace Cpu

variable {c d : Cpu}

/-- The count in the count register. -/
def repeatCount (c : Cpu) (i : Instruction) : Nat := (c.low .ecx i.addressSize.width).toNat

/-- The distance from one element to the next, in the direction of the string. -/
def pace (c : Cpu) (e : Width) : UInt32 := if c.flags.direction then -e.stride else e.stride

/-- Where register `r` points to after it has moved past `k` elements. -/
def elementOffset (c : Cpu) (r : Gpr) (i : Instruction) (k : Nat) : UInt32 :=
  i.addressSize.wrap (c.gprs.get r + UInt32.ofNat k * c.pace i.dataWidth)

/-- The linear address of element number `k` of the source. -/
def sourceAddress (c : Cpu) (i : Instruction) (k : Nat) : UInt32 :=
  c.linear (i.prefixes.segment.getD .ds) (c.elementOffset .esi i k)

/-- The linear address of element number `k` of the destination. -/
def destinationAddress (c : Cpu) (i : Instruction) (k : Nat) : UInt32 :=
  c.linear .es (c.elementOffset .edi i k)

/-- Register `r` after it has moved past `k` elements. -/
def pastElements (c : Cpu) (r : Gpr) (i : Instruction) (k : Nat) : UInt32 :=
  i.addressSize.width.merge (c.gprs.get r) (c.elementOffset r i k)

theorem pastElements_zero (c : Cpu) (r : Gpr) (i : Instruction) :
    c.pastElements r i 0 = c.gprs.get r := by
  have hzero : c.gprs.get r + UInt32.ofNat 0 * c.pace i.dataWidth = c.gprs.get r := by
    change c.gprs.get r + 0 * c.pace i.dataWidth = _
    rw [UInt32.zero_mul, UInt32.add_zero]
  rw [pastElements, elementOffset, hzero]
  exact Width.merge_truncate _ _

theorem truncate_pastElements (c : Cpu) (r : Gpr) (i : Instruction) (k : Nat) :
    i.addressSize.width.truncate (c.pastElements r i k) = c.elementOffset r i k := by
  rw [pastElements, Width.truncate_merge]
  exact Width.truncate_truncate _ _

/-- Moving on wraps around the address size only, so moves add up. -/
theorem elementOffset_add (c : Cpu) (r : Gpr) (i : Instruction) (j k : Nat) :
    i.addressSize.wrap (c.elementOffset r i j + UInt32.ofNat k * c.pace i.dataWidth) =
      c.elementOffset r i (j + k) := by
  unfold elementOffset AddressSize.wrap
  rw [Width.truncate_add, UInt32.add_assoc, UInt32.ofNat_add, UInt32.add_mul]

theorem elementOffset_succ (c : Cpu) (r : Gpr) (i : Instruction) (k : Nat) :
    i.addressSize.wrap (c.elementOffset r i k + c.pace i.dataWidth) = c.elementOffset r i (k + 1) := by
  have hone := c.elementOffset_add r i k 1
  rwa [show UInt32.ofNat 1 * c.pace i.dataWidth = c.pace i.dataWidth from UInt32.one_mul _] at hone

theorem gprs_advance (c : Cpu) (r q : Gpr) (a : AddressSize) (e : Width) :
    (c.advance r a e).gprs.get q =
      if q = r then a.width.merge (c.gprs.get r) (c.low r a.width + c.pace e) else c.gprs.get q := by
  change (c.gprs.set r _).get q = _
  rw [Gprs.get_set]
  rfl

end Cpu

namespace StringOp

/-! ## Registers -/

/-- The registers as an operation leaves them before it moves on: a comparison sets flags, and a
load changes the accumulator. -/
def observed (o : StringOp) (i : Instruction) (s : System δ) : Cpu :=
  let e := i.dataWidth
  let x := s.read (i.prefixes.segment.getD .ds) (s.cpu.low .esi i.addressSize.width) e
  let y := s.read .es (s.cpu.low .edi i.addressSize.width) e
  match o with
  | cmps => { s.cpu with flags := (Alu.sub s.cpu.flags e x y false).2 }
  | scas => { s.cpu with flags := (Alu.sub s.cpu.flags e (s.cpu.low .eax e) y false).2 }
  | lods => s.cpu.setLow .eax e x
  | _ => s.cpu

/-- The index registers of an operation move past an element. -/
def advanced (o : StringOp) (i : Instruction) (c : Cpu) : Cpu :=
  let c := if o.readsSource then c.advance .esi i.addressSize i.dataWidth else c
  if o.usesDestination then c.advance .edi i.addressSize i.dataWidth else c

theorem cpu_element (o : StringOp) (i : Instruction) (s : System δ) :
    (o.element i s).cpu = o.advanced i (o.observed i s) := by
  cases o <;> rfl

/-- One element, after which the count is `n`. -/
def counted (o : StringOp) (i : Instruction) (n : Nat) (s : System δ) : System δ :=
  (o.element i s).modifyCpu (·.setLow .ecx i.addressSize.width (UInt32.ofNat n))

/-- The general registers after `k` of `n` elements. -/
def registersAfter (o : StringOp) (i : Instruction) (c : Cpu) (n k : Nat) : Gpr → UInt32
  | .ecx => i.addressSize.width.merge c.gprs.ecx (UInt32.ofNat (n - k))
  | .esi => if o.readsSource then c.pastElements .esi i k else c.gprs.esi
  | .edi => if o.usesDestination then c.pastElements .edi i k else c.gprs.edi
  | r => c.gprs.get r

/-- The registers `d` are what `k` of `n` elements leave of `c`, the arithmetic flags apart and, if
the elements are loaded, the accumulator. -/
structure Walked (o : StringOp) (i : Instruction) (c : Cpu) (n k : Nat) (d : Cpu) : Prop where
  rest : d = { c with gprs := d.gprs, flags := d.flags }
  direction : d.flags.direction = c.flags.direction
  gprs : ∀ r, r ≠ .eax ∨ o ≠ .lods → d.gprs.get r = o.registersAfter i c n k r

variable {c d : Cpu} {n k : Nat}

theorem walked_start (o : StringOp) (i : Instruction) (c : Cpu) :
    o.Walked i c (c.repeatCount i) 0 c := by
  refine ⟨rfl, rfl, fun r _ => ?_⟩
  have hcount : UInt32.ofNat (c.repeatCount i - 0) = i.addressSize.width.truncate (c.gprs.get .ecx) :=
    UInt32.ofNat_toNat
  cases r with
  | ecx =>
    rw [registersAfter, hcount]
    exact (Width.merge_truncate _ _).symm
  | esi =>
    rw [registersAfter, Cpu.pastElements_zero]
    exact (ite_self _).symm
  | edi =>
    rw [registersAfter, Cpu.pastElements_zero]
    exact (ite_self _).symm
  | _ => rfl

namespace Walked

theorem pace (h : o.Walked i c n k d) : d.pace i.dataWidth = c.pace i.dataWidth := by
  rw [Cpu.pace, h.direction]
  rfl

theorem linear (h : o.Walked i c n k d) (name : SegmentName) (offset : UInt32) :
    d.linear name offset = c.linear name offset := by
  rw [h.rest]
  rfl

/-- The count register holds how many elements are left. -/
theorem repeatCount (h : o.Walked i c (c.repeatCount i) k d) :
    d.repeatCount i = c.repeatCount i - k := by
  have hecx : d.gprs.get .ecx =
      i.addressSize.width.merge c.gprs.ecx (UInt32.ofNat (c.repeatCount i - k)) :=
    h.gprs .ecx (.inl Gpr.noConfusion)
  have hlt : c.repeatCount i < i.addressSize.width.modulus := by
    rw [Cpu.repeatCount, Cpu.low, Gprs.low, Width.toNat_truncate]
    exact Nat.mod_lt _ (Width.modulus_pos _)
  have hmodulus := i.addressSize.width.modulus_le
  rw [Cpu.repeatCount, Cpu.low, Gprs.low, hecx, Width.truncate_merge, Width.toNat_truncate,
    UInt32.toNat_ofNat', Nat.mod_eq_of_lt (by omega : c.repeatCount i - k < 2 ^ 32),
    Nat.mod_eq_of_lt (by omega)]

/-- The source index points to element number `k`. -/
theorem source (h : o.Walked i c n k d) (hs : o.readsSource = true) :
    d.linear (i.prefixes.segment.getD .ds) (d.low .esi i.addressSize.width) =
      c.sourceAddress i k := by
  have hesi : d.gprs.get .esi = c.pastElements .esi i k := by
    rw [h.gprs .esi (.inl Gpr.noConfusion), registersAfter, hs, if_pos rfl]
  rw [h.linear, Cpu.low, Gprs.low, hesi, Cpu.truncate_pastElements, Cpu.sourceAddress]

/-- The destination index points to element number `k`. -/
theorem destination (h : o.Walked i c n k d) (hd : o.usesDestination = true) :
    d.linear .es (d.low .edi i.addressSize.width) = c.destinationAddress i k := by
  have hedi : d.gprs.get .edi = c.pastElements .edi i k := by
    rw [h.gprs .edi (.inl Gpr.noConfusion), registersAfter, hd, if_pos rfl]
  rw [h.linear, Cpu.low, Gprs.low, hedi, Cpu.truncate_pastElements, Cpu.destinationAddress]

end Walked

/-! ## One element -/

theorem get_advanced (o : StringOp) (i : Instruction) (c : Cpu) (r : Gpr) :
    (o.advanced i c).gprs.get r =
      if r = .esi ∧ o.readsSource = true ∨ r = .edi ∧ o.usesDestination = true then
        i.addressSize.width.merge (c.gprs.get r) (c.low r i.addressSize.width + c.pace i.dataWidth)
      else c.gprs.get r := by
  have hlow : (c.advance .esi i.addressSize i.dataWidth).low .edi i.addressSize.width =
      c.low .edi i.addressSize.width := rfl
  have hpace : (c.advance .esi i.addressSize i.dataWidth).pace i.dataWidth =
      c.pace i.dataWidth := rfl
  unfold advanced
  cases o.readsSource <;> cases o.usesDestination <;> cases r <;>
    simp [Cpu.gprs_advance, hlow, hpace]

theorem Walked.observed {s : System δ} (h : o.Walked i c n k s.cpu) :
    o.Walked i c n k (o.observed i s) where
  rest := by
    have hrest : o.observed i s =
        { s.cpu with gprs := (o.observed i s).gprs, flags := (o.observed i s).flags } := by
      cases o <;> rfl
    rw [hrest, h.rest]
  direction := by
    rw [← h.direction]
    cases o <;> rfl
  gprs r hr := by
    rw [← h.gprs r hr]
    cases o
    case lods =>
      have hne : r ≠ .eax := hr.resolve_right fun e => e rfl
      exact Gprs.get_setLow_of_ne hne _ _
    all_goals rfl

/-- **One element** takes the registers one element further. -/
theorem walked_counted {s : System δ} (h : o.Walked i c n k s.cpu) :
    o.Walked i c n (k + 1) (o.counted i (n - (k + 1)) s).cpu := by
  have hobserved := h.observed
  have hcpu : (o.counted i (n - (k + 1)) s).cpu = (o.advanced i (o.observed i s)).setLow .ecx
      i.addressSize.width (UInt32.ofNat (n - (k + 1))) := by
    rw [← cpu_element]
    rfl
  rw [hcpu]
  generalize o.observed i s = d at hobserved
  have hadvanced : o.advanced i d = { d with gprs := (o.advanced i d).gprs } := by
    unfold advanced
    cases o.readsSource <;> cases o.usesDestination <;> rfl
  have hmoved (r : Gpr) (hr : d.gprs.get r = c.pastElements r i k) :
      i.addressSize.width.merge (d.gprs.get r) (d.low r i.addressSize.width + d.pace i.dataWidth) =
        c.pastElements r i (k + 1) := by
    rw [hobserved.pace, Cpu.low, Gprs.low, hr, Cpu.truncate_pastElements, Cpu.pastElements,
      Width.merge_merge, Cpu.pastElements, ← Cpu.elementOffset_succ]
    exact Width.merge_congr _ (Width.truncate_truncate _ _).symm
  refine ⟨?_, ?_, fun r hr => ?_⟩
  · rw [hadvanced, hobserved.rest]
    rfl
  · rw [hadvanced]
    exact hobserved.direction
  · have hgprs := hobserved.gprs r hr
    by_cases hecx : r = .ecx
    · subst hecx
      change ((o.advanced i d).gprs.setLow .ecx _ _).get .ecx = _
      rw [Gprs.setLow, Gprs.get_set, if_pos rfl, get_advanced, if_neg (by simp), hgprs,
        registersAfter, Width.merge_merge]
      rfl
    · change ((o.advanced i d).gprs.setLow .ecx _ _).get r = _
      rw [Gprs.get_setLow_of_ne hecx, get_advanced]
      cases r with
      | ecx => exact absurd rfl hecx
      | esi =>
        cases hs : o.readsSource <;> simp only [registersAfter, hs] at hgprs ⊢
        · simpa using hgprs
        · simpa using hmoved .esi (by simpa using hgprs)
      | edi =>
        cases hs : o.usesDestination <;> simp only [registersAfter, hs] at hgprs ⊢
        · simpa using hgprs
        · simpa using hmoved .edi (by simpa using hgprs)
      | _ => simpa [registersAfter] using hgprs

/-! ## All elements -/

theorem repetition_succ (o : StringOp) (i : Instruction) (p : Repeat) (n : Nat) (s : System δ) :
    o.repetition i p (n + 1) s =
      if o.goesOn p (o.counted i n s).cpu.flags then o.repetition i p n (o.counted i n s)
      else o.counted i n s := rfl

/-- What holds in the beginning, and of one more element as long as the repetition goes on, holds in
the end: after all elements, or after one that has ended the repetition. -/
theorem repetition_induction {P : Nat → System δ → Prop} {s : System δ} (start : P 0 s)
    (next : ∀ k t, k < n → P k t → (0 < k → o.goesOn p t.cpu.flags = true) →
      P (k + 1) (o.counted i (n - (k + 1)) t)) :
    ∃ k ≤ n, P k (o.repetition i p n s) ∧
      (k = n ∨ 0 < k ∧ o.goesOn p (o.repetition i p n s).cpu.flags = false) := by
  have hrest (m k : Nat) (t : System δ) (hm : k + m = n) (ht : P k t)
      (hgo : 0 < k → o.goesOn p t.cpu.flags = true) :
      ∃ j ≤ n, P j (o.repetition i p m t) ∧
        (j = n ∨ 0 < j ∧ o.goesOn p (o.repetition i p m t).cpu.flags = false) := by
    induction m generalizing k t with
    | zero => exact ⟨k, by omega, ht, .inl hm⟩
    | succ m ih =>
      have hone := next k t (by omega) ht hgo
      rw [show n - (k + 1) = m by omega] at hone
      rw [repetition_succ]
      cases hon : o.goesOn p (o.counted i m t).cpu.flags with
      | true => exact ih (k + 1) _ (by omega) hone fun _ => hon
      | false => exact ⟨k + 1, by omega, hone, .inr ⟨Nat.succ_pos k, hon⟩⟩
  exact hrest n 0 s (Nat.zero_add n) start fun h => absurd h (Nat.lt_irrefl 0)

/-- Comparisons end a repetition, other operations do not. -/
def compares : StringOp → Bool
  | cmps | scas => true
  | _ => false

theorem goesOn_of_not_compares (h : o.compares = false) (p : Repeat) (f : Flags) :
    o.goesOn p f = true := by
  cases o <;> first | rfl | cases h

/-- An operation that does not compare takes all elements. -/
theorem repetition_all {P : Nat → System δ → Prop} {s : System δ} (ho : o.compares = false)
    (start : P 0 s)
    (next : ∀ k t, k < n → P k t → P (k + 1) (o.counted i (n - (k + 1)) t)) :
    P n (o.repetition i p n s) := by
  obtain ⟨k, -, hk, rfl | ⟨-, hstop⟩⟩ :=
    repetition_induction (p := p) start fun k t hk ht _ => next k t hk ht
  · exact hk
  · rw [goesOn_of_not_compares ho] at hstop
    cases hstop

/-- The registers after all elements. -/
theorem walked_repetition (ho : o.compares = false) (s : System δ) :
    o.Walked i s.cpu (s.cpu.repeatCount i) (s.cpu.repeatCount i)
      (o.repetition i p (s.cpu.repeatCount i) s).cpu :=
  repetition_all (P := fun k t => o.Walked i s.cpu (s.cpu.repeatCount i) k t.cpu) ho
    (walked_start o i s.cpu) fun _ _ _ => walked_counted

/-- What holds in the beginning, and of one more element wherever the registers have come to, holds
in the end. -/
theorem repetition_walked {P : Nat → System δ → Prop} {s : System δ} (ho : o.compares = false)
    (start : P 0 s)
    (next : ∀ k t, k < s.cpu.repeatCount i → o.Walked i s.cpu (s.cpu.repeatCount i) k t.cpu →
      P k t → P (k + 1) (o.counted i (s.cpu.repeatCount i - (k + 1)) t)) :
    P (s.cpu.repeatCount i) (o.repetition i p (s.cpu.repeatCount i) s) :=
  (repetition_all (P := fun k t => o.Walked i s.cpu (s.cpu.repeatCount i) k t.cpu ∧ P k t) ho
    ⟨walked_start o i s.cpu, start⟩
    fun k t hk ht => ⟨walked_counted ht.1, next k t hk ht.1 ht.2⟩).2

/-- An operation that does not compare changes no flags. -/
theorem flags_repetition (ho : o.compares = false) (n : Nat) (s : System δ) :
    (o.repetition i p n s).cpu.flags = s.cpu.flags := by
  refine repetition_all (P := fun _ t => t.cpu.flags = s.cpu.flags) ho rfl fun k t _ ht => ?_
  rw [← ht]
  cases o <;> first | rfl | cases ho

/-- An operation that does not compare changes general registers only. -/
theorem cpu_repetition (ho : o.compares = false) (s : System δ) :
    (o.repetition i p (s.cpu.repeatCount i) s).cpu =
      { s.cpu with gprs := (o.repetition i p (s.cpu.repeatCount i) s).cpu.gprs } := by
  have hrest := (walked_repetition (p := p) (i := i) ho s).rest
  rwa [flags_repetition ho] at hrest

end StringOp

/-- A repeated string instruction does not fault. -/
theorem Exec.run_perform_of_repeats (hi : i.Repeats o p) (next : UInt32) (s : System δ) :
    (i.perform next).run s = .ok .next (o.repetition i p (s.cpu.repeatCount i) s) := by
  have hperform : o.perform i s = o.repetition i p (s.cpu.repeatCount i) s := by
    rw [StringOp.perform, hi.rep]
    rfl
  rw [← hperform, Instruction.perform, hi.unit, hi.operation]
  rfl

end Ia32
