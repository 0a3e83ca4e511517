/-
  Numbers of several limbs, added and subtracted limb by limb through the carry flag.

  Main definitions:
  - `Alu.chain` : an operation on two lists of limbs, lowest first
  - `Alu.addLimb`, `Alu.subLimb` : one limb of a binary number
  - `Alu.numeral`, `Alu.binary` : the number that limbs stand for
  - `Alu.LimbLaw`, `Alu.IsNumeral` : one limb, and all of them, account for the exact result
  - `Alu.ChainStep`, `Alu.interleaved` : limbs with counters that go up and down between them

  Main statements:
  - `Alu.LimbLaw.chain_equation`, `Alu.LimbLaw.isNumeral_chain` : what holds of one limb holds of
    the number
  - `Alu.interleaved_eq_chain` : counters do not disturb the carry
  - `Alu.chain_exact` : sums and differences of binary numbers
-/
import Ia32.Proofs.Sums
import Mathlib.Data.Nat.Digits.Lemmas
import Mathlib.Tactic.LinearCombination

namespace Ia32.Alu

/-! ## Numerals and chains -/

section

variable {α β : Type} {op : Flags → α → β → α × Flags} {P : α × β → Prop} {base : ℕ} {σ : ℤ}
  {v : α → ℕ} {u : β → ℕ}

/-- The number with the digits `v x`, lowest first. -/
def numeral (base : ℕ) (v : α → ℕ) (xs : List α) : ℕ := Nat.ofDigits base (xs.map v)

theorem numeral_cons (base : ℕ) (v : α → ℕ) (x : α) (xs : List α) :
    numeral base v (x :: xs) = v x + base * numeral base v xs := Nat.ofDigits_cons

theorem numeral_lt {xs : List α} (hbase : 1 < base) (h : ∀ x ∈ xs, v x < base) :
    numeral base v xs < base ^ xs.length := by
  have hlt := Nat.ofDigits_lt_base_pow_length (l := xs.map v) hbase fun d hd => by
    obtain ⟨x, hx, rfl⟩ := List.mem_map.1 hd
    exact h x hx
  rwa [List.length_map] at hlt

/-- Apply `op` to the limbs of two numbers, lowest first; each limb finds the flags that the one
before it has left. -/
def chain (op : Flags → α → β → α × Flags) : Flags → List (α × β) → List α × Flags
  | f, [] => ([], f)
  | f, (a, b) :: ps =>
    let p := op f a b
    let q := chain op p.2 ps
    (p.1 :: q.1, q.2)

theorem length_chain (f : Flags) (ps : List (α × β)) : (chain op f ps).1.length = ps.length := by
  induction ps generalizing f with
  | nil => rfl
  | cons p ps ih => exact congrArg (· + 1) (ih _)

theorem forall_chain {Q : α → Prop} (h : ∀ f a b, P (a, b) → Q (op f a b).1) (f : Flags)
    {ps : List (α × β)} (hps : ∀ p ∈ ps, P p) : ∀ r ∈ (chain op f ps).1, Q r := by
  induction ps generalizing f with
  | nil => nofun
  | cons p ps ih =>
    intro r hr
    rcases List.mem_cons.1 hr with rfl | hr
    · exact h f p.1 p.2 (hps p List.mem_cons_self)
    · exact ih _ (fun p hp => hps p (List.mem_cons_of_mem _ hp)) r hr

/-- One limb of a sum (`σ = 1`) or a difference (`σ = -1`): the operation works on limbs with `P`,
which stand for the digits `v` and `u`, and leaves in the carry flag what does not fit. -/
structure LimbLaw (base : ℕ) (σ : ℤ) (P : α × β → Prop) (v : α → ℕ) (u : β → ℕ)
    (op : Flags → α → β → α × Flags) : Prop where
  digit_lt : ∀ f a b, P (a, b) → v (op f a b).1 < base
  equation : ∀ f a b, P (a, b) →
    (v (op f a b).1 : ℤ) + σ * (base * (op f a b).2.carry.toNat) = v a + σ * (u b + f.carry.toNat)

theorem LimbLaw.of_sum (hlt : ∀ f a b, P (a, b) → v (op f a b).1 < base)
    (h : ∀ f a b, P (a, b) →
      v (op f a b).1 + base * (op f a b).2.carry.toNat = v a + u b + f.carry.toNat) :
    LimbLaw base 1 P v u op where
  digit_lt := hlt
  equation f a b hP := by
    have hsum := h f a b hP
    zify at hsum
    linear_combination hsum

theorem LimbLaw.of_difference (hlt : ∀ f a b, P (a, b) → v (op f a b).1 < base)
    (h : ∀ f a b, P (a, b) →
      v (op f a b).1 + u b + f.carry.toNat = v a + base * (op f a b).2.carry.toNat) :
    LimbLaw base (-1) P v u op where
  digit_lt := hlt
  equation f a b hP := by
    have hdifference := h f a b hP
    zify at hdifference
    linear_combination hdifference

/-- What holds of one limb holds of the number. -/
theorem LimbLaw.chain_equation (h : LimbLaw base σ P v u op) (f : Flags) {ps : List (α × β)}
    (hps : ∀ p ∈ ps, P p) :
    (numeral base v (chain op f ps).1 : ℤ) +
        σ * (base ^ ps.length * (chain op f ps).2.carry.toNat) =
      numeral base v (ps.map Prod.fst) +
        σ * (numeral base u (ps.map Prod.snd) + f.carry.toNat) := by
  induction ps generalizing f with
  | nil => simp [chain, numeral]
  | cons p ps ih =>
    have hlimb := h.equation f p.1 p.2 (hps p List.mem_cons_self)
    have hrest := ih (op f p.1 p.2).2 fun p hp => hps p (List.mem_cons_of_mem _ hp)
    simp only [chain, List.map_cons, numeral_cons, List.length_cons]
    push_cast
    linear_combination hlimb + base * hrest

/-- The limbs and the carry flag of `p` stand for the exact result `n`: `k` limbs with `D` make up
its residue, and the carry flag tells that `k` limbs do not suffice for it. -/
structure IsNumeral (D : α → Prop) (base : ℕ) (v : α → ℕ) (k : ℕ) (n : ℤ)
    (p : List α × Flags) : Prop where
  length : p.1.length = k
  digits : ∀ x ∈ p.1, D x
  value : (numeral base v p.1 : ℤ) = n % base ^ k
  carry : p.2.carry = true ↔ ¬ (0 ≤ n ∧ n < base ^ k)

theorem LimbLaw.isNumeral_chain {D : α → Prop} (h : LimbLaw base σ P v u op) (hbase : 1 < base)
    (hσ : σ = 1 ∨ σ = -1) (hD : ∀ f a b, P (a, b) → D (op f a b).1) (f : Flags)
    {ps : List (α × β)} (hps : ∀ p ∈ ps, P p) {n : ℤ}
    (hn : n = numeral base v (ps.map Prod.fst) +
      σ * (numeral base u (ps.map Prod.snd) + f.carry.toNat)) :
    IsNumeral D base v ps.length n (chain op f ps) := by
  have hequation := (h.chain_equation f hps).trans hn.symm
  have hlength : (chain op f ps).1.length = ps.length := length_chain f ps
  have hlt := numeral_lt hbase (forall_chain h.digit_lt f hps)
  rw [hlength] at hlt
  zify at hlt
  suffices hresidue : (numeral base v (chain op f ps).1 : ℤ) = n % base ^ ps.length ∧
      ((chain op f ps).2.carry = true ↔ ¬ (0 ≤ n ∧ n < base ^ ps.length)) from
    ⟨hlength, forall_chain hD f hps, hresidue.1, hresidue.2⟩
  generalize (chain op f ps).2.carry = c at *
  generalize (base : ℤ) ^ ps.length = m at *
  -- the carry is the quotient of the exact result by the number of values
  have hunique := (Int.ediv_emod_unique (a := n) (q := σ * c.toNat) (by omega)).2
    ⟨by rw [← hequation]; ring, Int.natCast_nonneg _, hlt⟩
  refine ⟨hunique.2.symm, ?_⟩
  rcases hσ with rfl | rfl <;> cases c <;>
    simp only [Bool.toNat_true, Bool.toNat_false, reduceCtorEq, false_iff, true_iff] at * <;> omega

/-! ## Counters between the limbs -/

/-- A step of a loop over limbs: the next limb, or a counter elsewhere that goes up or down. -/
inductive ChainStep (α β : Type)
  | limb (a : α) (b : β)
  | inc (w : Width) (x : UInt32)
  | dec (w : Width) (x : UInt32)

/-- The limbs among the steps. -/
def ChainStep.limbs : List (ChainStep α β) → List (α × β)
  | [] => []
  | limb a b :: is => (a, b) :: limbs is
  | inc _ _ :: is | dec _ _ :: is => limbs is

/-- Apply `op` to the limbs, and count in between. -/
def interleaved (op : Flags → α → β → α × Flags) : Flags → List (ChainStep α β) → List α × Flags
  | f, [] => ([], f)
  | f, .limb a b :: is =>
    let p := op f a b
    let q := interleaved op p.2 is
    (p.1 :: q.1, q.2)
  | f, .inc w x :: is => interleaved op (inc f w x).2 is
  | f, .dec w x :: is => interleaved op (dec f w x).2 is

/-- Of the flags before, `op` looks at the carry flag alone. -/
def ReadsCarry (op : Flags → α → β → α × Flags) : Prop :=
  ∀ f g a b, f.carry = g.carry →
    (op f a b).1 = (op g a b).1 ∧ (op f a b).2.carry = (op g a b).2.carry

/-- Counters do not disturb the carry. -/
theorem interleaved_eq_chain (hop : ReadsCarry op) {f g : Flags} (h : f.carry = g.carry)
    (is : List (ChainStep α β)) :
    (interleaved op f is).1 = (chain op g (ChainStep.limbs is)).1 ∧
      (interleaved op f is).2.carry = (chain op g (ChainStep.limbs is)).2.carry := by
  induction is generalizing f g with
  | nil => exact ⟨rfl, h⟩
  | cons i is ih =>
    cases i with
    | limb a b =>
      obtain ⟨hresult, hcarry⟩ := hop f g a b h
      obtain ⟨hrest, hfinal⟩ := ih hcarry
      exact ⟨congrArg₂ List.cons hresult hrest, hfinal⟩
    | inc w x | dec w x => exact ih h

end

/-! ## Binary numbers -/

/-- The number with the limbs `xs`: the sum of all `xᵢ * 2 ^ (w * i)`. -/
def binary (w : Width) (xs : List UInt32) : ℕ := numeral (2 ^ w.bits) w.unsigned xs

/-- Add a limb and the carry. -/
def addLimb (w : Width) (f : Flags) (a b : UInt32) : UInt32 × Flags := add f w a b f.carry

/-- Subtract a limb and the borrow. -/
def subLimb (w : Width) (f : Flags) (a b : UInt32) : UInt32 × Flags := sub f w a b f.carry

variable (w : Width)

theorem readsCarry_addLimb : ReadsCarry (addLimb w) := by
  intro f g a b h
  rw [addLimb, addLimb, h]
  exact ⟨rfl, rfl⟩

theorem readsCarry_subLimb : ReadsCarry (subLimb w) := by
  intro f g a b h
  rw [subLimb, subLimb, h]
  exact ⟨rfl, rfl⟩

theorem limbLaw_addLimb :
    LimbLaw (2 ^ w.bits) 1 (fun _ => True) w.unsigned w.unsigned (addLimb w) := by
  rw [← w.modulus_eq]
  refine LimbLaw.of_sum (fun f a b _ => w.unsigned_lt _) fun f a b _ => ?_
  rw [addLimb, unsigned_add]
  exact add_equation f w a b f.carry

theorem limbLaw_subLimb :
    LimbLaw (2 ^ w.bits) (-1) (fun _ => True) w.unsigned w.unsigned (subLimb w) := by
  rw [← w.modulus_eq]
  refine LimbLaw.of_difference (fun f a b _ => w.unsigned_lt _) fun f a b _ => ?_
  rw [subLimb, unsigned_sub]
  exact sub_equation f w a b f.carry

theorem chain_addLimb (f : Flags) (ps : List (UInt32 × UInt32)) :
    (binary w (chain (addLimb w) f ps).1 : ℤ) +
        2 ^ (w.bits * ps.length) * (chain (addLimb w) f ps).2.carry.toNat =
      binary w (ps.map Prod.fst) + binary w (ps.map Prod.snd) + f.carry.toNat := by
  have hequation := (limbLaw_addLimb w).chain_equation f fun p (_ : p ∈ ps) => trivial
  push_cast at hequation
  rw [pow_mul]
  unfold binary
  linear_combination hequation

theorem chain_subLimb (f : Flags) (ps : List (UInt32 × UInt32)) :
    (binary w (chain (subLimb w) f ps).1 : ℤ) -
        2 ^ (w.bits * ps.length) * (chain (subLimb w) f ps).2.carry.toNat =
      binary w (ps.map Prod.fst) - binary w (ps.map Prod.snd) - f.carry.toNat := by
  have hequation := (limbLaw_subLimb w).chain_equation f fun p (_ : p ∈ ps) => trivial
  push_cast at hequation
  rw [pow_mul]
  unfold binary
  linear_combination hequation

/-- Subtracting the second number from the sum gives back the first. -/
theorem chain_sub_add {f g : Flags} (h : g.carry = f.carry) (ps : List (UInt32 × UInt32)) :
    let s := chain (addLimb w) f ps
    let d := chain (subLimb w) g (s.1.zip (ps.map Prod.snd))
    d.1 = ps.map (fun p => w.truncate p.1) ∧ d.2.carry = s.2.carry := by
  induction ps generalizing f g with
  | nil => exact ⟨rfl, h⟩
  | cons p ps ih =>
    obtain ⟨hresult, hcarry⟩ := sub_add f g w p.1 p.2 f.carry
    have hlimb : subLimb w g (addLimb w f p.1 p.2).1 p.2 =
        sub g w (add f w p.1 p.2 f.carry).1 p.2 f.carry := by rw [subLimb, h, addLimb]
    rw [← hlimb] at hresult hcarry
    obtain ⟨hrest, hfinal⟩ := ih hcarry
    exact ⟨congrArg₂ List.cons hresult hrest, hfinal⟩

/-- **Numbers of several limbs**: with the carry flag between the limbs, sums and differences are
exact, counters between the limbs do not matter, and subtracting undoes adding. -/
theorem chain_exact (w : Width) (f : Flags) (ps : List (UInt32 × UInt32)) :
    let A := binary w (ps.map Prod.fst)
    let B := binary w (ps.map Prod.snd)
    let s := chain (addLimb w) f ps
    let d := chain (subLimb w) f ps
    (s.1.length = ps.length ∧ (∀ r ∈ s.1, w.truncate r = r) ∧
      (binary w s.1 : ℤ) + 2 ^ (w.bits * ps.length) * s.2.carry.toNat = A + B + f.carry.toNat) ∧
    (d.1.length = ps.length ∧ (∀ r ∈ d.1, w.truncate r = r) ∧
      (binary w d.1 : ℤ) - 2 ^ (w.bits * ps.length) * d.2.carry.toNat = A - B - f.carry.toNat) ∧
    (∀ is, ChainStep.limbs is = ps →
      (interleaved (addLimb w) f is).1 = s.1 ∧
      (interleaved (addLimb w) f is).2.carry = s.2.carry ∧
      (interleaved (subLimb w) f is).1 = d.1 ∧
      (interleaved (subLimb w) f is).2.carry = d.2.carry) ∧
    ∀ g : Flags, g.carry = f.carry →
      let e := chain (subLimb w) g (s.1.zip (ps.map Prod.snd))
      e.1 = ps.map (fun p => w.truncate p.1) ∧ e.2.carry = s.2.carry := by
  refine ⟨⟨length_chain f ps, ?_, chain_addLimb w f ps⟩,
    ⟨length_chain f ps, ?_, chain_subLimb w f ps⟩, ?_, fun g hg => chain_sub_add w hg ps⟩
  · exact forall_chain (P := fun _ => True) (fun _ _ _ _ => w.truncate_truncate _) f
      fun _ _ => trivial
  · exact forall_chain (P := fun _ => True) (fun _ _ _ _ => w.truncate_truncate _) f
      fun _ _ => trivial
  · rintro is rfl
    obtain ⟨hsum, hcarry⟩ := interleaved_eq_chain (readsCarry_addLimb w) (Eq.refl f.carry) is
    obtain ⟨hdifference, hborrow⟩ :=
      interleaved_eq_chain (readsCarry_subLimb w) (Eq.refl f.carry) is
    exact ⟨hsum, hcarry, hdifference, hborrow⟩

/-- A carry that ripples through two words, with counters that wrap in between, and the way
back. -/
theorem chain_exact_ripple :
    let f : Flags := { carry := true }
    let g : Flags := { carry := true, overflow := true }
    let ps : List (UInt32 × UInt32) := [(0xFFFF, 0), (0xFFFF, 0), (0x8001, 0x8002)]
    let is : List (ChainStep UInt32 UInt32) := [.limb 0xFFFF 0, .inc .dword 0xFFFFFFFF,
      .limb 0xFFFF 0, .dec .byte 0, .limb 0x8001 0x8002]
    let s := chain (addLimb .word) f ps
    ChainStep.limbs is = ps ∧ g.carry = f.carry ∧ s.1 = [0, 0, 4] ∧ s.2.carry = true ∧
      (interleaved (addLimb .word) f is).1 = s.1 ∧
      (chain (subLimb .word) g (s.1.zip (ps.map Prod.snd))).1 = [0xFFFF, 0xFFFF, 0x8001] := by
  intro f g ps is s
  obtain ⟨-, -, hinterleaved, hback⟩ := chain_exact .word f ps
  exact ⟨rfl, rfl, by decide, by decide, (hinterleaved is rfl).1, (hback g rfl).1⟩

end Ia32.Alu
