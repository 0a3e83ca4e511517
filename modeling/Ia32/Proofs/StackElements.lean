/-
  The stack as a list of elements.

  The stack pointer wraps around its width, whereas an element that begins in front of the wrap
  goes on beyond it.  Elements that are pushed one after the other still have places of their own,
  as long as they take no more bytes than the pointer can tell apart.

  Main definitions:
  - `Cpu.lowered`, `Cpu.slot` : the pointer some bytes further down, and the place at a distance
    from the top
  - `StackElement`, `StackElement.extent` : an element, and the number of bytes that a list takes
  - `System.pushes`, `System.pops` : a list of elements on the way in and on the way out
  - `Cpu.placed`, `Cpu.Occupied` : the elements with their places, and the bytes there
  - `Ram.Backs`, `Ram.Holds` : elements whose places lie in memory, and those that are found there

  Main statements:
  - `Width.covers_disjoint` : offsets that wrap, and the elements there
  - `System.holds_pushes` : what has been pushed is in memory
  - `System.peek_of_holds`, `System.pops_of_holds` : what is in memory is read back
  - `System.pops_pushes` : last in, first out
-/
import Ia32.Stack
import Ia32.Proofs.Computation
import Ia32.Proofs.Memory
import Mathlib.Data.List.Induction

namespace Ia32

variable {δ : Type}

/-- Two ways down. -/
theorem UInt32.neg_add_neg_ofNat (m n : Nat) :
    -UInt32.ofNat m + -UInt32.ofNat n = -UInt32.ofNat (m + n) := by
  rw [UInt32.ofNat_add]
  grind

/-- A way down, and a part of it back up. -/
theorem UInt32.neg_ofNat_add_ofNat (m n : Nat) :
    -UInt32.ofNat (m + n) + UInt32.ofNat n = -UInt32.ofNat m := by
  rw [UInt32.ofNat_add]
  grind

namespace Width

theorem stride_eq (w : Width) : w.stride = UInt32.ofNat w.bytes := by cases w <;> rfl

theorem bytes_pos (w : Width) : 0 < w.bytes := by cases w <;> decide

theorem truncate_word_of_le {x : UInt32} (h : x ≤ 0xFFFF) : truncate .word x = x := by
  have hle : x.toNat ≤ 0xFFFF := h
  apply UInt32.toNat_inj.1
  rw [toNat_truncate]
  exact Nat.mod_eq_of_lt (Nat.lt_succ_of_le hle)

/-- Elements at offsets that wrap around a width do not overlap if each begins behind the other one
on the way around, even if an element goes on beyond the wrap. -/
theorem covers_disjoint {w u v : Width} {x g : UInt32} (base : UInt32) (hlow : w.bytes ≤ g.toNat)
    (hhigh : g.toNat + u.bytes ≤ v.modulus) {j : Nat} (hj : w.Covers (base + v.truncate x) j) :
    ¬ u.Covers (base + v.truncate (x + g)) j := by
  have hw := w.bytes_pos
  have hu := u.bytes_pos
  unfold Covers at *
  rw [UInt32.toNat_add, toNat_truncate] at hj ⊢
  rw [UInt32.toNat_add]
  have hbase := base.toNat_lt
  generalize base.toNat = base at *
  generalize x.toNat = x at *
  generalize g.toNat = g at *
  generalize w.bytes = e at *
  generalize u.bytes = f at *
  cases v <;> simp only [modulus] at * <;> omega

end Width

namespace Cpu

variable {c : Cpu}

/-! ## The stack pointer -/

theorem adjustStack_adjustStack (c : Cpu) (d e : UInt32) :
    (c.adjustStack d).adjustStack e = c.adjustStack (d + e) := by
  have hgprs : ((c.adjustStack d).adjustStack e).gprs = (c.adjustStack (d + e)).gprs := by
    have htop := c.stackTop_adjustStack d
    change (c.gprs.setLow .esp c.stackWidth (c.stackTop + d)).setLow .esp c.stackWidth
      ((c.adjustStack d).stackTop + e) = c.gprs.setLow .esp c.stackWidth (c.stackTop + (d + e))
    rw [htop]
    have hsum : c.stackWidth.truncate (c.stackWidth.truncate (c.stackTop + d) + e) =
        c.stackWidth.truncate (c.stackTop + (d + e)) := by
      rw [Width.truncate_add, UInt32.add_assoc]
    rw [Gprs.setLow_setLow, Gprs.setLow_congr _ _ hsum]
  exact congrArg (fun g => { c with gprs := g }) hgprs

theorem adjustStack_zero (c : Cpu) : c.adjustStack 0 = c := by
  have hgprs : (c.adjustStack 0).gprs = c.gprs := by
    change c.gprs.setLow .esp c.stackWidth (c.stackTop + 0) = _
    rw [UInt32.add_zero]
    exact c.gprs.setLow_low .esp c.stackWidth
  exact congrArg (fun g => { c with gprs := g }) hgprs

/-- The stack pointer moved down by `n` bytes. -/
def lowered (c : Cpu) (n : Nat) : Cpu := c.adjustStack (-UInt32.ofNat n)

@[simp] theorem stackWidth_lowered (c : Cpu) (n : Nat) :
    (c.lowered n).stackWidth = c.stackWidth := rfl

/-- Either pointer tells 64 KiB apart. -/
theorem le_modulus_stackWidth (c : Cpu) {n : Nat} (h : n ≤ 0x10000) :
    n ≤ c.stackWidth.modulus := by
  refine Nat.le_trans h ?_
  unfold stackWidth
  split_ifs <;> decide

theorem lowered_zero (c : Cpu) : c.lowered 0 = c := c.adjustStack_zero

theorem lowered_bytes (c : Cpu) (w : Width) : c.lowered w.bytes = c.adjustStack (-w.stride) := by
  rw [lowered, Width.stride_eq]

theorem lowered_lowered (c : Cpu) (m n : Nat) : (c.lowered m).lowered n = c.lowered (m + n) := by
  rw [lowered, lowered, lowered, adjustStack_adjustStack, UInt32.neg_add_neg_ofNat]

/-- The way back up. -/
theorem adjustStack_lowered (c : Cpu) (m n : Nat) :
    (c.lowered (m + n)).adjustStack (UInt32.ofNat n) = c.lowered m := by
  rw [lowered, lowered, adjustStack_adjustStack, UInt32.neg_ofNat_add_ofNat]

theorem adjustStack_lowered_bytes (c : Cpu) (w : Width) :
    (c.lowered w.bytes).adjustStack w.stride = c := by
  have hback := c.adjustStack_lowered 0 w.bytes
  rwa [Nat.zero_add, lowered_zero, ← Width.stride_eq] at hback

/-! ## Places -/

/-- The linear address of the place `d` bytes above the top of the stack. -/
def slot (c : Cpu) (d : UInt32) : UInt32 := c.linear .ss (c.stackWidth.truncate (c.stackTop + d))

theorem slot_adjustStack (c : Cpu) (d e : UInt32) : (c.adjustStack d).slot e = c.slot (d + e) := by
  unfold slot
  rw [stackTop_adjustStack, stackWidth_adjustStack, Width.truncate_add, UInt32.add_assoc]
  rfl

/-- The place `n` bytes above the top that is `m + n` bytes further down. -/
theorem slot_lowered (c : Cpu) (m n : Nat) :
    (c.lowered (m + n)).slot (UInt32.ofNat n) = c.slot (-UInt32.ofNat m) := by
  rw [lowered, slot_adjustStack, UInt32.neg_ofNat_add_ofNat]

theorem slot_neg_lowered (c : Cpu) (m n : Nat) :
    (c.lowered m).slot (-UInt32.ofNat n) = c.slot (-UInt32.ofNat (m + n)) := by
  rw [lowered, slot_adjustStack, UInt32.neg_add_neg_ofNat]

/-- What is pushed first does not overlap what ends up to `n` bytes further down, if the pointer
does not come around on the way. -/
theorem slot_disjoint (c : Cpu) {w u : Width} {m n : Nat} (hw : w.bytes ≤ n)
    (h : u.bytes + n ≤ c.stackWidth.modulus) {j : Nat}
    (hj : w.Covers (c.slot (-UInt32.ofNat (m + n))) j) :
    ¬ u.Covers (c.slot (-UInt32.ofNat m)) j := by
  have hn : (UInt32.ofNat n).toNat = n := by
    have hpos := u.bytes_pos
    have hle := c.stackWidth.modulus_le
    rw [UInt32.toNat_ofNat']
    exact Nat.mod_eq_of_lt (by omega)
  have hsum : c.stackTop + -UInt32.ofNat m =
      c.stackTop + -UInt32.ofNat (m + n) + UInt32.ofNat n := by
    rw [UInt32.add_assoc, UInt32.neg_ofNat_add_ofNat]
  have hupper : c.slot (-UInt32.ofNat m) = c.linear .ss
      (c.stackWidth.truncate (c.stackTop + -UInt32.ofNat (m + n) + UInt32.ofNat n)) := by
    rw [slot, hsum]
  rw [hupper]
  exact Width.covers_disjoint _ (by rw [hn]; exact hw) (by rw [hn]; omega) hj

end Cpu

/-! ## Elements -/

/-- An element of the stack: the low end of a value. -/
structure StackElement where
  width : Width
  value : UInt32
  deriving DecidableEq, Repr

namespace StackElement

/-- What is read back of an element. -/
def content (x : StackElement) : UInt32 := x.width.truncate x.value

/-- The number of bytes of a list of elements. -/
def extent : List StackElement → Nat
  | [] => 0
  | x :: xs => x.width.bytes + extent xs

@[simp] theorem extent_nil : extent [] = 0 := rfl

@[simp] theorem extent_cons (x : StackElement) (xs : List StackElement) :
    extent (x :: xs) = x.width.bytes + extent xs := rfl

@[simp] theorem extent_append (xs ys : List StackElement) :
    extent (xs ++ ys) = extent xs + extent ys := by
  induction xs with
  | nil => rw [List.nil_append, extent_nil, Nat.zero_add]
  | cons x xs ih => rw [List.cons_append, extent_cons, extent_cons, ih, Nat.add_assoc]

/-- The elements are of one width. -/
def Uniform (w : Width) (xs : List StackElement) : Prop := ∀ x ∈ xs, x.width = w

theorem Uniform.extent {w : Width} {xs : List StackElement} (h : Uniform w xs) :
    extent xs = xs.length * w.bytes := by
  induction xs with
  | nil => rw [extent_nil, List.length_nil, Nat.zero_mul]
  | cons x xs ih =>
    rw [extent_cons, h x List.mem_cons_self, ih fun y hy => h y (List.mem_cons_of_mem _ hy),
      List.length_cons, Nat.succ_mul, Nat.add_comm]

end StackElement

open StackElement

namespace Cpu

/-- Elements with the places that they have once they are pushed, the first one first. -/
def placed (c : Cpu) : List StackElement → List (StackElement × UInt32)
  | [] => []
  | x :: xs => (x, c.slot (-UInt32.ofNat x.width.bytes)) :: (c.lowered x.width.bytes).placed xs

/-- Byte `j` is one of the bytes of the elements. -/
def Occupied (c : Cpu) (xs : List StackElement) (j : Nat) : Prop :=
  ∃ p ∈ c.placed xs, p.1.width.Covers p.2 j

theorem placed_append (c : Cpu) (xs ys : List StackElement) :
    c.placed (xs ++ ys) = c.placed xs ++ (c.lowered (extent xs)).placed ys := by
  induction xs generalizing c with
  | nil => rw [extent_nil, lowered_zero]; rfl
  | cons x xs ih =>
    rw [List.cons_append, placed, ih, lowered_lowered, placed, extent_cons, List.cons_append]

/-- An element in the list, and its place. -/
theorem mem_placed (c : Cpu) (xs : List StackElement) (x : StackElement)
    (ys : List StackElement) : (x, c.slot (-UInt32.ofNat (extent xs + x.width.bytes))) ∈
      c.placed (xs ++ x :: ys) := by
  rw [placed_append, placed, slot_neg_lowered]
  exact List.mem_append_right _ List.mem_cons_self

/-- The places lie below the top, by as many bytes as the list has, at the most. -/
theorem slot_of_placed {c : Cpu} {xs : List StackElement} {p : StackElement × UInt32}
    (h : p ∈ c.placed xs) :
    ∃ n ≤ extent xs, p.1.width.bytes ≤ n ∧ p.2 = c.slot (-UInt32.ofNat n) := by
  induction xs generalizing c with
  | nil => cases h
  | cons x xs ih =>
    rcases List.mem_cons.1 h with rfl | h
    · exact ⟨x.width.bytes, by rw [extent_cons]; omega, Nat.le_refl _, rfl⟩
    · obtain ⟨n, hn, hp, e⟩ := ih h
      refine ⟨x.width.bytes + n, by rw [extent_cons]; omega, by omega, ?_⟩
      rw [e, slot_neg_lowered]

/-- Elements of one width, and their places. -/
theorem mem_placed_iff {c : Cpu} {w : Width} {xs : List StackElement} (h : Uniform w xs)
    {p : StackElement × UInt32} : p ∈ c.placed xs ↔
      ∃ k, xs[k]? = some p.1 ∧ p.2 = c.slot (-UInt32.ofNat ((k + 1) * w.bytes)) := by
  induction xs generalizing c with
  | nil => simp [placed]
  | cons x xs ih =>
    have hx : x.width = w := h x List.mem_cons_self
    have hslot (k : Nat) : (c.lowered w.bytes).slot (-UInt32.ofNat ((k + 1) * w.bytes)) =
        c.slot (-UInt32.ofNat ((k + 1 + 1) * w.bytes)) := by
      rw [slot_neg_lowered, Nat.succ_mul (k + 1), Nat.add_comm w.bytes]
    rw [placed, List.mem_cons, hx, ih fun y hy => h y (List.mem_cons_of_mem _ hy)]
    constructor
    · rintro (rfl | ⟨k, hk, e⟩)
      · exact ⟨0, rfl, by rw [Nat.zero_add, Nat.one_mul]⟩
      · exact ⟨k + 1, hk, by rw [e, hslot]⟩
    · rintro ⟨_ | k, hk, e⟩
      · cases hk
        rw [Nat.zero_add, Nat.one_mul] at e
        exact .inl (by rw [← e])
      · exact .inr ⟨k, hk, by rw [e, hslot]⟩

theorem occupied_iff {c : Cpu} {w : Width} {xs : List StackElement} (h : Uniform w xs) {j : Nat} :
    c.Occupied xs j ↔
      ∃ k < xs.length, w.Covers (c.slot (-UInt32.ofNat ((k + 1) * w.bytes))) j := by
  constructor
  · rintro ⟨p, hp, hj⟩
    obtain ⟨k, hk, e⟩ := (mem_placed_iff h).1 hp
    obtain ⟨hlt, hx⟩ := List.getElem?_eq_some_iff.1 hk
    rw [h p.1 (hx ▸ List.getElem_mem hlt), e] at hj
    exact ⟨k, hlt, hj⟩
  · rintro ⟨k, hlt, hj⟩
    have hk := List.getElem?_eq_getElem hlt
    refine ⟨(xs[k], _), (mem_placed_iff h).2 ⟨k, hk, rfl⟩, ?_⟩
    rw [h xs[k] (List.getElem_mem hlt)]
    exact hj

/-- The first element does not overlap the others. -/
theorem not_occupied_of_covers {c : Cpu} {x : StackElement} {xs : List StackElement}
    (h : extent (x :: xs) ≤ c.stackWidth.modulus) {j : Nat}
    (hj : x.width.Covers (c.slot (-UInt32.ofNat x.width.bytes)) j) :
    ¬ (c.lowered x.width.bytes).Occupied xs j := by
  rintro ⟨p, hp, hcovers⟩
  obtain ⟨n, hn, hbytes, e⟩ := slot_of_placed hp
  rw [extent_cons] at h
  rw [e, slot_neg_lowered] at hcovers
  exact c.slot_disjoint hbytes (by omega) hcovers hj

end Cpu

namespace Ram

/-- The elements have their places in memory. -/
def Backs (m : Ram) (ps : List (StackElement × UInt32)) : Prop :=
  ∀ p ∈ ps, p.2.toNat + p.1.width.bytes ≤ m.size

/-- The elements are found at their places. -/
def Holds (m : Ram) (ps : List (StackElement × UInt32)) : Prop :=
  ∀ p ∈ ps, m.read p.1.width p.2.toUInt64 = p.1.content

end Ram

namespace System

variable {s t : System δ} {w : Width}

theorem push_eq (s : System δ) (w : Width) (v : UInt32) : s.push w v =
    { s with
      cpu := s.cpu.adjustStack (-w.stride)
      ram := s.ram.write w (s.cpu.slot (-w.stride)).toUInt64 v } := by
  have htop : s.push w v = (s.modifyCpu (·.adjustStack (-w.stride))).writeLinear
      (s.cpu.linear .ss (s.cpu.adjustStack (-w.stride)).stackTop) w v := rfl
  rw [htop, Cpu.stackTop_adjustStack]
  rfl

theorem cpu_push (s : System δ) (w : Width) (v : UInt32) :
    (s.push w v).cpu = s.cpu.lowered w.bytes := by
  rw [push_eq, Cpu.lowered_bytes]

theorem ram_push (s : System δ) (w : Width) (v : UInt32) : (s.push w v).ram =
    s.ram.write w (s.cpu.slot (-UInt32.ofNat w.bytes)).toUInt64 v := by
  rw [push_eq, Width.stride_eq]

theorem peek_eq (s : System δ) (d : UInt32) (w : Width) :
    s.peek d w = s.ram.read w (s.cpu.slot d).toUInt64 := rfl

/-! ## Lists of elements -/

/-- Push elements, the first one first. -/
def pushes (s : System δ) (xs : List StackElement) : System δ :=
  xs.foldl (fun s x => s.push x.width x.value) s

/-- Pop elements of the given widths, and list them as they come. -/
def pops (s : System δ) : List Width → List UInt32 × System δ
  | [] => ([], s)
  | w :: ws =>
    let (v, s) := s.pop w
    let (vs, s) := s.pops ws
    (v :: vs, s)

theorem pushes_cons (s : System δ) (x : StackElement) (xs : List StackElement) :
    s.pushes (x :: xs) = (s.push x.width x.value).pushes xs := rfl

theorem pushes_append (s : System δ) (xs ys : List StackElement) :
    s.pushes (xs ++ ys) = (s.pushes xs).pushes ys := List.foldl_append

theorem cpu_pushes (s : System δ) (xs : List StackElement) :
    (s.pushes xs).cpu = s.cpu.lowered (extent xs) := by
  induction xs generalizing s with
  | nil => exact s.cpu.lowered_zero.symm
  | cons x xs ih => rw [pushes_cons, ih, cpu_push, Cpu.lowered_lowered, extent_cons]

@[simp] theorem io_pushes (s : System δ) (xs : List StackElement) : (s.pushes xs).io = s.io := by
  induction xs generalizing s with
  | nil => rfl
  | cons x xs ih => exact ih _

@[simp] theorem size_pushes (s : System δ) (xs : List StackElement) :
    (s.pushes xs).ram.size = s.ram.size := by
  induction xs generalizing s with
  | nil => rfl
  | cons x xs ih => rw [pushes_cons, ih, ram_push, Ram.size_write]

/-- Bytes outside the elements are as they were. -/
theorem byte_pushes {xs : List StackElement} {j : Nat} (h : ¬ s.cpu.Occupied xs j) :
    (s.pushes xs).ram.byte j = s.ram.byte j := by
  induction xs generalizing s with
  | nil => rfl
  | cons x xs ih =>
    have hfirst : ¬ x.width.Covers (s.cpu.slot (-UInt32.ofNat x.width.bytes)) j :=
      fun hj => h ⟨_, List.mem_cons_self, hj⟩
    have hrest : ¬ (s.push x.width x.value).cpu.Occupied xs j := by
      rw [cpu_push]
      rintro ⟨p, hp, hj⟩
      exact h ⟨p, List.mem_cons_of_mem _ hp, hj⟩
    rw [pushes_cons, ih hrest, ram_push, Ram.byte_write _ hfirst]

/-- Elements that are pushed are found at their places, if these lie in memory and the pointer does
not come around. -/
theorem holds_pushes {xs : List StackElement} (hextent : extent xs ≤ s.cpu.stackWidth.modulus)
    (hram : s.ram.Backs (s.cpu.placed xs)) : (s.pushes xs).ram.Holds (s.cpu.placed xs) := by
  induction xs generalizing s with
  | nil => exact fun p hp => nomatch hp
  | cons x xs ih =>
    have hcpu := s.cpu_push x.width x.value
    intro p hp
    rcases List.mem_cons.1 hp with rfl | hp
    · -- the elements pushed later leave the first one alone
      have hkept : (s.pushes (x :: xs)).ram.read x.width
          (s.cpu.slot (-UInt32.ofNat x.width.bytes)).toUInt64 =
            (s.push x.width x.value).ram.read x.width
              (s.cpu.slot (-UInt32.ofNat x.width.bytes)).toUInt64 := by
        refine Ram.read_congr fun j hj => byte_pushes (s := s.push x.width x.value) ?_
        rw [hcpu]
        exact Cpu.not_occupied_of_covers hextent hj
      rw [hkept, ram_push]
      exact Ram.read_write _ (hram _ List.mem_cons_self)
    · refine ih (s := s.push x.width x.value) ?_ ?_ p ?_
      · rw [hcpu, Cpu.stackWidth_lowered]
        exact Nat.le_trans (Nat.le_add_left _ _) hextent
      · rw [hcpu, ram_push]
        intro q hq
        rw [Ram.size_write]
        exact hram q (List.mem_cons_of_mem _ hq)
      · rw [hcpu]
        exact hp

/-! ## Reading back -/

/-- An element is found as many bytes above the top as the elements after it take. -/
theorem peek_of_holds {c : Cpu} (xs : List StackElement) {x : StackElement}
    (ys : List StackElement) (hcpu : t.cpu = c.lowered (extent (xs ++ x :: ys)))
    (h : t.ram.Holds (c.placed (xs ++ x :: ys))) :
    t.peek (UInt32.ofNat (extent ys)) x.width = x.content := by
  have hextent : extent (xs ++ x :: ys) = extent xs + x.width.bytes + extent ys := by
    rw [extent_append, extent_cons, Nat.add_assoc]
  rw [peek_eq, hcpu, hextent, Cpu.slot_lowered]
  exact h _ (c.mem_placed xs x ys)

/-- The elements come back in reverse order, and the pointer moves back up. -/
theorem pops_of_holds {c : Cpu} (xs : List StackElement) {ys : List StackElement}
    (hcpu : t.cpu = c.lowered (extent (xs ++ ys))) (h : t.ram.Holds (c.placed (xs ++ ys))) :
    t.pops (ys.reverse.map width) =
      (ys.reverse.map content, { t with cpu := c.lowered (extent xs) }) := by
  induction ys using List.reverseRecOn generalizing t with
  | nil =>
    rw [List.append_nil] at hcpu
    rw [← hcpu]
    rfl
  | append_singleton ys y ih =>
    rw [← List.append_assoc] at hcpu h
    have hvalue : t.peek 0 y.width = y.content := peek_of_holds (xs ++ ys) [] hcpu h
    have hback : t.cpu.adjustStack y.width.stride = c.lowered (extent (xs ++ ys)) := by
      rw [hcpu, extent_append, extent_cons, extent_nil, Nat.add_zero, Width.stride_eq,
        Cpu.adjustStack_lowered]
    have hpop : t.pop y.width = (y.content, { t with cpu := c.lowered (extent (xs ++ ys)) }) := by
      rw [← hvalue, peek_zero, ← hback]
      rfl
    have hrest := ih (t := { t with cpu := c.lowered (extent (xs ++ ys)) }) rfl fun p hp =>
      h p (by rw [Cpu.placed_append]; exact List.mem_append_left _ hp)
    rw [List.reverse_append, List.reverse_singleton, List.singleton_append, List.map_cons,
      List.map_cons, pops, hpop]
    dsimp only
    rw [hrest]

/-! ## Last in, first out -/

/-- **The stack is last in, first out.**  Elements that lie in memory, and that take no more bytes
than the stack pointer can tell apart, come back in reverse order, and the pointer with them.  As
long as an element has not been popped, it is found as far above the top as the elements behind it
are long.  Nothing else changes: of the registers only ESP, and of memory only the elements. -/
theorem pops_pushes {xs : List StackElement} (hextent : extent xs ≤ s.cpu.stackWidth.modulus)
    (hram : s.ram.Backs (s.cpu.placed xs)) :
    let t := s.pushes xs
    t.pops (xs.reverse.map width) = (xs.reverse.map content, { t with cpu := s.cpu }) ∧
    (∀ ys x zs us, xs = ys ++ x :: (zs ++ us) →
      (t.pops (us.reverse.map width)).2.peek (UInt32.ofNat (extent zs)) x.width = x.content) ∧
    t.cpu = { s.cpu with gprs := s.cpu.gprs.set .esp t.cpu.gprs.esp } ∧ t.io = s.io ∧
    t.ram.size = s.ram.size ∧ ∀ j, ¬ s.cpu.Occupied xs j → t.ram.byte j = s.ram.byte j := by
  intro t
  have hcpu : t.cpu = s.cpu.lowered (extent xs) := cpu_pushes s xs
  have hholds : t.ram.Holds (s.cpu.placed xs) := holds_pushes hextent hram
  refine ⟨?_, ?_, ?_, io_pushes s xs, size_pushes s xs, fun j hj => byte_pushes hj⟩
  · have hpops := pops_of_holds [] hcpu hholds
    rwa [extent_nil, Cpu.lowered_zero] at hpops
  · rintro ys x zs us rfl
    have hsplit : ys ++ x :: (zs ++ us) = (ys ++ x :: zs) ++ us := by
      rw [List.append_assoc, List.cons_append]
    rw [hsplit] at hcpu hholds
    rw [pops_of_holds (ys ++ x :: zs) hcpu hholds]
    refine peek_of_holds ys zs rfl fun p hp => hholds p ?_
    rw [Cpu.placed_append]
    exact List.mem_append_left _ hp
  · rw [hcpu]
    rfl

/-- A system whose stack pointer comes around as elements are pushed. -/
def shortStack : System Unit where
  cpu := { Cpu.reset with gprs := { esp := 0xABCD0003 } }
  ram := Ram.zeroed 0x20000
  io := Io.init ()

/-- Three elements, of which the first one begins at the last offset of the stack. -/
theorem pops_pushes_shortStack :
    let xs : List StackElement := [⟨.dword, 0x11223344⟩, ⟨.word, 0xDEADBEEF⟩, ⟨.dword, 0x55667788⟩]
    let s := shortStack
    let t := s.pushes xs
    extent xs ≤ s.cpu.stackWidth.modulus ∧ s.ram.Backs (s.cpu.placed xs) ∧
      s.cpu.placed xs = [(⟨.dword, 0x11223344⟩, 0xFFFF), (⟨.word, 0xDEADBEEF⟩, 0xFFFD),
        (⟨.dword, 0x55667788⟩, 0xFFF9)] ∧
      t.pops [.dword, .word, .dword] =
        ([0x55667788, 0xBEEF, 0x11223344], { t with cpu := s.cpu }) ∧
      t.peek 6 .dword = 0x11223344 := by
  intro xs s t
  have hextent : extent xs ≤ s.cpu.stackWidth.modulus := by decide +kernel
  have hplaced : s.cpu.placed xs = [(⟨.dword, 0x11223344⟩, 0xFFFF), (⟨.word, 0xDEADBEEF⟩, 0xFFFD),
      (⟨.dword, 0x55667788⟩, 0xFFF9)] := by decide +kernel
  have hram : s.ram.Backs (s.cpu.placed xs) := by
    rw [hplaced]
    have hsize : s.ram.size = 0x20000 := Ram.size_zeroed _
    intro p hp
    rw [hsize]
    simp only [List.mem_cons, List.not_mem_nil, or_false] at hp
    rcases hp with rfl | rfl | rfl <;> decide
  obtain ⟨hpops, hpeek, -⟩ := pops_pushes hextent hram
  have hfirst : t.peek 6 .dword = 0x11223344 :=
    hpeek [] _ [⟨.word, 0xDEADBEEF⟩, ⟨.dword, 0x55667788⟩] [] rfl
  exact ⟨hextent, hram, hplaced, hpops, hfirst⟩

end System

end Ia32
