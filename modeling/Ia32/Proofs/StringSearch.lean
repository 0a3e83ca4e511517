/-
  Repeated comparisons and scans: they stop at the first hit.

  Main definitions:
  - `StringOp.comparand` : what an element of the destination is compared with
  - `StringOp.Hit` : a comparison that ends the repetition

  Main statements:
  - `StringOp.Compared.counted` : one comparison more
  - `StringOp.compared_repetition` : the state in which a repetition of comparisons ends
  - `Exec.run_repeated_comparison`
-/
import Ia32.Proofs.Elements
import Ia32.Proofs.Sums

namespace Ia32

variable {δ : Type} {i : Instruction} {o : StringOp} {p : Repeat} {s t : System δ} {n k : Nat}

/-! ## Comparisons -/

namespace StringOp

/-- What element number `k` of the destination is compared with. -/
def comparand (o : StringOp) (i : Instruction) (s : System δ) (k : Nat) : UInt32 :=
  if o.readsSource then s.sourceElement i k else s.cpu.low .eax i.dataWidth

/-- Comparison number `k` ends the repetition. -/
def Hit (o : StringOp) (i : Instruction) (p : Repeat) (s : System δ) (k : Nat) : Prop :=
  match p with
  | .rep => o.comparand i s k ≠ s.destinationElement i k
  | .repne => o.comparand i s k = s.destinationElement i k

/-- The flags after comparison number `k`. -/
def comparison (o : StringOp) (i : Instruction) (s : System δ) (k : Nat) : Flags :=
  (Alu.sub s.cpu.flags i.dataWidth (o.comparand i s k) (s.destinationElement i k) false).2

theorem truncate_comparand (o : StringOp) (i : Instruction) (s : System δ) (k : Nat) :
    i.dataWidth.truncate (o.comparand i s k) = o.comparand i s k := by
  unfold comparand
  split_ifs
  · exact Ram.truncate_read _ _ _
  · exact Width.truncate_truncate _ _

/-- After a hit, the repetition does not go on. -/
theorem goesOn_comparison (ho : o.compares = true) (p : Repeat) (s : System δ) (k : Nat) :
    o.goesOn p (o.comparison i s k) = true ↔ ¬ o.Hit i p s k := by
  have hzero : (o.comparison i s k).zero = true ↔
      o.comparand i s k = s.destinationElement i k := by
    rw [comparison, Alu.zero_sub, truncate_comparand, System.destinationElement, System.readLinear,
      Ram.truncate_read]
  have hgoes : o.goesOn p (o.comparison i s k) =
      match p with
      | .rep => (o.comparison i s k).zero
      | .repne => !(o.comparison i s k).zero := by
    cases o with
    | cmps | scas => cases p <;> rfl
    | _ => cases ho
  rw [hgoes]
  cases p with
  | rep => exact hzero.trans not_not.symm
  | repne =>
    change (!(o.comparison i s k).zero) = true ↔ ¬ o.comparand i s k = s.destinationElement i k
    rw [Bool.not_eq_true', ← Bool.not_eq_true, hzero]

/-! ## Repetition -/

/-- The state `t` is what `k` comparisons leave of `s`, of which none but the last is a hit. -/
structure Compared (o : StringOp) (i : Instruction) (p : Repeat) (s : System δ) (k : Nat)
    (t : System δ) : Prop where
  walked : o.Walked i s.cpu (s.cpu.repeatCount i) k t.cpu
  ram : t.ram = s.ram
  io : t.io = s.io
  flags : t.cpu.flags = if k = 0 then s.cpu.flags else o.comparison i s (k - 1)
  before : ∀ j, j + 1 < k → ¬ o.Hit i p s j

/-- The flags after one more comparison. -/
theorem flags_counted (ho : o.compares = true) (h : o.Compared i p s k t) (m : Nat) :
    (o.counted i m t).cpu.flags = o.comparison i s k := by
  have hflags (x y : UInt32) : (Alu.sub t.cpu.flags i.dataWidth x y false).2 =
      (Alu.sub s.cpu.flags i.dataWidth x y false).2 := by
    rw [h.flags]
    split_ifs <;> rfl
  have hdestination : o.usesDestination = true := by cases o <;> first | rfl | cases ho
  have hy : t.read .es (t.cpu.low .edi i.addressSize.width) i.dataWidth =
      s.destinationElement i k := by
    rw [System.read, h.walked.destination hdestination, System.readLinear, h.ram]
    rfl
  cases o with
  | cmps =>
    change (Alu.sub t.cpu.flags i.dataWidth (t.read _ _ _) (t.read _ _ _) false).2 = _
    rw [hflags, System.read_source h.walked rfl h.ram, hy]
    rfl
  | scas =>
    have hx : t.cpu.gprs.get .eax = s.cpu.gprs.get .eax :=
      h.walked.gprs .eax (.inr StringOp.noConfusion)
    change (Alu.sub t.cpu.flags i.dataWidth (t.cpu.low .eax _) (t.read _ _ _) false).2 = _
    rw [hflags, Cpu.low, Gprs.low, hx, hy]
    rfl
  | _ => cases ho

/-- One comparison more, if the last one was no hit. -/
theorem Compared.counted (ho : o.compares = true) (h : o.Compared i p s k t)
    (hgo : 0 < k → o.goesOn p t.cpu.flags = true) :
    o.Compared i p s (k + 1) (o.counted i (s.cpu.repeatCount i - (k + 1)) t) where
  walked := walked_counted h.walked
  ram := by
    rw [← h.ram]
    cases o <;> first | rfl | cases ho
  io := by
    rw [← h.io]
    cases o <;> first | rfl | cases ho
  flags := flags_counted ho h _
  before j hj := by
    rcases Nat.lt_or_ge (j + 1) k with hlt | hge
    · exact h.before j hlt
    · obtain rfl : k = j + 1 := by omega
      have hlast := hgo (Nat.succ_pos j)
      rw [h.flags] at hlast
      exact (goesOn_comparison ho p s j).1 hlast

/-- A repetition of comparisons ends at the first hit, or after the last comparison. -/
theorem compared_repetition (ho : o.compares = true) (s : System δ) (hn : 0 < s.cpu.repeatCount i) :
    ∃ k < s.cpu.repeatCount i, (o.Hit i p s k ∨ k + 1 = s.cpu.repeatCount i) ∧
      o.Compared i p s (k + 1) (o.repetition i p (s.cpu.repeatCount i) s) := by
  have hstart : o.Compared i p s 0 s :=
    ⟨walked_start o i s.cpu, rfl, rfl, rfl, fun j hj => absurd hj (Nat.not_lt_zero _)⟩
  obtain ⟨k, hk, hcompared, hend⟩ := repetition_induction (p := p) hstart
    fun k t _ ht hgo => ht.counted ho hgo
  have hpos : 0 < k := by omega
  obtain ⟨k, rfl⟩ := Nat.exists_eq_succ_of_ne_zero (Nat.pos_iff_ne_zero.1 hpos)
  refine ⟨k, hk, hend.symm.imp_left fun hstop => ?_, hcompared⟩
  rw [hcompared.flags] at hstop
  by_contra hmiss
  exact absurd ((goesOn_comparison ho p s k).2 hmiss) (Bool.eq_false_iff.1 hstop.2)

end StringOp

/-- **Repeated comparisons and scans** stop at the first hit. -/
theorem Exec.run_repeated_comparison (hi : i.Repeats o p) (ho : o = .cmps ∨ o = .scas)
    (next : UInt32) (s : System δ) :
    let n := s.cpu.repeatCount i
    ∃ t, (i.perform next).run s = .ok .next t ∧ (n = 0 → t = s) ∧
      (0 < n → ∃ k < n, (∀ j < k, ¬ o.Hit i p s j) ∧ (o.Hit i p s k ∨ k = n - 1) ∧
        t = { s with cpu := { s.cpu with gprs := t.cpu.gprs, flags := o.comparison i s k } } ∧
        t.cpu.repeatCount i = n - k - 1 ∧
        ∀ r, t.cpu.gprs.get r = o.registersAfter i s.cpu n (k + 1) r) := by
  have hcompares : o.compares = true := by rcases ho with rfl | rfl <;> rfl
  refine ⟨_, run_perform_of_repeats hi next s, fun hn => ?_, fun hn => ?_⟩
  · rw [hn]
    rfl
  · obtain ⟨k, hk, hend, hcompared⟩ := StringOp.compared_repetition (p := p) hcompares s hn
    refine ⟨k, hk, fun j hj => hcompared.before j (Nat.succ_lt_succ hj), hend.imp_right (by omega),
      ?_, hcompared.walked.repeatCount, fun r => hcompared.walked.gprs r (.inr ?_)⟩
    · have hrest := hcompared.walked.rest
      rw [hcompared.flags] at hrest
      generalize o.repetition i p (s.cpu.repeatCount i) s = t at *
      obtain ⟨c, m, io⟩ := t
      obtain rfl : m = s.ram := hcompared.ram
      obtain rfl : io = s.io := hcompared.io
      exact congrArg (System.mk · s.ram s.io) hrest
    · rcases ho with rfl | rfl <;> nofun

/-- The instruction `repe cmpsb`. -/
def compareBytes : Instruction :=
  { Instruction.ofOperands (.string .cmps) [] 2 with
    dataWidth := .byte
    prefixes := { rep := some .rep } }

/-- A system in real mode with six letters at address 100 and six more at address 200, which differ
in the fourth.  Ten are to be compared. -/
def misspelling : System Unit where
  cpu := { Cpu.reset with gprs := { ecx := 10, esi := 0x100, edi := 0x200 } }
  ram := ((Ram.zeroed 0x1000).writeBytes 0x100 [0x61, 0x62, 0x63, 0x58, 0x65, 0x66]).writeBytes 0x200
    [0x61, 0x62, 0x63, 0x59, 0x65, 0x66]
  io := Io.init ()

/-- The comparison ends at the fourth letter. -/
theorem Exec.run_repeated_comparison_misspelling :
    compareBytes.Repeats .cmps .rep ∧ misspelling.cpu.repeatCount compareBytes = 10 ∧
      ∃ t, (compareBytes.perform 2).run misspelling = .ok .next t ∧
        t.cpu.flags.zero = false ∧ t.cpu.flags.carry = true ∧ t.cpu.gprs.esi = 0x104 ∧
        t.cpu.gprs.edi = 0x204 ∧ t.cpu.gprs.ecx = 6 := by
  have hrepeats : compareBytes.Repeats .cmps .rep := ⟨rfl, rfl, rfl⟩
  obtain ⟨t, hrun, -, hsearch⟩ :=
    Exec.run_repeated_comparison hrepeats (.inl rfl) 2 misspelling
  obtain ⟨k, hk, hbefore, hend, ht, -, hgprs⟩ := hsearch (by decide)
  have hmiss : ∀ j < 3, misspelling.sourceElement compareBytes j =
      misspelling.destinationElement compareBytes j := by decide +kernel
  have hhit : misspelling.sourceElement compareBytes 3 ≠
      misspelling.destinationElement compareBytes 3 := by decide +kernel
  obtain rfl : k = 3 := by
    rcases Nat.lt_trichotomy k 3 with hlt | rfl | hgt
    · rcases hend with hit | rfl
      · exact absurd (hmiss k hlt) hit
      · exact absurd hlt (by decide)
    · rfl
    · exact absurd hhit (hbefore 3 hgt)
  have hflags : t.cpu.flags = StringOp.cmps.comparison compareBytes misspelling 3 := by rw [ht]
  refine ⟨hrepeats, rfl, t, hrun, ?_, ?_, hgprs .esi, hgprs .edi, hgprs .ecx⟩
  · rw [hflags]
    decide +kernel
  · rw [hflags]
    decide +kernel

end Ia32
