/-
  Repeated moves, stores and loads.

  Main statements:
  - `StringOp.stored_movs`, `StringOp.stored_stos` : what the destination holds
  - `StringOp.loaded_lods` : what the accumulator holds
  - `Exec.run_repeated_move`
-/
import Ia32.Proofs.Elements

namespace Ia32

variable {δ : Type} {i : Instruction} {p : Repeat}

namespace StringOp

/-- Moves, stores and loads leave the ports alone. -/
theorem io_of_moves {o : StringOp} (ho : o = .movs ∨ o = .stos ∨ o = .lods) (n : Nat)
    (s : System δ) : (o.repetition i p n s).io = s.io := by
  have hcompares : o.compares = false := by rcases ho with rfl | rfl | rfl <;> rfl
  refine repetition_all (P := fun _ t => t.io = s.io) hcompares rfl fun k t _ ht => ?_
  rw [← ht]
  rcases ho with rfl | rfl | rfl <;> rfl

variable {s : System δ}

/-- If the source does not overlap the destination, it is copied as it was in the beginning. -/
theorem stored_movs (hroom : s.HasRoom i (s.cpu.repeatCount i))
    (hapart : ∀ j < s.cpu.repeatCount i, ∀ k < s.cpu.repeatCount i, ∀ b,
      i.dataWidth.Covers (s.cpu.sourceAddress i j) b →
        ¬ i.dataWidth.Covers (s.cpu.destinationAddress i k) b) :
    s.Stored i (s.sourceElement i) (s.cpu.repeatCount i)
      (movs.repetition i p (s.cpu.repeatCount i) s) := by
  refine repetition_walked rfl (.refl _ _ _ _) fun k t hk hwalked hstored => ?_
  have hsource : t.readLinear (s.cpu.sourceAddress i k) i.dataWidth = s.sourceElement i k :=
    Ram.Filled.read_of_disjoint hstored fun j hj => hapart k hk j (Nat.lt_trans hj hk)
  refine hroom.stored hk hstored (x := s.sourceElement i k) (Ram.truncate_read _ _ _) ?_
  rw [← hsource, ← hwalked.source rfl, ← hwalked.destination rfl]
  rfl

theorem stored_stos (hroom : s.HasRoom i (s.cpu.repeatCount i)) :
    s.Stored i (fun _ => s.cpu.low .eax i.dataWidth) (s.cpu.repeatCount i)
      (stos.repetition i p (s.cpu.repeatCount i) s) := by
  refine repetition_walked rfl (.refl _ _ _ _) fun k t hk hwalked hstored => ?_
  have heax : t.cpu.low .eax i.dataWidth = s.cpu.low .eax i.dataWidth := by
    have heax := hwalked.gprs .eax (.inr StringOp.noConfusion)
    rw [Cpu.low, Gprs.low, heax]
    rfl
  refine hroom.stored hk hstored (x := s.cpu.low .eax i.dataWidth) (Width.truncate_truncate _ _) ?_
  rw [← hwalked.destination rfl, ← heax]
  rfl

/-- The accumulator after `k` elements have been loaded. -/
def loadedAfter (i : Instruction) (s : System δ) : Nat → UInt32
  | 0 => s.cpu.gprs.eax
  | k + 1 => i.dataWidth.merge s.cpu.gprs.eax (s.sourceElement i k)

/-- Loads leave memory as it is, and the last element in the accumulator. -/
theorem loaded_lods (s : System δ) :
    (lods.repetition i p (s.cpu.repeatCount i) s).ram = s.ram ∧
      (lods.repetition i p (s.cpu.repeatCount i) s).cpu.gprs.eax =
        loadedAfter i s (s.cpu.repeatCount i) := by
  refine repetition_walked (P := fun k t => t.ram = s.ram ∧ t.cpu.gprs.eax = loadedAfter i s k) rfl
    ⟨rfl, rfl⟩ fun k t _ hwalked ⟨hram, heax⟩ => ⟨hram, ?_⟩
  change i.dataWidth.merge t.cpu.gprs.eax (t.read _ _ _) = _
  rw [System.read_source hwalked rfl hram, heax]
  cases k with
  | zero => rfl
  | succ k => exact Width.merge_merge _ _ _ _

end StringOp

/-- **Repeated moves, stores and loads** take all elements. -/
theorem Exec.run_repeated_move {o : StringOp} (hi : i.Repeats o p)
    (ho : o = .movs ∨ o = .stos ∨ o = .lods) (next : UInt32) (s : System δ) :
    let n := s.cpu.repeatCount i
    ∃ t, (i.perform next).run s = .ok .next t ∧
      t.cpu = { s.cpu with gprs := t.cpu.gprs } ∧ t.io = s.io ∧ t.cpu.repeatCount i = 0 ∧
      (∀ r, r ≠ .eax ∨ o ≠ .lods → t.cpu.gprs.get r = o.registersAfter i s.cpu n n r) ∧
      (o = .lods → t.ram = s.ram ∧ t.cpu.gprs.eax = StringOp.loadedAfter i s n) ∧
      (s.HasRoom i n →
        (o = .movs →
          (∀ j < n, ∀ k < n, ∀ b, i.dataWidth.Covers (s.cpu.sourceAddress i j) b →
            ¬ i.dataWidth.Covers (s.cpu.destinationAddress i k) b) →
          s.Stored i (s.sourceElement i) n t) ∧
        (o = .stos → s.Stored i (fun _ => s.cpu.low .eax i.dataWidth) n t)) := by
  have hcompares : o.compares = false := by rcases ho with rfl | rfl | rfl <;> rfl
  have hwalked := StringOp.walked_repetition (p := p) (i := i) hcompares s
  refine ⟨_, run_perform_of_repeats hi next s, StringOp.cpu_repetition hcompares s,
    StringOp.io_of_moves ho _ s, hwalked.repeatCount.trans (Nat.sub_self _), hwalked.gprs, ?_,
    fun hroom => ⟨?_, ?_⟩⟩
  · rintro rfl
    exact StringOp.loaded_lods s
  · rintro rfl
    exact StringOp.stored_movs hroom
  · rintro rfl
    exact StringOp.stored_stos hroom

/-- The instruction `rep movsb`. -/
def copyBytes : Instruction :=
  { Instruction.ofOperands (.string .movs) [] 2 with
    dataWidth := .byte
    prefixes := { rep := some .rep } }

/-- A system in real mode with five letters at address 100, to be copied to address 200. -/
def greeting : System Unit where
  cpu := { Cpu.reset with gprs := { ecx := 5, esi := 0x100, edi := 0x200 } }
  ram := (Ram.zeroed 0x1000).writeBytes 0x100 [0x68, 0x65, 0x6C, 0x6C, 0x6F]
  io := Io.init ()

/-- The copy lies behind the original, and the registers point past both. -/
theorem Exec.run_repeated_move_greeting :
    copyBytes.Repeats .movs .rep ∧ greeting.cpu.repeatCount copyBytes = 5 ∧
      greeting.HasRoom copyBytes 5 ∧
      ∃ t, (copyBytes.perform 2).run greeting = .ok .next t ∧
        (∀ k < 5, t.readLinear (0x200 + UInt32.ofNat k) .byte =
          greeting.readLinear (0x100 + UInt32.ofNat k) .byte) ∧
        t.cpu.gprs.esi = 0x105 ∧ t.cpu.gprs.edi = 0x205 ∧ t.cpu.gprs.ecx = 0 := by
  have hrepeats : copyBytes.Repeats .movs .rep := ⟨rfl, rfl, rfl⟩
  have hroom : greeting.HasRoom copyBytes 5 := ⟨by decide, by decide +kernel⟩
  have hsource : ∀ k < 5, greeting.cpu.sourceAddress copyBytes k = 0x100 + UInt32.ofNat k := by
    decide +kernel
  have hdestination :
      ∀ k < 5, greeting.cpu.destinationAddress copyBytes k = 0x200 + UInt32.ofNat k := by
    decide +kernel
  obtain ⟨t, hrun, -, -, -, hgprs, -, hstored⟩ :=
    Exec.run_repeated_move hrepeats (.inl rfl) 2 greeting
  refine ⟨hrepeats, rfl, hroom, t, hrun, fun k hk => ?_, hgprs .esi (.inl nofun),
    hgprs .edi (.inl nofun), hgprs .ecx (.inl nofun)⟩
  have hapart : ∀ j < 5, ∀ k < 5, ∀ b,
      copyBytes.dataWidth.Covers (greeting.cpu.sourceAddress copyBytes j) b →
        ¬ copyBytes.dataWidth.Covers (greeting.cpu.destinationAddress copyBytes k) b := by
    intro j hj k hk b hb hb'
    have hbefore : ∀ j < 5, ∀ k < 5,
        (0x100 + UInt32.ofNat j).toNat + 1 ≤ (0x200 + UInt32.ofNat k).toNat := by decide +kernel
    rw [hsource j hj] at hb
    rw [hdestination k hk] at hb'
    exact absurd (Nat.lt_of_lt_of_le hb.2 (hbefore j hj k hk)) (Nat.not_lt.2 hb'.1)
  have hcopied := ((hstored hroom).1 rfl hapart).inside k hk
  rwa [hdestination k hk, System.sourceElement, hsource k hk] at hcopied

end Ia32
