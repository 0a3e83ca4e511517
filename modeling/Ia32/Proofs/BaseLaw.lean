/-
  Where the bases of segments come from.

  A selector that is loaded in real mode stands for the window at sixteen times its value.  A
  register keeps what it was loaded with until it is loaded again, and not only as long as the mode
  stays the same: in real mode it may still stand for a segment out of a table.

  Main definitions:
  - `Machine.Follows` : one machine comes directly after another
  - `Machine.LoadedIn` : the mode in which a register was last loaded
  - `Machine.returning` : a guest that loads a register in protected mode and comes back

  Main statements:
  - `Machine.segment_of_follows` : a register is kept or loaded, in the mode that is then in force
  - `Machine.loads_of_loadedIn` : a register holds what can be loaded in that mode
  - `Machine.base_of_reachable` : in a reachable machine, it was loaded in one of both modes, and if
    this was real mode then its base is sixteen times the selector
  - `Machine.returning_base` : otherwise it need not be, in real mode either
-/
import Ia32.Proofs.Reachable

namespace Ia32

variable {δ : Type}

/-! ## Loads along a run -/

theorem System.segment_of_cycled {s t : System δ} {e : CycleExit} (h : Cycled s e t)
    (n : SegmentName) :
    t.cpu.segment n = s.cpu.segment n ∨ n.Loads t.cpu.protectedMode (t.cpu.segment n) := by
  cases h with
  | idle => exact .inl rfl
  | interrupted _ moved => exact moved.segment n
  | @retired i u _ kept =>
    refine (kept.segments n).imp id fun hn => ?_
    show n.Loads u.cpu.protectedMode (u.cpu.segment n)
    rw [kept.mode]
    exact hn.2
  | branched _ moved => exact moved.segment n
  | halted => exact .inl rfl

theorem FaultResidue.segment {s t : System δ} (h : FaultResidue s t) (n : SegmentName) :
    t.cpu.segment n = s.cpu.segment n := by
  rcases h.cpu with e | e
  · rw [e]
  · rw [e]
    rfl

theorem System.segment_of_turned {s t : System δ} (h : Turned s t) (n : SegmentName) :
    t.cpu.segment n = s.cpu.segment n ∨ n.Loads t.cpu.protectedMode (t.cpu.segment n) := by
  cases h with
  | cycled hc => exact segment_of_cycled hc n
  | faulted hr => exact .inl (hr.segment n)
  | refused hr hr' => exact .inl ((hr'.segment n).trans (hr.segment n))
  | @entered v u _ hr hd =>
    rw [← hr.segment n]
    exact (Exec.transfers_deliver v _ u () t hd).segment n

namespace Machine

/-- Machine `m'` comes directly after `m`: by a cycle, by a turn of a run, by a reset, or by a
change to anything but the registers. -/
inductive Follows : Machine δ → Machine δ → Prop
  | step (m : Machine δ) : Follows m m.step.2
  | turn (m : Machine δ) : Follows m m.turn.2
  | reset (m : Machine δ) : Follows m m.reset
  | edit {m m' : Machine δ} (hcpu : m'.system.cpu = m.system.cpu) : Follows m m'

variable {m m' : Machine δ} {n : SegmentName} {b : Bool}

/-- A register that is changed is loaded, in the mode that is in force afterwards. -/
theorem segment_of_follows (h : m.Follows m') (n : SegmentName) :
    m'.system.cpu.segment n = m.system.cpu.segment n ∨
      n.Loads m'.system.cpu.protectedMode (m'.system.cpu.segment n) := by
  cases h with
  | step => exact System.segment_of_turned m.turned_step n
  | turn => exact System.segment_of_turned m.turned_turn n
  | reset =>
    right
    cases n <;> rfl
  | edit hcpu =>
    left
    rw [hcpu]

/-- Register `n` was last loaded in protected mode, or in real mode if the last argument is false.
New machines have been set up in real mode. -/
inductive LoadedIn : Machine δ → SegmentName → Bool → Prop
  | create {c : MachineConfig} {devices : δ} {m : Machine δ} {n : SegmentName}
      (h : create? c devices = .ok m) : LoadedIn m n false
  | kept {m m' : Machine δ} {n : SegmentName} {b : Bool} (h : LoadedIn m n b) (next : m.Follows m')
      (same : m'.system.cpu.segment n = m.system.cpu.segment n) : LoadedIn m' n b
  | loaded {m m' : Machine δ} {n : SegmentName} {b : Bool} (h : LoadedIn m n b)
      (next : m.Follows m') (differs : m'.system.cpu.segment n ≠ m.system.cpu.segment n) :
      LoadedIn m' n m'.system.cpu.protectedMode

/-- The register is either kept or loaded. -/
theorem LoadedIn.follows (h : m.LoadedIn n b) (next : m.Follows m') : ∃ b', m'.LoadedIn n b' := by
  by_cases same : m'.system.cpu.segment n = m.system.cpu.segment n
  · exact ⟨b, h.kept next same⟩
  · exact ⟨_, h.loaded next same⟩

/-- Whatever mode is in force, the register holds what can be loaded in the mode in which it was. -/
theorem loads_of_loadedIn (h : m.LoadedIn n b) : n.Loads b (m.system.cpu.segment n) := by
  induction h with
  | @create c devices m n h =>
    rw [cpu_of_create h]
    cases n <;> rfl
  | kept _ _ same ih =>
    rw [same]
    exact ih
  | loaded _ next differs _ => exact (segment_of_follows next _).resolve_left differs

theorem loadedIn_of_reachable (h : m.Reachable) (n : SegmentName) : ∃ b, m.LoadedIn n b := by
  induction h with
  | create h => exact ⟨false, .create h⟩
  | @step m _ ih =>
    obtain ⟨b, hb⟩ := ih
    exact hb.follows (.step m)
  | @run m _ k ih =>
    refine run_induction (P := fun m => ∃ b, m.LoadedIn n b) ?_ ih k
    rintro x ⟨b, hb⟩
    exact hb.follows (.turn x)
  | request _ v ih =>
    obtain ⟨b, hb⟩ := ih
    exact hb.follows (.edit rfl)
  | @reset m _ ih =>
    obtain ⟨b, hb⟩ := ih
    exact hb.follows (.reset m)
  | edit _ hcpu ih =>
    obtain ⟨b, hb⟩ := ih
    exact hb.follows (.edit hcpu)

/-- **Bases of segments.**  Every register of a reachable machine was last loaded in real or in
protected mode; if it was real mode, then offsets count from sixteen times its selector, whatever
mode is in force. -/
theorem base_of_reachable (h : m.Reachable) (n : SegmentName) :
    (m.LoadedIn n false ∨ m.LoadedIn n true) ∧
      (m.LoadedIn n false →
        (m.system.cpu.segment n).descriptor.base = (m.system.cpu.selector n).toUInt32 <<< 4 ∧
        ∀ offset, m.system.cpu.linear n offset =
          (m.system.cpu.selector n).toUInt32 <<< 4 + offset) := by
  constructor
  · obtain ⟨b, hb⟩ := loadedIn_of_reachable h n
    cases b with
    | false => exact .inl hb
    | true => exact .inr hb
  · intro hreal
    have hwindow : m.system.cpu.segment n = .realMode (m.system.cpu.selector n) (n == .cs) :=
      loads_of_loadedIn hreal
    have hbase : (m.system.cpu.segment n).descriptor.base =
        (m.system.cpu.selector n).toUInt32 <<< 4 := by
      rw [hwindow]
      rfl
    refine ⟨hbase, fun offset => ?_⟩
    rw [Cpu.linear, hbase]

/-! ## A guest that comes back -/

/-- A machine that starts at address 0, with a guest that sets up a table of two entries, goes to
protected mode, loads DS there with the second one, which has base 0x500, and goes back. -/
def returning : Machine Unit where
  config := { memorySize := realModeSpan, resetVector := ⟨0, 0⟩ }
  system :=
    { cpu := Cpu.reset.jump ⟨.realMode 0 true, 0⟩
      ram := (((Ram.zeroed realModeSpan).writeBytes 0
        [0x0F, 0x01, 0x16, 0x30, 0x00,  -- lgdt [0x30]
         0x0C, 0x01,                    -- or al, 1
         0x0F, 0x22, 0xC0,              -- mov cr0, eax
         0xEB, 0x00,                    -- jmp to the next instruction
         0xB0, 0x08,                    -- mov al, 8
         0x8E, 0xD8,                    -- mov ds, ax
         0x0F, 0x22, 0xC0,              -- mov cr0, eax
         0xEB, 0x00]).writeBytes 0x30   -- jmp to the next instruction
        [0x0F, 0x00, 0x40, 0x00, 0x00, 0x00]).writeBytes 0x48
        [0xFF, 0xFF, 0x00, 0x05, 0x00, 0x92, 0x00, 0x00]
      io := Io.init () }
  breakpoints := ∅
  gateOpen := true

theorem reachable_returning : returning.Reachable := by
  obtain ⟨m, hm, hcpu⟩ : ∃ m : Machine Unit, create? returning.config () = .ok m ∧
      returning.system.cpu = m.system.cpu := ⟨_, rfl, rfl⟩
  exact .edit (.create hm) hcpu

/-- The guest is back in real mode, but DS still stands for the segment out of its table. -/
theorem returning_base :
    let m := (returning.run 8).2
    m.Reachable ∧ m.system.cpu.protectedMode = false ∧ m.system.cpu.selector .ds = 8 ∧
      (m.system.cpu.segment .ds).descriptor.base = 0x500 ∧
      ¬ (m.system.cpu.segment .ds).descriptor.base = (m.system.cpu.selector .ds).toUInt32 <<< 4 ∧
      ¬ m.system.cpu.linear .ds 0 = (m.system.cpu.selector .ds).toUInt32 <<< 4 + 0 := by
  intro m
  refine ⟨reachable_returning.run 8, ?_⟩
  decide +kernel

/-- DS is loaded in real mode at first, and in the end in protected mode. -/
theorem base_of_returning :
    let m := (returning.run 8).2
    returning.Reachable ∧ returning.LoadedIn .ds false ∧
      (∀ offset, returning.system.cpu.linear .ds offset =
        (returning.system.cpu.selector .ds).toUInt32 <<< 4 + offset) ∧
      m.Reachable ∧ ¬ m.LoadedIn .ds false ∧ m.LoadedIn .ds true := by
  intro m
  obtain ⟨m₀, hm₀, hcpu⟩ : ∃ m₀ : Machine Unit, create? returning.config () = .ok m₀ ∧
      returning.system.cpu = m₀.system.cpu := ⟨_, rfl, rfl⟩
  have hstart : returning.LoadedIn .ds false :=
    .kept (.create hm₀) (.edit hcpu) (congrArg (·.segment .ds) hcpu)
  have hlater : m.Reachable := reachable_returning.run 8
  have hleft : ¬ m.LoadedIn .ds false := by
    intro hreal
    have hbase := ((base_of_reachable hlater .ds).2 hreal).1
    revert hbase
    decide +kernel
  exact ⟨reachable_returning, hstart, ((base_of_reachable reachable_returning .ds).2 hstart).2,
    hlater, hleft, (base_of_reachable hlater .ds).1.resolve_left hleft⟩

end Machine

end Ia32
