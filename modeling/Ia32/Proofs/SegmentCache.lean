/-
  The registers are sound in every reachable machine: whatever the guest does to its tables, each
  segment register caches a descriptor that it accepts.

  Main definitions:
  - `Cpu.Sound`

  Main statements:
  - `Cpu.kept_sound` : soundness is kept by cycles and resets
  - `Machine.sound_of_reachable`
-/
import Ia32.Proofs.Flags
import Ia32.Proofs.Reachable

namespace Ia32

variable {δ : Type}

/-- Every segment register caches what it accepts, EIP lies within the size of the code segment,
and of the flags only defined ones are set, without the resume and virtual-8086 flags. -/
structure Cpu.Sound (c : Cpu) : Prop where
  segments : ∀ n, (c.segment n).descriptor.Fits n
  eip : c.eip ≤ c.ipMask
  flags : c.flags.bits ||| Flags.defined = Flags.defined
  resume : c.flags.resume = false
  virtual8086 : c.flags.virtual8086 = false

namespace Cpu

theorem sound_jump_reset (v : ResetVector) :
    (reset.jump ⟨.realMode v.segment true, v.offset.toUInt32⟩).Sound where
  segments n := by
    cases n
    case cs => exact Descriptor.fits_realMode .cs v.segment
    case ss => exact Descriptor.fits_realMode .ss 0
    all_goals exact Descriptor.fits_realMode .ds 0
  eip := UInt16.toUInt32_le_max v.offset
  flags := Flags.bits_or_defined _
  resume := rfl
  virtual8086 := rfl

/-- EIP stays within the segment, both when an instruction has been carried out and when control
has been transferred. -/
theorem kept_sound : Kept δ Sound where
  reset := sound_jump_reset
  sampled c h := ⟨h.segments, h.eip, h.flags, h.resume, h.virtual8086⟩
  moved s t ht _ hs := by
    constructor
    case segments =>
      intro n
      rcases ht.segment n with e | hloads
      · rw [e]; exact hs.segments n
      · exact hloads.fits
    case eip => exact ht.eip
    case flags => exact Flags.bits_or_defined _
    case resume =>
      have hresume := hs.resume
      cases hr : t.cpu.flags.resume with
      | false => rfl
      | true => rw [ht.resume hr] at hresume; cases hresume
    case virtual8086 => exact ht.virtual8086.trans hs.virtual8086
  retired s t i _ ht hs := by
    constructor
    case segments =>
      intro n
      rcases ht.segments n with e | ⟨-, hloads⟩
      · exact e ▸ hs.segments n
      · exact hloads.fits
    case eip =>
      have hmask : t.cpu.ipMask = s.cpu.ipMask :=
        congrArg (fun g : Segment => if g.descriptor.wide then 0xFFFFFFFF else 0xFFFF) ht.code
      change s.cpu.nextOffset i.length ≤ t.cpu.ipMask
      rw [hmask]
      exact UInt32.and_le _ _
    case flags => exact Flags.bits_or_defined _
    case resume => exact ht.resume.trans hs.resume
    case virtual8086 => exact ht.virtual8086.trans hs.virtual8086
  halted s i _ _ hs := ⟨hs.segments, UInt32.and_le _ _, hs.flags, hs.resume, hs.virtual8086⟩

end Cpu

/-- **The registers of a reachable machine are sound.** -/
theorem Machine.sound_of_reachable {m : Machine δ} (h : m.Reachable) : m.system.cpu.Sound :=
  Cpu.kept_sound.of_reachable h

/-- A machine that has run from its reset vector. -/
theorem Machine.sound_run : ∃ m : Machine Unit, Machine.create? {} () = .ok m ∧
    (m.run 1000).2.Reachable ∧ (m.run 1000).2.system.cpu.Sound := by
  obtain ⟨m, hm⟩ : ∃ m : Machine Unit, Machine.create? {} () = .ok m := ⟨_, rfl⟩
  have hrun := (Reachable.create hm).run 1000
  exact ⟨m, hm, hrun, sound_of_reachable hrun⟩

end Ia32
