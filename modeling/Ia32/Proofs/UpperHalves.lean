/-
  16-bit code neither sees nor disturbs the upper halves of the general registers, with one
  exception.

  A pop into the stack segment register moves the pointer after the segment has been loaded, and so
  by the width of the new stack.  If that is wider than the old one, the pointer does not wrap
  around SP but carries into the upper half of ESP.

  Main definitions:
  - `System.Alike` : systems that are equal but for upper halves
  - `Instruction.Carries` : the exception

  Main statements:
  - `System.alike_iff` : the systems that are alike are those under other upper halves
  - `Exec.alike_execute` : two runs of a well-formed instruction of 16-bit code
  - `Exec.execute_of_alike` : two runs of a decoded one
-/
import Ia32.Proofs.AtomicExecution
import Ia32.Proofs.NarrowExecution
import Ia32.Proofs.SegmentPop

namespace Ia32

variable {δ : Type}

/-! ## Upper halves -/

namespace Width

theorem merge_truncate_right (w : Width) (x y : UInt32) : w.merge x (w.truncate y) = w.merge x y :=
  merge_congr x (truncate_truncate w y)

/-- A word moves up by two without leaving its upper half unless it is at the end of the lower
one. -/
theorem shiftRight_add_two (x : UInt32) :
    (x + 2) >>> 16 = x >>> 16 ↔ ¬ 0xFFFE ≤ truncate .word x := by
  have hx := x.toNat_lt
  have hlow := toNat_truncate .word x
  rw [UInt32.le_iff_toNat_le, hlow, ← UInt32.toNat_inj, UInt32.toNat_shiftRight,
    UInt32.toNat_shiftRight, UInt32.toNat_add]
  simp only [modulus, Nat.shiftRight_eq_div_pow, UInt32.reduceToNat, Nat.reduceMod, Nat.reducePow]
  omega

end Width

/-- The two systems are equal but for the upper halves of general registers. -/
structure System.Alike (s t : System δ) : Prop where
  lower : ∀ r, t.cpu.low r .word = s.cpu.low r .word
  cpu : t.cpu = { s.cpu with gprs := t.cpu.gprs }
  ram : t.ram = s.ram
  io : t.io = s.io

namespace System

variable {s t : System δ}

theorem alike_under (s : System δ) (h : Gprs) : s.Alike (s.under h) where
  lower r := s.cpu.low_under (by decide) h r
  cpu := rfl
  ram := rfl
  io := rfl

theorem alike_iff : s.Alike t ↔ t = s.under t.cpu.gprs := by
  refine ⟨fun h => ?_, fun h => by rw [h]; exact alike_under s _⟩
  have hgprs : t.cpu.gprs = s.cpu.gprs.under t.cpu.gprs := by
    refine Gprs.ext_get fun r => ?_
    have hlower : Width.truncate .word (s.cpu.gprs.get r) =
      Width.truncate .word (t.cpu.gprs.get r) := (h.lower r).symm
    rw [Gprs.get_under, ← Width.merge_truncate_right, hlower, Width.merge_truncate]
  have hcpu : t.cpu = s.cpu.under t.cpu.gprs :=
    h.cpu.trans (congrArg (fun g => { s.cpu with gprs := g }) hgprs)
  calc t = { cpu := t.cpu, ram := t.ram, io := t.io } := rfl
    _ = { s with cpu := t.cpu } := by rw [← h.ram, ← h.io]
    _ = s.under t.cpu.gprs := congrArg (fun c => { s with cpu := c }) hcpu

theorem Alike.stackWidth (h : s.Alike t) : t.cpu.stackWidth = s.cpu.stackWidth := by
  rw [h.cpu]
  rfl

end System

namespace Exec.Blind

variable {α : Type} {P : System δ → Prop} {x : Exec δ α} {s : System δ}

theorem answer_under (hx : Blind P x) (hs : P s) (h : Gprs) :
    x.answer (s.under h) = x.answer s := by
  unfold answer
  rw [hx s h hs]
  cases x.run s <;> rfl

theorem after_under (hx : Blind P x) (hs : P s) (h : Gprs) :
    x.after (s.under h) = (x.after s).under h := by
  unfold after
  rw [hx s h hs]
  cases x.run s <;> rfl

/-- A system is itself under its own upper halves. -/
theorem upper_after (hx : Blind P x) (hs : P s) (r : Gpr) :
    (x.after s).cpu.upper r = s.cpu.upper r := by
  have hself : s = s.under s.cpu.gprs := System.alike_iff.1 ⟨fun _ => rfl, rfl, rfl, rfl⟩
  have hafter : x.after s = (x.after s).under s.cpu.gprs := by
    conv_lhs => rw [hself]
    exact hx.after_under hs _
  rw [hafter, System.cpu_under, Cpu.upper_under]
  rfl

end Exec.Blind

/-! ## The exception -/

/-- The stack segment is popped from the end of a narrow stack, and the stack is wide then. -/
structure Instruction.Carries (i : Instruction) (s : System δ) : Prop where
  pops : i.PopsStack
  widens : ((Exec.execute i).after s).cpu.stackWidth = .dword
  top : 0xFFFE ≤ s.cpu.low .esp .word

namespace Cpu

/-- The registers after a word has been popped and `g` has been loaded as the stack segment. -/
def popped (c : Cpu) (g : Segment) (next : UInt32) : Cpu :=
  { (c.setSegment .ss g).adjustStack 2 with eip := next }

theorem get_popped_of_ne {r : Gpr} (hr : r ≠ .esp) (c : Cpu) (g : Segment) (next : UInt32) :
    (c.popped g next).gprs.get r = c.gprs.get r :=
  Gprs.get_setLow_of_ne hr _ _

theorem stackWidth_popped (c : Cpu) (g : Segment) (next : UInt32) :
    (c.popped g next).stackWidth = if g.descriptor.wide then .dword else .word := rfl

theorem get_esp_popped (c : Cpu) (g : Segment) (next : UInt32) :
    (c.popped g next).gprs.get .esp = if g.descriptor.wide then c.gprs.esp + 2
      else Width.merge .word c.gprs.esp (c.gprs.esp + 2) := by
  have hpopped : (c.popped g next).gprs.get .esp =
      (c.popped g next).stackWidth.merge c.gprs.esp (c.gprs.esp + 2) :=
    congrArg (·.gprs.esp) ((c.setSegment .ss g).adjustStack_eq_setEsp 2)
  rw [hpopped, stackWidth_popped]
  split_ifs
  · exact Width.merge_dword _ _
  · rfl

/-- The lower half of the pointer moves alike on either stack. -/
theorem low_popped (c : Cpu) (g : Segment) (next : UInt32) (r : Gpr) :
    (c.popped g next).low r .word =
      if r = .esp then Width.truncate .word (c.low .esp .word + 2) else c.low r .word := by
  change Width.truncate .word ((c.popped g next).gprs.get r) = _
  split_ifs with hr
  · rw [hr, get_esp_popped]
    split_ifs
    · exact (Width.truncate_add .word _ _).symm
    · exact (Width.truncate_merge _ _ _).trans (Width.truncate_add .word _ _).symm
  · rw [get_popped_of_ne hr]
    rfl

end Cpu

namespace Exec

variable {i : Instruction}

/-- The selector at the top of the stack. -/
def topSelector (s : System δ) : UInt16 := (s.peek 0 .word).toUInt16

/-- The selector is popped, the segment is loaded, and then the pointer moves. -/
theorem run_execute_popStack (h : i.WellFormed) (hw : i.operandWidth = .word) (hp : i.PopsStack)
    (s : System δ) :
    (execute i).run s = match s.segmentFor .ss (topSelector s) with
      | .ok g => .ok .retired
          ((s.consulted (topSelector s)).modifyCpu (·.popped g (s.cpu.nextOffset i.length)))
      | .error f => .error f (s.consulted (topSelector s)) := by
  obtain ⟨ho, hoperand⟩ := hp
  have hinto : i.PopsInto .ss := ⟨by rw [h.unit, ho]; rfl, ho, hoperand⟩
  have hselector : s.poppedSelector .word = topSelector s :=
    congrArg UInt32.toUInt16 (s.peek_zero .word).symm
  rw [run_execute, run_perform_popSegment hinto (by decide), hw, hselector]
  cases s.segmentFor .ss (topSelector s) <;> rfl

theorem alike_popped (s : System δ) (h : Gprs) (g : Segment) (next : UInt32) :
    (s.modifyCpu (·.popped g next)).Alike ((s.under h).modifyCpu (·.popped g next)) where
  lower r := by
    have hlow (q : Gpr) : (s.cpu.under h).low q .word = s.cpu.low q .word :=
      s.cpu.low_under (by decide) h q
    rw [System.cpu_modifyCpu, System.cpu_modifyCpu, System.cpu_under, Cpu.low_popped,
      Cpu.low_popped, hlow, hlow]
  cpu := rfl
  ram := rfl
  io := rfl

variable {s : System δ}

theorem alike_execute_popStack (hwf : i.WellFormed) (hw : i.operandWidth = .word)
    (hp : i.PopsStack) (hs : Narrow s) (h : Gprs) :
    (execute i).answer (s.under h) = (execute i).answer s ∧
      ((execute i).after s).Alike ((execute i).after (s.under h)) := by
  have hrun := run_execute_popStack hwf hw hp s
  have hrun' := run_execute_popStack hwf hw hp (s.under h)
  have hselector : topSelector (s.under h) = topSelector s :=
    congrArg UInt32.toUInt16 (System.peek_under hs h 0 .word)
  have hsegment : (s.under h).segmentFor .ss (topSelector s) = s.segmentFor .ss (topSelector s) :=
    rfl
  rw [hselector, hsegment, (System.unseen_under h).consulted] at hrun'
  unfold answer after
  rw [hrun, hrun']
  cases s.segmentFor .ss (topSelector s) with
  | error f => exact ⟨rfl, System.alike_under _ h⟩
  | ok g => exact ⟨rfl, alike_popped _ h g _⟩

/-- Only ESP can change in its upper half. -/
theorem upper_execute_popStack (hwf : i.WellFormed) (hw : i.operandWidth = .word)
    (hp : i.PopsStack) (hs : Narrow s) (r : Gpr) :
    ((execute i).after s).cpu.upper r = s.cpu.upper r ↔ ¬ (r = .esp ∧ i.Carries s) := by
  have hrun := run_execute_popStack hwf hw hp s
  have hcarries : i.Carries s ↔
      ((execute i).after s).cpu.stackWidth = .dword ∧ 0xFFFE ≤ s.cpu.low .esp .word :=
    ⟨fun h => ⟨h.widens, h.top⟩, fun h => ⟨hp, h.1, h.2⟩⟩
  have hnarrow : s.cpu.stackWidth ≠ .dword := fun e => Width.noConfusion (hs.symm.trans e)
  cases hg : s.segmentFor .ss (topSelector s) with
  | error f =>
    have hafter : ((execute i).after s).cpu = s.cpu := by
      rw [hg] at hrun
      rw [after_of_error hrun, System.cpu_consulted]
    rw [hcarries, hafter]
    exact iff_of_true rfl fun h => hnarrow h.2.1
  | ok g =>
    have hafter : ((execute i).after s).cpu = s.cpu.popped g (s.cpu.nextOffset i.length) := by
      rw [hg] at hrun
      rw [after_of_ok hrun, System.cpu_modifyCpu, System.cpu_consulted]
    rw [hcarries, hafter, Cpu.stackWidth_popped, Cpu.upper, Cpu.upper]
    by_cases hr : r = .esp
    · subst hr
      -- on a wide stack the whole of ESP moves, on a narrow one SP wraps around
      rw [Cpu.get_esp_popped]
      cases g.descriptor.wide with
      | true =>
        refine (Width.shiftRight_add_two s.cpu.gprs.esp).trans (not_congr ?_)
        exact ⟨fun h => ⟨rfl, rfl, h⟩, fun h => h.2.2⟩
      | false =>
        have hword : (if false = true then Width.dword else .word) ≠ .dword := by decide
        exact iff_of_true (Width.shiftRight_merge_word _ _) fun h => hword h.2.1
    · exact iff_of_true (by rw [Cpu.get_popped_of_ne hr]) fun h => hr h.1

/-! ## Two runs -/

variable {t : System δ}

/-- Two runs of a well-formed instruction with words throughout, from systems that are equal but for
upper halves and have a 16-bit stack.  The instruction ends alike, and does the same to everything
but upper halves.  These stay as they were, unless the pointer carries. -/
theorem alike_execute (hwf : i.WellFormed) (hi : i.IsNarrow)
    (hwidth : i.operation.isProduct = true → ∀ x ∈ i.operands, x.width ≠ .dword)
    (hst : s.Alike t) (hs : s.cpu.stackWidth = .word) :
    (execute i).answer s = (execute i).answer t ∧
    ((execute i).after s).Alike ((execute i).after t) ∧
    ∀ u, u = s ∨ u = t → ∀ r,
      ((execute i).after u).cpu.upper r = u.cpu.upper r ↔ ¬ (r = .esp ∧ i.Carries u) := by
  have ht : t.cpu.stackWidth = .word := hst.stackWidth.trans hs
  have hnarrow : ∀ u, u = s ∨ u = t → Narrow u := by
    rintro u (rfl | rfl)
    · exact hs
    · exact ht
  have hunder := System.alike_iff.1 hst
  -- the one pop is followed to its end, all other instructions are blind
  by_cases hp : i.PopsStack
  · obtain ⟨hanswer, halike⟩ := alike_execute_popStack hwf hi.operandWidth hp hs t.cpu.gprs
    rw [← hunder] at hanswer halike
    exact ⟨hanswer.symm, halike, fun u hu =>
      upper_execute_popStack hwf hi.operandWidth hp (hnarrow u hu)⟩
  · have hblind : Blind Narrow (execute i : Exec δ CycleExit) := blind_execute hwf hi hwidth hp
    have hanswer := hblind.answer_under hs t.cpu.gprs
    have hafter := hblind.after_under hs t.cpu.gprs
    rw [← hunder] at hanswer hafter
    refine ⟨hanswer.symm, ?_, fun u hu r => ?_⟩
    · rw [hafter]
      exact System.alike_under _ _
    · exact iff_of_true (hblind.upper_after (hnarrow u hu) r) fun h => hp h.2.pops

/-- **16-bit code sees no upper halves of general registers, and disturbs them in one case only.**
From two systems that are equal but for these halves, with a 16-bit stack, a decoded instruction
with words throughout ends alike and does the same to everything else, whatever memory and devices
are there.  The upper halves stay as they were, unless a pop into the stack segment register carries
into that of ESP.  The disassembler may be any that keeps to the forms and sizes of the instruction
set reference. -/
theorem execute_of_alike {d : Disassembler} {bs : List UInt8} {wide : Bool} {ip : UInt32}
    (hforms : d.KeepsForms) (hsizes : d.KeepsSizes)
    (hdecode : Instruction.decodeBy d bs wide ip = .ok i) (hi : i.IsNarrow)
    (hst : s.Alike t) (hs : s.cpu.stackWidth = .word) :
    (execute i).answer s = (execute i).answer t ∧
    ((execute i).after s).Alike ((execute i).after t) ∧
    ∀ u, u = s ∨ u = t → ∀ r,
      ((execute i).after u).cpu.upper r = u.cpu.upper r ↔ ¬ (r = .esp ∧ i.Carries u) := by
  rcases (Instruction.fit_of_decodeBy hforms hdecode).wellFormed_or with hwf | ⟨hunit, hmoves⟩
  · exact alike_execute hwf hi
      (Instruction.width_of_decodeBy hsizes hdecode hi.operandWidth) hst hs
  · -- a move into CS changes nothing
    have hrun (u : System δ) := run_of_movesToCode hunit hmoves u
    have hafter (u : System δ) : (execute i).after u = u := after_of_error (hrun u)
    have hpops : ¬ i.PopsStack := fun h => by cases hmoves.1.symm.trans h.1
    unfold answer
    rw [hrun, hrun, hafter, hafter]
    refine ⟨rfl, hst, fun u _ r => ?_⟩
    rw [hafter]
    exact iff_of_true rfl fun h => hpops h.2.pops

/-- A system in protected mode with one descriptor, of a wide data segment.  Its selector is the
last word of a 16-bit stack. -/
def widening : System Unit where
  cpu := { Cpu.reset.setCr0 1 with
    gprs := { esp := 0xFFFE }
    gdtr := ⟨0, 15⟩
    protectedMode := true }
  ram := ((Ram.zeroed 0x10000).writeBytes 8 [0xFF, 0xFF, 0, 0, 0, 0x93, 0x40, 0]).writeBytes 0xFFFE
    [8, 0]
  io := Io.init ()

theorem isNarrow_popStack :
    (Instruction.ofOperands (.transfer .pop) [.register (.segment .ss)] 1).IsNarrow where
  operandWidth := rfl
  addressSize := rfl
  elements := nofun
  registers r hr := by
    cases List.mem_singleton.1 hr
    decide

/-- The pointer carries into the upper half of ESP. -/
theorem execute_widening_carries :
    let i := Instruction.ofOperands (.transfer .pop) [.register (.segment .ss)] 1
    let s := widening
    Instruction.decode [0x17] false 0 = .ok i ∧ i.IsNarrow ∧ s.Alike s ∧
      s.cpu.stackWidth = .word ∧ s.cpu.upper .esp = 0 ∧
      ((execute i).after s).cpu.upper .esp = 1 :=
  ⟨rfl, isNarrow_popStack, ⟨fun _ => rfl, rfl, rfl, rfl⟩, rfl, rfl, by decide +kernel⟩

/-- Two runs of this pop, from different upper halves of ESP. -/
theorem execute_widening :
    let i := Instruction.ofOperands (.transfer .pop) [.register (.segment .ss)] 1
    let s := widening
    let t := widening.under { esp := 0x50000 }
    Instruction.decode [0x17] false 0 = .ok i ∧ i.IsNarrow ∧ s.Alike t ∧
      s.cpu.stackWidth = .word ∧ (execute i).answer s = (execute i).answer t ∧
      ((execute i).after s).Alike ((execute i).after t) ∧
      ∀ r, ((execute i).after t).cpu.upper r = t.cpu.upper r ↔ ¬ (r = .esp ∧ i.Carries t) := by
  intro i s t
  have hdecode : Instruction.decode [0x17] false 0 = .ok i := rfl
  have halike : s.Alike t := System.alike_under widening _
  obtain ⟨hanswer, hafter, hupper⟩ := execute_of_alike Encoding.disassemble_keepsForms
    Encoding.disassemble_keepsSizes hdecode isNarrow_popStack halike rfl
  exact ⟨hdecode, isNarrow_popStack, halike, rfl, hanswer, hafter, hupper t (.inr rfl)⟩

end Exec

end Ia32
