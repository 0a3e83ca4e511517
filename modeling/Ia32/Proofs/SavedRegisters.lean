/-
  Registers and flags that are put on the stack, and taken back from there.

  In between, the program may change whatever it likes, as long as the stack keeps its place and
  the elements that have been pushed.  What an image is too narrow for is left as it is when the
  image comes back.

  Main definitions:
  - `Instruction.Transfers` : an instruction that names no operands
  - `System.Carries` : elements that lie on top of the stack, whatever else has changed
  - `Cpu.registerElements`, `Cpu.flagElements` : what PUSHA and PUSHF push
  - `Flags.reloaded` : the flags once an image of a given width has been taken back

  Main statements:
  - `System.Carries.pops` : elements are popped off a stack that carries them
  - `Exec.run_popa`, `Exec.run_popf`, `Exec.run_sahf` : the instructions that take back
  - `Exec.restore_of_save` : the instructions that save, and those that take back after them
-/
import Ia32.Proofs.ProcedureFrame
import Ia32.Proofs.RegisterBytes
import Ia32.Proofs.SegmentPop

namespace Ia32

variable {δ : Type}

open StackElement

theorem Width.merge_self (w : Width) (x : UInt32) : w.merge x x = x :=
  (merge_congr x (truncate_truncate w x).symm).trans (w.merge_truncate x)

/-! ## Elements on top of the stack -/

namespace Cpu

theorem lowered_eq_setEsp (c : Cpu) (n : Nat) :
    c.lowered n = c.setEsp (c.lowered n).gprs.esp := by
  rw [lowered, adjustStack_eq_setEsp]
  rfl

/-- Where elements have their places is a matter of the stack segment and the pointer. -/
theorem placed_congr {c d : Cpu} (hpointer : c.gprs.esp = d.gprs.esp)
    (hsegment : c.segments.ss = d.segments.ss) (xs : List StackElement) :
    c.placed xs = d.placed xs := by
  have hwidth : c.stackWidth = d.stackWidth := by rw [stackWidth, hsegment, stackWidth]
  have hslot (k : UInt32) : c.slot k = d.slot k := by
    change c.segments.ss.descriptor.base +
      c.stackWidth.truncate (c.stackWidth.truncate c.gprs.esp + k) = _
    rw [hwidth, hpointer, hsegment]
    rfl
  induction xs generalizing c d with
  | nil => rfl
  | cons x xs ih =>
    have hlower : (c.lowered x.width.bytes).gprs.esp = (d.lowered x.width.bytes).gprs.esp := by
      rw [lowered, lowered, adjustStack_eq_setEsp, adjustStack_eq_setEsp, hwidth, hpointer]
      rfl
    have hrest := ih (c := c.lowered x.width.bytes) (d := d.lowered x.width.bytes) hlower hsegment
      hwidth fun k => by rw [lowered, slot_adjustStack, hslot, lowered, slot_adjustStack]
    rw [placed, placed, hslot, hrest]

end Cpu

/-- Elements that were pushed at `c` lie on top of the stack of system `u`. -/
structure System.Carries (u : System δ) (c : Cpu) (xs : List StackElement) : Prop where
  pointer : u.cpu.gprs.esp = (c.lowered (extent xs)).gprs.esp
  segment : u.cpu.segments.ss = c.segments.ss
  elements : u.ram.Holds (c.placed xs)

namespace System

variable {s u : System δ} {c : Cpu} {w : Width} {xs : List StackElement}

/-- The pointer is back where it was when the elements were pushed. -/
theorem Carries.pops (h : u.Carries c xs) : u.pops (xs.reverse.map width) =
    (xs.reverse.map content, u.modifyCpu (·.setEsp c.gprs.esp)) := by
  let d := u.cpu.setEsp c.gprs.esp
  have hpointer : d.gprs.esp = c.gprs.esp := rfl
  have hwidth : d.stackWidth = c.stackWidth := by
    rw [Cpu.stackWidth, Cpu.stackWidth, ← h.segment]
    rfl
  have hlower : (d.lowered (extent xs)).gprs.esp = u.cpu.gprs.esp := by
    rw [h.pointer, Cpu.lowered, Cpu.lowered, Cpu.adjustStack_eq_setEsp, Cpu.adjustStack_eq_setEsp,
      hwidth, hpointer]
    rfl
  have hcpu : u.cpu = d.lowered (extent ([] ++ xs)) := by
    rw [List.nil_append, Cpu.lowered_eq_setEsp, hlower]
    rfl
  have hholds : u.ram.Holds (d.placed ([] ++ xs)) := by
    rw [List.nil_append, Cpu.placed_congr hpointer h.segment]
    exact h.elements
  have hpops := pops_of_holds [] hcpu hholds
  rwa [extent_nil, Cpu.lowered_zero] at hpops

theorem Carries.peek_zero {x : StackElement} (h : u.Carries c [x]) :
    u.peek 0 x.width = x.content := by
  have hpops := congrArg (·.1) h.pops
  rw [System.peek_zero]
  exact List.head_eq_of_cons_eq hpops

/-- Elements that have just been pushed, if there is a place in memory for each. -/
theorem carries_pushes (hextent : extent xs ≤ s.cpu.stackWidth.modulus)
    (hram : s.ram.Backs (s.cpu.placed xs)) : (s.pushes xs).Carries s.cpu xs where
  pointer := by rw [cpu_pushes]
  segment := by rw [cpu_pushes]; rfl
  elements := holds_pushes hextent hram

/-- Control has gone on. -/
theorem Carries.jump (h : u.Carries c xs) (next : UInt32) :
    (u.modifyCpu fun c => { c with eip := next }).Carries c xs :=
  ⟨h.pointer, h.segment, h.elements⟩

end System

/-! ## The general registers -/

namespace Cpu

/-- Take over the low ends of registers, but leave out the stack pointer. -/
def reload (c : Cpu) (w : Width) (ps : List (Gpr × UInt32)) : Cpu :=
  ps.foldl (fun c p => if p.1 = .esp then c else c.setLow p.1 w p.2) c

variable {c : Cpu} {w : Width}

theorem reload_cons (c : Cpu) (w : Width) (r : Gpr) (v : UInt32) (ps : List (Gpr × UInt32)) :
    c.reload w ((r, v) :: ps) = (c.reload w [(r, v)]).reload w ps := rfl

theorem reload_esp (c : Cpu) (w : Width) (v : UInt32) : c.reload w [(.esp, v)] = c := rfl

theorem reload_of_ne {r : Gpr} (h : r ≠ .esp) (c : Cpu) (w : Width) (v : UInt32) :
    c.reload w [(r, v)] = c.setLow r w v := if_neg h

/-- General registers are all that is loaded. -/
theorem reload_eq (c : Cpu) (w : Width) (ps : List (Gpr × UInt32)) :
    c.reload w ps = { c with gprs := (c.reload w ps).gprs } := by
  induction ps generalizing c with
  | nil => rfl
  | cons p ps ih =>
    obtain ⟨r, v⟩ := p
    rw [reload_cons, ih]
    by_cases h : r = .esp
    · rw [h, reload_esp]
    · rw [reload_of_ne h]
      rfl

/-- A register is loaded as often as it is named, and the last time counts. -/
theorem get_reload (c : Cpu) (w : Width) (f : Gpr → UInt32) (rs : List Gpr) (q : Gpr) :
    (c.reload w (rs.map fun r => (r, f r))).gprs.get q =
      if q ∈ rs ∧ q ≠ .esp then w.merge (c.gprs.get q) (f q) else c.gprs.get q := by
  induction rs generalizing c with
  | nil => simp [reload]
  | cons r rs ih =>
    have hfirst : (c.reload w [(r, f r)]).gprs.get q =
        if q = r ∧ q ≠ .esp then w.merge (c.gprs.get q) (f q) else c.gprs.get q := by
      by_cases h : r = .esp
      · rw [h, reload_esp, if_neg fun h => h.2 h.1]
      · rw [reload_of_ne h]
        by_cases hq : q = r
        · subst hq
          rw [if_pos ⟨rfl, h⟩, setLow, Gprs.setLow, Gprs.get_set, if_pos rfl]
        · rw [if_neg fun h => hq h.1]
          exact Gprs.get_setLow_of_ne hq w _
    rw [List.map_cons, reload_cons, ih, hfirst]
    by_cases hesp : q = .esp
    · simp [hesp]
    rcases eq_or_ne q r with rfl | hq
    · simp [hesp]
    · simp [hesp, hq]

theorem reload_adjustStack (c : Cpu) (w : Width) (p : Gpr × UInt32) (d : UInt32) :
    (c.reload w [p]).adjustStack d = (c.adjustStack d).reload w [p] := by
  obtain ⟨r, v⟩ := p
  cases r <;> rfl

/-- What PUSHA pushes; the stack pointer as it is before. -/
def registerElements (c : Cpu) (w : Width) : List StackElement :=
  Gpr.all.map fun r => ⟨w, c.low r w⟩

theorem uniform_registerElements (c : Cpu) (w : Width) : Uniform w (c.registerElements w) := by
  intro x hx
  obtain ⟨r, -, rfl⟩ := List.mem_map.1 hx
  rfl

theorem extent_registerElements_le (c : Cpu) (w : Width) :
    extent (c.registerElements w) ≤ c.stackWidth.modulus := by
  refine c.le_modulus_stackWidth ?_
  rw [(c.uniform_registerElements w).extent, registerElements, List.length_map]
  cases w <;> decide

end Cpu

namespace System

variable {s u : System δ} {w : Width}

theorem pushAll_eq (s : System δ) (w : Width) :
    s.pushAll w = s.pushes (s.cpu.registerElements w) := by
  rw [pushes, Cpu.registerElements, List.foldl_map]
  rfl

/-- Registers other than the stack pointer do not matter to the stack. -/
theorem pop_reload (s : System δ) (w : Width) (p : Gpr × UInt32) (v : Width) :
    (s.modifyCpu (·.reload w [p])).pop v =
      ((s.pop v).1, (s.pop v).2.modifyCpu (·.reload w [p])) := by
  have hvalue : ((s.modifyCpu (·.reload w [p])).pop v).1 = (s.pop v).1 := by
    obtain ⟨r, x⟩ := p
    cases r <;> rfl
  have hcpu := s.cpu.reload_adjustStack w p v.stride
  exact Prod.ext hvalue (congrArg (fun c => { s with cpu := c }) hcpu)

theorem pops_reload (s : System δ) (w : Width) (p : Gpr × UInt32) (ws : List Width) :
    (s.modifyCpu (·.reload w [p])).pops ws =
      ((s.pops ws).1, (s.pops ws).2.modifyCpu (·.reload w [p])) := by
  induction ws generalizing s with
  | nil => rfl
  | cons v ws ih =>
    rw [pops, pop_reload]
    dsimp only
    rw [ih]
    rfl

/-- All elements may be popped first, and the registers be loaded afterwards. -/
theorem foldl_pop (s : System δ) (w : Width) (rs : List Gpr) :
    rs.foldl (fun s r =>
      let (v, s) := s.pop w
      if r = .esp then s else s.modifyCpu (·.setLow r w v)) s =
    (s.pops (rs.map fun _ => w)).2.modifyCpu
      (·.reload w (rs.zip (s.pops (rs.map fun _ => w)).1)) := by
  induction rs generalizing s with
  | nil => rfl
  | cons r rs ih =>
    have hstep : (if r = .esp then (s.pop w).2 else
        (s.pop w).2.modifyCpu (·.setLow r w (s.pop w).1)) =
          (s.pop w).2.modifyCpu (·.reload w [(r, (s.pop w).1)]) := by
      by_cases h : r = .esp
      · rw [if_pos h, h]
        rfl
      · rw [if_neg h]
        exact congrArg (fun c => { (s.pop w).2 with cpu := c }) (Cpu.reload_of_ne h _ _ _).symm
    rw [List.foldl_cons]
    dsimp only
    rw [hstep, ih, pops_reload]
    rfl

/-- The registers that come back from a stack that carries them. -/
theorem popAll_of_carries {c : Cpu} (h : u.Carries c (c.registerElements w)) :
    u.popAll w = u.modifyCpu fun d =>
      (d.setEsp c.gprs.esp).reload w (Gpr.all.reverse.map fun r => (r, c.low r w)) := by
  have hwidths : (Gpr.all.reverse.map fun _ => w) =
      (c.registerElements w).reverse.map width := rfl
  have hcontents : (c.registerElements w).reverse.map content =
      Gpr.all.reverse.map fun r => c.low r w := by
    rw [Cpu.registerElements, ← List.map_reverse, List.map_map]
    exact List.map_congr_left fun r _ => Width.truncate_truncate _ _
  rw [popAll, foldl_pop, hwidths, h.pops, hcontents, ← List.map_prod_left_eq_zip]
  rfl

end System

/-! ## The flags -/

namespace Flags

/-- The flags once an image of width `w` with the flags `g` has been taken back: all but the resume
and the virtual-8086 flag, and in a word the lower half only. -/
def reloaded (f : Flags) (w : Width) (g : Flags) : Flags :=
  { g with
    resume := f.resume
    virtual8086 := f.virtual8086
    alignment := if w = .dword then g.alignment else f.alignment
    virtualInterrupt := if w = .dword then g.virtualInterrupt else f.virtualInterrupt
    virtualPending := if w = .dword then g.virtualPending else f.virtualPending
    identification := if w = .dword then g.identification else f.identification }

theorem reloaded_visible (f : Flags) (w : Width) (g : Flags) :
    f.reloaded w g.visible = f.reloaded w g := rfl

theorem reloaded_self (f : Flags) (w : Width) : f.reloaded w f = f := by
  simp only [reloaded, ite_self]

/-- What comes back from any image at all. -/
theorem restore_eq {w : Width} (hw : w ≠ .byte) (f : Flags) (x : UInt32) :
    f.restore w x = f.reloaded w (ofBits x) := by
  cases w with
  | byte => exact absurd rfl hw
  | word =>
    simp only [restore, ofBits_merge_word, ofBits_bits]
    rfl
  | dword => rfl

theorem restore_image {w : Width} (hw : w ≠ .byte) (f g : Flags) :
    f.restore w (w.truncate g.image) = f.reloaded w g := by
  cases w with
  | byte => exact absurd rfl hw
  | word => exact f.restore_word g
  | dword => exact f.restore_dword g

/-! ### The low byte -/

theorem bit_toUInt8 (x : UInt32) {n : UInt32} (hn : n.toNat % 32 < 8) :
    bit x.toUInt8.toUInt32 n = bit x n := by
  rw [bit_eq_getLsbD, bit_eq_getLsbD, UInt8.toBitVec_toUInt32, UInt32.toBitVec_toUInt8,
    BitVec.getLsbD_setWidth, BitVec.getLsbD_setWidth]
  simp [hn, Nat.mod_lt]

theorem ofStatusByte_toUInt8 (f : Flags) (x : UInt32) : f.ofStatusByte x.toUInt8 =
    { f with
      carry := bit x 0
      parity := bit x 2
      adjust := bit x 4
      zero := bit x 6
      sign := bit x 7 } := by
  simp (disch := decide) only [ofStatusByte, ofBits, bit_toUInt8]

/-- The low byte has all it takes. -/
theorem ofStatusByte_statusByte (f : Flags) : f.ofStatusByte f.statusByte = f := by
  have himage := f.ofBits_image
  have hcarry : bit f.image 0 = f.carry := congrArg carry himage
  have hparity : bit f.image 2 = f.parity := congrArg parity himage
  have hadjust : bit f.image 4 = f.adjust := congrArg adjust himage
  have hzero : bit f.image 6 = f.zero := congrArg zero himage
  have hsign : bit f.image 7 = f.sign := congrArg sign himage
  rw [statusByte, ofStatusByte_toUInt8, hcarry, hparity, hadjust, hzero, hsign]

end Flags

/-! ## The instructions -/

/-- The instruction carries out `o` on operands of width `w`, without naming any. -/
structure Instruction.Transfers (i : Instruction) (o : TransferOp) (w : Width) : Prop where
  unit : i.unit = .transfer
  operation : i.operation = .transfer o
  width : i.operandWidth = w

/-- What PUSHF pushes. -/
def Cpu.flagElements (c : Cpu) (w : Width) : List StackElement := [⟨w, c.flags.visible.image⟩]

theorem Cpu.extent_flagElements_le (c : Cpu) (w : Width) :
    extent (c.flagElements w) ≤ c.stackWidth.modulus := by
  refine c.le_modulus_stackWidth ?_
  cases w <;> simp [flagElements, Width.bytes]

/-- System `t` is system `s` after an instruction of the given length that has pushed `xs`. -/
structure System.Pushed (s : System δ) (xs : List StackElement) (length : UInt8)
    (t : System δ) : Prop where
  cpu : t.cpu = { s.cpu with
    gprs := s.cpu.gprs.set .esp t.cpu.gprs.esp
    eip := s.cpu.nextOffset length }
  carries : t.Carries s.cpu xs
  io : t.io = s.io
  size : t.ram.size = s.ram.size
  outside : ∀ k, ¬ s.cpu.Occupied xs k → t.ram.byte k = s.ram.byte k

theorem System.pushed_pushes {s : System δ} {xs : List StackElement}
    (hextent : extent xs ≤ s.cpu.stackWidth.modulus) (hram : s.ram.Backs (s.cpu.placed xs))
    (length : UInt8) : s.Pushed xs length
      ((s.pushes xs).modifyCpu fun c => { c with eip := s.cpu.nextOffset length }) where
  cpu := by rw [cpu_modifyCpu, cpu_pushes]; rfl
  carries := (carries_pushes hextent hram).jump _
  io := by rw [io_modifyCpu, io_pushes]
  size := by rw [ram_modifyCpu, size_pushes]
  outside k hk := byte_pushes hk

namespace Exec

variable {i j : Instruction} {s t u : System δ} {w : Width}

theorem run_execute_transfer {o : TransferOp} (hi : i.Transfers o w)
    (h : (o.perform i).run s = .ok () t) : (execute i).run s =
      .ok .retired (t.modifyCpu fun c => { c with eip := s.cpu.nextOffset i.length }) := by
  apply run_execute_of_next
  rw [Instruction.perform_transfer hi.unit hi.operation, run_bind_of_ok h, run_pure]

theorem run_pusha (hi : i.Transfers .pusha w) (s : System δ) : (execute i).run s =
    .ok .retired ((s.pushes (s.cpu.registerElements w)).modifyCpu fun c =>
      { c with eip := s.cpu.nextOffset i.length }) := by
  refine run_execute_transfer hi ?_
  rw [TransferOp.perform, hi.width, run_modify, System.pushAll_eq]

theorem run_pushf (hi : i.Transfers .pushf w) (s : System δ) : (execute i).run s =
    .ok .retired ((s.pushes (s.cpu.flagElements w)).modifyCpu fun c =>
      { c with eip := s.cpu.nextOffset i.length }) := by
  refine run_execute_transfer hi ?_
  rw [TransferOp.perform, hi.width, run_modify]
  rfl

/-- Wherever the stack carries the registers that were pushed at `c`, POPA brings back all that the
elements hold; the stack pointer is not among it, but comes to where it was. -/
theorem run_popa (hj : j.Transfers .popa w) {c : Cpu} (h : u.Carries c (c.registerElements w)) :
    ∃ r, (execute j).run u = .ok .retired r ∧
      r.cpu = { u.cpu with gprs := r.cpu.gprs, eip := u.cpu.nextOffset j.length } ∧
      (∀ q, r.cpu.gprs.get q =
        if q = .esp then c.gprs.get .esp else w.merge (u.cpu.gprs.get q) (c.gprs.get q)) ∧
      r.ram = u.ram ∧ r.io = u.io := by
  have hrun : (TransferOp.popa.perform j).run u = .ok () (u.popAll w) := by
    rw [TransferOp.perform, hj.width, run_modify]
  refine ⟨_, run_execute_transfer hj hrun, ?_, fun q => ?_, ?_, ?_⟩
  · rw [System.cpu_modifyCpu, System.popAll_of_carries h, System.cpu_modifyCpu, Cpu.reload_eq]
    rfl
  · rw [System.cpu_modifyCpu, System.popAll_of_carries h]
    have hmem : q ∈ Gpr.all.reverse := by cases q <;> decide
    refine ((u.cpu.setEsp c.gprs.esp).get_reload w (c.low · w) Gpr.all.reverse q).trans ?_
    by_cases hq : q = .esp
    · rw [if_neg fun h => h.2 hq, if_pos hq, hq]
      rfl
    · have hkept : (u.cpu.setEsp c.gprs.esp).gprs.get q = u.cpu.gprs.get q :=
        (Gprs.get_set _ _ _ _).trans (if_neg hq)
      rw [if_pos ⟨hmem, hq⟩, if_neg hq, hkept]
      exact Width.merge_congr _ (Width.truncate_truncate _ _)
  · rw [System.ram_modifyCpu, System.popAll_of_carries h, System.ram_modifyCpu]
  · rw [System.io_modifyCpu, System.popAll_of_carries h, System.io_modifyCpu]

/-- POPF takes over the image at the top of the stack, whatever it is. -/
theorem run_popf (hw : w ≠ .byte) (hj : j.Transfers .popf w) (u : System δ) : (execute j).run u =
    .ok .retired (u.modifyCpu fun c => { c.adjustStack w.stride with
      flags := c.flags.reloaded w (Flags.ofBits (u.peek 0 w))
      eip := c.nextOffset j.length }) := by
  have hrun : (TransferOp.popf.perform j).run u = .ok () (u.modifyCpu fun c =>
      { c.adjustStack w.stride with
        flags := c.flags.reloaded w (Flags.ofBits (u.peek 0 w)) }) := by
    have hflags := Flags.restore_eq hw u.cpu.flags (u.peek 0 w)
    rw [System.peek_zero] at hflags ⊢
    rw [TransferOp.perform, hj.width, run_modify]
    exact congrArg (fun f => EStateM.Result.ok () (u.modifyCpu fun c =>
      { c.adjustStack w.stride with flags := f })) hflags
  exact run_execute_transfer hj hrun

theorem run_lahf (hi : i.Transfers .lahf w) (s : System δ) : (execute i).run s =
    .ok .retired (s.modifyCpu fun c => { c.setHigh .eax c.flags.statusByte.toUInt32 with
      eip := c.nextOffset i.length }) :=
  run_execute_transfer hi rfl

theorem run_sahf (hj : j.Transfers .sahf w) (u : System δ) : (execute j).run u =
    .ok .retired (u.modifyCpu fun c => { c with
      flags := c.flags.ofStatusByte (c.gprs.high .eax).toUInt8
      eip := c.nextOffset j.length }) :=
  run_execute_transfer hj rfl

end Exec

/-! ## Saving and restoring -/

/-- Instruction `i` pushes `xs`, and `j` next to it pops them and brings back all registers. -/
def System.Undone (s : System δ) (xs : List StackElement) (i j : Instruction) : Prop :=
  ∃ t r, (Exec.execute i).run s = .ok .retired t ∧ s.Pushed xs i.length t ∧
    (Exec.execute j).run t = .ok .retired r ∧
    r.cpu = { s.cpu with eip := t.cpu.nextOffset j.length } ∧ r.ram = t.ram ∧ r.io = t.io

/-- What instructions with operands of width `w` save in system `s` comes back. -/
structure System.Restores (s : System δ) (w : Width) : Prop where
  /-- POPA next to PUSHA brings back all registers, the stack pointer included. -/
  registers : ∀ i j, i.Transfers .pusha w → j.Transfers .popa w →
    s.ram.Backs (s.cpu.placed (s.cpu.registerElements w)) →
    s.Undone (s.cpu.registerElements w) i j
  /-- After other work, POPA brings back the part of the registers that the elements hold. -/
  registersBetween : ∀ (j : Instruction) (u : System δ), j.Transfers .popa w →
    u.Carries s.cpu (s.cpu.registerElements w) →
    ∃ r, (Exec.execute j).run u = .ok .retired r ∧
      r.cpu = { u.cpu with gprs := r.cpu.gprs, eip := u.cpu.nextOffset j.length } ∧
      (∀ q, r.cpu.gprs.get q = if q = .esp then s.cpu.gprs.get .esp
        else w.merge (u.cpu.gprs.get q) (s.cpu.gprs.get q)) ∧ r.ram = u.ram ∧ r.io = u.io
  /-- POPF next to PUSHF brings back all flags. -/
  flags : ∀ i j, i.Transfers .pushf w → j.Transfers .popf w →
    s.ram.Backs (s.cpu.placed (s.cpu.flagElements w)) → s.Undone (s.cpu.flagElements w) i j
  /-- After other work, POPF brings back the flags that the image holds. -/
  flagsBetween : ∀ (j : Instruction) (u : System δ), j.Transfers .popf w →
    u.Carries s.cpu (s.cpu.flagElements w) → ∃ r, (Exec.execute j).run u = .ok .retired r ∧
      r.cpu.flags = u.cpu.flags.reloaded w s.cpu.flags
  /-- POPF takes over the image that is on the stack, whatever it is. -/
  anyImage : ∀ j, j.Transfers .popf w → ∃ r, (Exec.execute j).run s = .ok .retired r ∧
    r.cpu = { s.cpu.adjustStack w.stride with
      flags := s.cpu.flags.reloaded w (Flags.ofBits (s.peek 0 w))
      eip := s.cpu.nextOffset j.length } ∧ r.ram = s.ram ∧ r.io = s.io
  /-- The image that PUSHF pushes has the reserved bit, and hides two flags. -/
  image : ∀ i, i.Transfers .pushf w → ∃ x, (Exec.execute i).run s =
      .ok .retired ((s.push w x).modifyCpu fun c => { c with eip := s.cpu.nextOffset i.length }) ∧
    Flags.bit x 1 = true ∧ Flags.bit x 16 = false ∧ Flags.bit x 17 = false ∧
    Flags.ofBits x = { s.cpu.flags with resume := false, virtual8086 := false }
  /-- LAHF changes AH only, and SAHF next to it no flag. -/
  status : ∀ i j, i.Transfers .lahf w → j.Transfers .sahf w →
    ∃ t r, (Exec.execute i).run s = .ok .retired t ∧
      t.cpu = { s.cpu with
        gprs := s.cpu.gprs.setHigh .eax s.cpu.flags.image.toUInt8.toUInt32
        eip := s.cpu.nextOffset i.length } ∧
      (Exec.execute j).run t = .ok .retired r ∧
      r.cpu = { t.cpu with flags := s.cpu.flags, eip := t.cpu.nextOffset j.length }
  /-- SAHF takes over five flags from AH, whatever is in there. -/
  anyStatus : ∀ j, j.Transfers .sahf w → ∃ r, (Exec.execute j).run s = .ok .retired r ∧
    r.cpu = { s.cpu with
      flags := { s.cpu.flags with
        carry := Flags.bit (s.cpu.gprs.high .eax) 0
        parity := Flags.bit (s.cpu.gprs.high .eax) 2
        adjust := Flags.bit (s.cpu.gprs.high .eax) 4
        zero := Flags.bit (s.cpu.gprs.high .eax) 6
        sign := Flags.bit (s.cpu.gprs.high .eax) 7 }
      eip := s.cpu.nextOffset j.length } ∧ r.ram = s.ram ∧ r.io = s.io

namespace Exec

variable {i j : Instruction} {s t u : System δ} {w : Width}

theorem popa_of_pusha (hi : i.Transfers .pusha w) (hj : j.Transfers .popa w)
    (hram : s.ram.Backs (s.cpu.placed (s.cpu.registerElements w))) :
    s.Undone (s.cpu.registerElements w) i j := by
  have ht := System.pushed_pushes (s.cpu.extent_registerElements_le w) hram i.length
  obtain ⟨r, hr, hcpu, hget, hram, hio⟩ := run_popa hj ht.carries
  refine ⟨_, r, run_pusha hi s, ht, hr, ?_, hram, hio⟩
  -- nothing has been done to the registers in between
  have hgprs : r.cpu.gprs = s.cpu.gprs := by
    refine Gprs.ext_get fun q => (hget q).trans ?_
    by_cases hq : q = .esp
    · rw [if_pos hq, hq]
    · rw [if_neg hq, ht.cpu, Gprs.get_set, if_neg hq, Width.merge_self]
  rw [hcpu, hgprs]
  nth_rewrite 1 [ht.cpu]
  rfl

theorem popf_of_carries (hw : w ≠ .byte) (hj : j.Transfers .popf w)
    (hu : u.Carries s.cpu (s.cpu.flagElements w)) : (execute j).run u =
      .ok .retired (u.modifyCpu fun c => { c.adjustStack w.stride with
        flags := c.flags.reloaded w s.cpu.flags
        eip := c.nextOffset j.length }) := by
  have hpeek : u.peek 0 w = w.truncate s.cpu.flags.visible.image := hu.peek_zero
  have hflags : u.cpu.flags.reloaded w (Flags.ofBits (u.peek 0 w)) =
      u.cpu.flags.reloaded w s.cpu.flags := by
    rw [← Flags.restore_eq hw, hpeek, Flags.restore_image hw, Flags.reloaded_visible]
  rw [run_popf hw hj]
  exact congrArg (fun f => EStateM.Result.ok CycleExit.retired (u.modifyCpu fun c =>
    { c.adjustStack w.stride with flags := f, eip := c.nextOffset j.length })) hflags

theorem popf_of_pushf (hw : w ≠ .byte) (hi : i.Transfers .pushf w) (hj : j.Transfers .popf w)
    (hram : s.ram.Backs (s.cpu.placed (s.cpu.flagElements w))) :
    s.Undone (s.cpu.flagElements w) i j := by
  have ht := System.pushed_pushes (s.cpu.extent_flagElements_le w) hram i.length
  refine ⟨_, _, run_pushf hi s, ht, popf_of_carries hw hj ht.carries, ?_, rfl, rfl⟩
  have hcpu : (s.pushes (s.cpu.flagElements w)).cpu = s.cpu.lowered w.bytes := System.cpu_pushes ..
  have hgprs : ((s.cpu.lowered w.bytes).adjustStack w.stride).gprs = s.cpu.gprs :=
    congrArg (·.gprs) (s.cpu.adjustStack_lowered_bytes w)
  have hflags : (s.cpu.lowered w.bytes).flags.reloaded w s.cpu.flags = s.cpu.flags :=
    s.cpu.flags.reloaded_self w
  have hback (next : UInt32) : { s.cpu with
      gprs := ((s.cpu.lowered w.bytes).adjustStack w.stride).gprs
      flags := (s.cpu.lowered w.bytes).flags.reloaded w s.cpu.flags
      eip := next } = { s.cpu with eip := next } := by
    rw [hgprs, hflags]
  simp only [System.cpu_modifyCpu, hcpu]
  exact hback _

/-- The image keeps all flags that are not hidden, and has the reserved bit. -/
theorem image_of_pushf (hi : i.Transfers .pushf w) (s : System δ) : ∃ x, (execute i).run s =
      .ok .retired ((s.push w x).modifyCpu fun c => { c with eip := s.cpu.nextOffset i.length }) ∧
    Flags.bit x 1 = true ∧ Flags.bit x 16 = false ∧ Flags.bit x 17 = false ∧
    Flags.ofBits x = { s.cpu.flags with resume := false, virtual8086 := false } := by
  have hflags := s.cpu.flags.visible.ofBits_image
  have hresume : Flags.bit s.cpu.flags.visible.image 16 = false := congrArg Flags.resume hflags
  have hvirtual : Flags.bit s.cpu.flags.visible.image 17 = false :=
    congrArg Flags.virtual8086 hflags
  have hreserved : Flags.bit s.cpu.flags.visible.image 1 = true := by
    rw [Flags.image, Flags.bit_or]
    exact Bool.or_true _
  exact ⟨_, run_pushf hi s, hreserved, hresume, hvirtual, hflags⟩

theorem sahf_of_lahf (hi : i.Transfers .lahf w) (hj : j.Transfers .sahf w) (s : System δ) :
    ∃ t r, (execute i).run s = .ok .retired t ∧
      t.cpu = { s.cpu with
        gprs := s.cpu.gprs.setHigh .eax s.cpu.flags.image.toUInt8.toUInt32
        eip := s.cpu.nextOffset i.length } ∧
      (execute j).run t = .ok .retired r ∧
      r.cpu = { t.cpu with flags := s.cpu.flags, eip := t.cpu.nextOffset j.length } := by
  let b := s.cpu.flags.statusByte
  have hbyte : b.toUInt32 &&& 0xFF = b.toUInt32 :=
    (UInt8.toUInt32_and b 0xFF).symm.trans (congrArg UInt8.toUInt32 UInt8.and_neg_one)
  have hhigh : ((s.cpu.gprs.setHigh .eax b.toUInt32).high .eax).toUInt8 = b := by
    rw [Gprs.high_setHigh, hbyte]
    exact UInt8.toUInt8_toUInt32 b
  have hflags : s.cpu.flags.ofStatusByte
      ((s.cpu.gprs.setHigh .eax b.toUInt32).high .eax).toUInt8 = s.cpu.flags := by
    rw [hhigh]
    exact s.cpu.flags.ofStatusByte_statusByte
  have hkept (next : UInt32) : { s.cpu.setHigh .eax b.toUInt32 with
      flags := s.cpu.flags.ofStatusByte
        ((s.cpu.gprs.setHigh .eax b.toUInt32).high .eax).toUInt8
      eip := next } = { s.cpu.setHigh .eax b.toUInt32 with eip := next } := by
    rw [hflags]
    rfl
  exact ⟨_, _, run_lahf hi s, rfl, run_sahf hj _, hkept _⟩

/-- **What is saved comes back.**  For either size of operands and either width of the stack,
wherever the stack pointer is and wherever it wraps around: POPA takes back what PUSHA has saved
and POPF what PUSHF has saved, if the elements lie in memory, and SAHF takes back what LAHF has
saved.  What an element or an image is too narrow for is left alone. -/
theorem restore_of_save (hw : w ≠ .byte) (s : System δ) : s.Restores w where
  registers i j hi hj hram := popa_of_pusha hi hj hram
  registersBetween j u hj hu := run_popa hj hu
  flags i j hi hj hram := popf_of_pushf hw hi hj hram
  flagsBetween j u hj hu := ⟨_, popf_of_carries hw hj hu, rfl⟩
  anyImage j hj := ⟨_, run_popf hw hj s, rfl, rfl, rfl⟩
  image i hi := image_of_pushf hi s
  status i j hi hj := sahf_of_lahf hi hj s
  anyStatus j hj := by
    refine ⟨_, run_sahf hj s, ?_, rfl, rfl⟩
    rw [System.cpu_modifyCpu, Flags.ofStatusByte_toUInt8]

/-- A system on whose 16-bit stack the pointer comes around as registers are pushed. -/
def saving : System Unit where
  cpu := { Cpu.reset with
    gprs := ⟨0x11111111, 0x22222222, 0x33333333, 0x44444444, 0xABCD0006, 0x66666666, 0x77777777,
      0x88888888⟩
    flags := { carry := true, privilege := 2, resume := true, virtual8086 := true,
               identification := true } }
  ram := Ram.zeroed 0x20000
  io := Io.init ()

theorem backs_saving {xs : List StackElement}
    (h : ∀ p ∈ saving.cpu.placed xs, p.2.toNat + p.1.width.bytes ≤ 0x20000) :
    saving.ram.Backs (saving.cpu.placed xs) := by
  have hsize : saving.ram.size = 0x20000 := Ram.size_zeroed _
  unfold Ram.Backs
  rw [hsize]
  exact h

/-- The registers and the flags come back. -/
theorem restore_of_save_saving :
    let s := saving
    let pusha := Instruction.ofOperands (.transfer .pusha) [] 1
    let popa := Instruction.ofOperands (.transfer .popa) [] 1
    let pushf := Instruction.ofOperands (.transfer .pushf) [] 1
    let popf := Instruction.ofOperands (.transfer .popf) [] 1
    Instruction.decode [0x60] false 0 = .ok pusha ∧ Instruction.decode [0x61] false 0 = .ok popa ∧
      Instruction.decode [0x9C] false 0 = .ok pushf ∧
      Instruction.decode [0x9D] false 0 = .ok popf ∧
      s.ram.Backs (s.cpu.placed (s.cpu.registerElements .word)) ∧
      s.ram.Backs (s.cpu.placed (s.cpu.flagElements .word)) ∧
      s.Undone (s.cpu.registerElements .word) pusha popa ∧
      s.Undone (s.cpu.flagElements .word) pushf popf := by
  intro s pusha popa pushf popf
  have hregisters : s.ram.Backs (s.cpu.placed (s.cpu.registerElements .word)) :=
    backs_saving (by decide +kernel)
  have hflags : s.ram.Backs (s.cpu.placed (s.cpu.flagElements .word)) :=
    backs_saving (by decide +kernel)
  have h := restore_of_save (w := .word) (by decide) s
  exact ⟨by decide +kernel, by decide +kernel, by decide +kernel, by decide +kernel, hregisters,
    hflags, h.registers _ _ ⟨rfl, rfl, rfl⟩ ⟨rfl, rfl, rfl⟩ hregisters,
    h.flags _ _ ⟨rfl, rfl, rfl⟩ ⟨rfl, rfl, rfl⟩ hflags⟩

end Exec

end Ia32
