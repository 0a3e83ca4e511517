/-
  What an operation leaves alone.

  An operation that is not a transfer of control changes general registers, memory and status
  flags as it likes.  Of the rest of the machine it changes the parts that it is made for, and
  nothing else.

  Main definitions:
  - `Descriptor.Fits`, `SegmentName.Loads` : what a segment register can hold after it is loaded
  - `Part`, `Frame` : two systems that agree but for some parts
  - `Exec.Keeps` : a computation that stays within a frame when it answers

  Main statements:
  - `Frame.trans`, `Frame.mono`, `Exec.Keeps.bind` : frames compose
  - `System.loads_of_segmentFor` : what a selector loads
-/
import Ia32.Execute.Transfer
import Ia32.Proofs.Atomicity

namespace Ia32

variable {δ : Type}

/-! ## Loaded segments -/

/-- The descriptors that stand in a segment register: present code, present and writable data for
the stack, and for the others what can be read, or nothing. -/
def Descriptor.Fits (d : Descriptor) : SegmentName → Prop
  | .cs => d.present = true ∧ d.code = true
  | .ss => d.present = true ∧ d.user = true ∧ d.code = false ∧ d.writable = true
  | _ => d = .null ∨
      d.present = true ∧ d.user = true ∧ (d.code = false ∨ d.writable = true)

/-- The segments that a register can be loaded with, in protected mode or in real mode. -/
def SegmentName.Loads (n : SegmentName) (inProtected : Bool) (g : Segment) : Prop :=
  if inProtected then g.descriptor.Fits n else g = .realMode g.selector (n == .cs)

theorem Descriptor.fits_realMode (n : SegmentName) (selector : UInt16) :
    (Descriptor.realMode selector (n == .cs)).Fits n := by
  cases n
  case cs => exact ⟨rfl, rfl⟩
  case ss => exact ⟨rfl, rfl, rfl, rfl⟩
  all_goals exact .inr ⟨rfl, rfl, .inl rfl⟩

theorem SegmentName.Loads.fits {n : SegmentName} {b : Bool} {g : Segment} (h : n.Loads b g) :
    g.descriptor.Fits n := by
  cases b with
  | true => exact h
  | false =>
    have hg : g = .realMode g.selector (n == .cs) := h
    rw [hg]
    exact Descriptor.fits_realMode n g.selector

theorem Descriptor.fits_of_suits {d : Descriptor} {n : SegmentName} (hs : d.suits n = true)
    (hp : d.present = true) : d.Fits n := by
  cases n
  case cs => exact ⟨hp, hs⟩
  case ss =>
    simp only [suits, isStack, Bool.and_eq_true, Bool.not_eq_true'] at hs
    exact ⟨hp, hs.1.1, hs.1.2, hs.2⟩
  all_goals
    simp only [suits, isReadable, Bool.and_eq_true, Bool.or_eq_true, Bool.not_eq_true'] at hs
    exact .inr ⟨hp, hs.1, hs.2⟩

theorem System.loads_of_segmentFor {s : System δ} {n : SegmentName} {selector : UInt16}
    {g : Segment} (h : s.segmentFor n selector = .ok g) : n.Loads s.cpu.protectedMode g := by
  unfold segmentFor at h
  cases hp : s.cpu.protectedMode with
  | false => rw [hp] at h; cases h; rfl
  | true =>
    rw [hp, if_pos rfl] at h
    change g.descriptor.Fits n
    unfold segmentOf at h
    split_ifs at h
    · cases n <;> cases h <;> exact .inl rfl
    · cases hd : s.descriptorOf selector with
      | error f => rw [hd] at h; cases h
      | ok d =>
        rw [hd] at h
        dsimp only at h
        split_ifs at h with hsuits hpresent
        cases h
        exact Descriptor.fits_of_suits (by simpa using hsuits) (by simpa using hpresent)

/-! ## Frames -/

/-- The flags apart from the arithmetic status. -/
def Flags.modes (f : Flags) : Flags :=
  { f with
    carry := false
    parity := false
    adjust := false
    zero := false
    sign := false
    overflow := false }

/-- The parts of a machine that only operations made for them change. -/
inductive Part
  | segments | control | debug | gdtr | idtr | modes | ports
  deriving DecidableEq, Repr

/-- System `t` differs from `s` in general registers, memory, status flags, and parts in `p`. -/
structure Frame (p : Part → Prop) (s t : System δ) : Prop where
  eip : t.cpu.eip = s.cpu.eip
  code : t.cpu.segment .cs = s.cpu.segment .cs
  halted : t.cpu.halted = s.cpu.halted
  level : t.cpu.interruptLevel = s.cpu.interruptLevel
  mode : t.cpu.protectedMode = s.cpu.protectedMode
  resume : t.cpu.flags.resume = s.cpu.flags.resume
  virtual8086 : t.cpu.flags.virtual8086 = s.cpu.flags.virtual8086
  segments : ∀ n, t.cpu.segment n = s.cpu.segment n ∨
    p .segments ∧ n.Loads s.cpu.protectedMode (t.cpu.segment n)
  control : t.cpu.control = s.cpu.control ∨ p .control
  debug : t.cpu.debug = s.cpu.debug ∨ p .debug
  gdtr : t.cpu.gdtr = s.cpu.gdtr ∨ p .gdtr
  idtr : t.cpu.idtr = s.cpu.idtr ∨ p .idtr
  modes : t.cpu.flags.modes = s.cpu.flags.modes ∨ p .modes
  io : t.io = s.io ∨ p .ports

namespace Frame

variable {p q : Part → Prop} {s t u : System δ}

/-- Without any of the parts, what changes is general registers, status flags and memory. -/
theorem of_eq (hcpu : t.cpu = { s.cpu with gprs := t.cpu.gprs, flags := t.cpu.flags })
    (hflags : t.cpu.flags.modes = s.cpu.flags.modes) (hio : t.io = s.io) : Frame p s t := by
  have hresume := congrArg Flags.resume hflags
  have hvirtual := congrArg Flags.virtual8086 hflags
  refine ⟨?_, ?_, ?_, ?_, ?_, hresume, hvirtual, fun n => .inl ?_, .inl ?_, .inl ?_, .inl ?_,
    .inl ?_, .inl hflags, .inl hio⟩ <;> rw [hcpu] <;> rfl

theorem refl (s : System δ) : Frame p s s := of_eq rfl rfl rfl

theorem mono (h : Frame p s t) (hpq : ∀ x, p x → q x) : Frame q s t where
  __ := h
  segments n := (h.segments n).imp_right fun hn => ⟨hpq _ hn.1, hn.2⟩
  control := h.control.imp_right (hpq _)
  debug := h.debug.imp_right (hpq _)
  gdtr := h.gdtr.imp_right (hpq _)
  idtr := h.idtr.imp_right (hpq _)
  modes := h.modes.imp_right (hpq _)
  io := h.io.imp_right (hpq _)

theorem trans (h : Frame p s t) (h' : Frame p t u) : Frame p s u where
  eip := h'.eip.trans h.eip
  code := h'.code.trans h.code
  halted := h'.halted.trans h.halted
  level := h'.level.trans h.level
  mode := h'.mode.trans h.mode
  resume := h'.resume.trans h.resume
  virtual8086 := h'.virtual8086.trans h.virtual8086
  segments n := by
    rcases h'.segments n with e | ⟨hp, hn⟩
    · rw [e]; exact h.segments n
    · rw [h.mode] at hn; exact .inr ⟨hp, hn⟩
  control := h'.control.elim (fun e => e ▸ h.control) .inr
  debug := h'.debug.elim (fun e => e ▸ h.debug) .inr
  gdtr := h'.gdtr.elim (fun e => e ▸ h.gdtr) .inr
  idtr := h'.idtr.elim (fun e => e ▸ h.idtr) .inr
  modes := h'.modes.elim (fun e => e ▸ h.modes) .inr
  io := h'.io.elim (fun e => e ▸ h.io) .inr

theorem write (s : System δ) (n : SegmentName) (offset : UInt32) (w : Width) (v : UInt32) :
    Frame p s (s.write n offset w v) := of_eq rfl rfl rfl

/-- Changes one after the other. -/
theorem foldl {α : Type} {f : System δ → α → System δ} (h : ∀ s x, Frame p s (f s x))
    (xs : List α) (s : System δ) : Frame p s (xs.foldl f s) := by
  induction xs generalizing s with
  | nil => exact refl s
  | cons x xs ih => exact (h s x).trans (ih (f s x))

/-- A write to a place. -/
theorem stored (s : System δ) (w : Width) (v : UInt32) (l : Location) :
    Frame p s (s.stored w v l) := by
  cases l with
  | register r =>
    change Frame p s (s.modifyCpu (·.setGeneral r v))
    obtain ⟨g, hg⟩ := s.cpu.setGeneral_eq r v
    rw [System.modifyCpu, hg]
    exact of_eq rfl rfl rfl
  | memory n offset => exact write s n offset w v
  | immediate v => exact refl s

theorem push (s : System δ) (w : Width) (v : UInt32) : Frame p s (s.push w v) := of_eq rfl rfl rfl

theorem lookedUp (s : System δ) (selector : UInt16) : Frame p s (s.lookedUp selector) := by
  rcases s.lookedUp_eq selector with e | ⟨a, -, -, e⟩
  · rw [e]; exact refl s
  · rw [e]; exact of_eq rfl rfl rfl

theorem consulted (s : System δ) (selector : UInt16) : Frame p s (s.consulted selector) := by
  unfold System.consulted
  split_ifs
  · exact lookedUp s selector
  · exact refl s

theorem gated (s : System δ) (v : UInt8) : Frame p s (s.gated v) := by
  unfold System.gated
  split_ifs
  · split
    · exact refl s
    · exact lookedUp s _
  · exact refl s

theorem setControl (s : System δ) (f : Cpu → Vector UInt32 5) (hp : p .control) :
    Frame p s (s.modifyCpu fun c => { c with control := f c }) :=
  { refl (p := p) s with control := .inr hp }

theorem setDebug (s : System δ) (f : Cpu → Vector UInt32 8) (hp : p .debug) :
    Frame p s (s.modifyCpu fun c => { c with debug := f c }) :=
  { refl (p := p) s with debug := .inr hp }

theorem setGdtr (s : System δ) (r : TableRegister) (hp : p .gdtr) :
    Frame p s (s.modifyCpu fun c => { c with gdtr := r }) :=
  { refl (p := p) s with gdtr := .inr hp }

theorem setIdtr (s : System δ) (r : TableRegister) (hp : p .idtr) :
    Frame p s (s.modifyCpu fun c => { c with idtr := r }) :=
  { refl (p := p) s with idtr := .inr hp }

theorem setIo (s : System δ) (io : Io δ) (hp : p .ports) : Frame p s { s with io := io } :=
  { refl (p := p) s with io := .inr hp }

/-- Status flags are free to change. -/
theorem setFlags (s : System δ) {f : Cpu → Flags} (h : (f s.cpu).modes = s.cpu.flags.modes) :
    Frame p s (s.modifyCpu fun c => { c with flags := f c }) := of_eq rfl h rfl

/-- Other flags are not, and the resume and virtual-8086 flags never change. -/
theorem setModes (s : System δ) {f : Cpu → Flags}
    (hresume : (f s.cpu).resume = s.cpu.flags.resume)
    (hvirtual : (f s.cpu).virtual8086 = s.cpu.flags.virtual8086) (hp : p .modes) :
    Frame p s (s.modifyCpu fun c => { c with flags := f c }) :=
  { refl (p := p) s with resume := hresume, virtual8086 := hvirtual, modes := .inr hp }

/-- A segment register other than CS is loaded. -/
theorem setSegment {n : SegmentName} {g : Segment} (hn : n ≠ .cs) (hp : p .segments)
    (hg : n.Loads s.cpu.protectedMode g) : Frame p s (s.modifyCpu (·.setSegment n g)) where
  eip := rfl
  code := (s.cpu.segment_setSegment n .cs g).trans (if_neg hn.symm)
  halted := rfl
  level := rfl
  mode := rfl
  resume := rfl
  virtual8086 := rfl
  segments k := by
    change (s.cpu.setSegment n g).segment k = _ ∨ _ ∧ k.Loads _ ((s.cpu.setSegment n g).segment k)
    rw [Cpu.segment_setSegment]
    split_ifs with h
    · rw [h]; exact .inr ⟨hp, hg⟩
    · exact .inl rfl
  control := .inl rfl
  debug := .inl rfl
  gdtr := .inl rfl
  idtr := .inl rfl
  modes := .inl rfl
  io := .inl rfl

end Frame

namespace Exec

variable {α β : Type} {p : Part → Prop}

/-- If `x` answers, the systems before and after it agree but for the parts in `p`. -/
def Keeps (p : Part → Prop) (x : Exec δ α) : Prop :=
  ∀ s a t, x.run s = .ok a t → Frame p s t

namespace Keeps

theorem pure (a : α) : Keeps p (pure a : Exec δ α) := by
  rintro s _ _ ⟨⟩
  exact .refl s

theorem throw (f : Fault) : Keeps p (throw f : Exec δ α) := by rintro s a t ⟨⟩

theorem ofExcept (r : Except Fault α) : Keeps p (ofExcept r : Exec δ α) := by
  cases r with
  | ok a => exact pure a
  | error f => exact throw f

theorem get : Keeps p (get : Exec δ (System δ)) := by
  rintro s _ _ ⟨⟩
  exact .refl s

theorem gets (f : System δ → α) : Keeps p (gets f) := by
  rintro s _ _ ⟨⟩
  exact .refl s

theorem modify {f : System δ → System δ} (h : ∀ s, Frame p s (f s)) :
    Keeps p (modify f : Exec δ PUnit) := by
  rintro s _ _ ⟨⟩
  exact h s

theorem modifyCpu {f : Cpu → Cpu} (h : ∀ s : System δ, Frame p s (s.modifyCpu f)) :
    Keeps p (modifyCpu f : Exec δ Unit) := by
  rintro s _ _ ⟨⟩
  exact h s

theorem bind {x : Exec δ α} {g : α → Exec δ β} (hx : Keeps p x) (hg : ∀ a, Keeps p (g a)) :
    Keeps p (x >>= g) := by
  intro s b t h
  rw [run_bind] at h
  cases e : x.run s with
  | ok a u => rw [e] at h; exact (hx s a u e).trans (hg a u b t h)
  | error f u => rw [e] at h; cases h

/-- A computation that answers with a known state. -/
theorem of_run {x : Exec δ α} {r : System δ → α} {f : System δ → System δ}
    (h : ∀ s, x.run s = .ok (r s) (f s)) (hf : ∀ s, Frame p s (f s)) : Keeps p x := by
  intro s a t e
  rw [h] at e
  cases e
  exact hf s

end Keeps

theorem keeps_setSelector {n : SegmentName} (hn : n ≠ .cs) (hp : p .segments)
    (selector : UInt16) : Keeps p (setSelector n selector : Exec δ Unit) := by
  intro s _ t e
  rw [run_setSelector] at e
  cases h : s.segmentFor n selector with
  | error f => rw [h] at e; cases e
  | ok g =>
    rw [h] at e
    cases e
    have hmode : (s.consulted selector).cpu.protectedMode = s.cpu.protectedMode :=
      (Frame.consulted (p := p) s selector).mode
    have hg := System.loads_of_segmentFor h
    rw [← hmode] at hg
    exact (Frame.consulted s selector).trans (.setSegment hn hp hg)

end Exec

end Ia32
