/-
  Into a handler and straight back.

  A handler that returns at once gives the interrupted code its registers back.  In protected mode
  this takes the descriptor table: the code segment is loaded again on the way back, and it must
  be one that a far transfer accepts.

  Main definitions:
  - `Cpu.enter`, `Cpu.leave` : the registers on the way into a handler, and out of it
  - `System.Resumable` : the stack and the tables allow a return
  - `System.Interrupted` : a handler has been entered
  - `System.Returnable` : a far transfer accepts the code segment in force

  Main statements:
  - `GateKind.restore_entryFlags` : the flags that come back
  - `Cpu.leave_enter` : the registers that come back
  - `System.peek_entered`, `System.targetFor_entered` : the place that the handler goes back to
  - `System.cpu_entered`, `System.byte_entered` : registers and memory in the handler
-/
import Ia32.Proofs.Entries
import Ia32.Proofs.StackFrame

namespace Ia32

variable {δ : Type}

attribute [ext] Cpu

namespace Width

theorem toUInt16_truncate {w : Width} (hw : w ≠ .byte) (x : UInt16) :
    (w.truncate x.toUInt32).toUInt16 = x := by
  have hlt := x.toNat_lt
  apply UInt16.toNat_inj.1
  rw [UInt32.toNat_toUInt16, toNat_truncate, UInt16.toNat_toUInt32]
  cases w with
  | byte => exact absurd rfl hw
  | word => simp only [modulus]; omega
  | dword => simp only [modulus]; omega

end Width

/-! ## Flags -/

/-- The gates of protected mode clear nothing but what the image brings back, and the resume
flag. -/
theorem GateKind.restore_entryFlags {k : GateKind} {w : Width} {f : Flags} (hk : k ≠ .vector)
    (hw : w ≠ .byte) (hresume : f.resume = false) :
    (k.entryFlags f).restore w (w.truncate f.image) = f := by
  have hkeep : { f with resume := false } = f := by rw [← hresume]
  cases w with
  | byte => exact absurd rfl hw
  | word =>
    rw [Flags.restore_word]
    cases k with
    | vector => exact absurd rfl hk
    | interrupt => exact hkeep
    | trap => exact hkeep
  | dword =>
    rw [Flags.restore_dword]
    cases k with
    | vector => exact absurd rfl hk
    | interrupt => exact hkeep
    | trap => exact hkeep

/-! ## Registers -/

namespace Cpu

/-- The registers in the handler that a gate leads to. -/
def enter (c : Cpu) (g : Gate) : Cpu :=
  { c.adjustStack (-(3 * g.frame.stride)) with
    segments := c.segments.set .cs g.target.segment
    eip := g.target.offset
    flags := g.kind.entryFlags c.flags
    halted := false
    interruptLevel :=
      if c.interruptLevel = 0xFFFFFFFF then c.interruptLevel else c.interruptLevel + 1 }

/-- The registers after the return from a handler to `p`, with the flags of an image. -/
def leave (c : Cpu) (p : CodePointer) (w : Width) (image : UInt32) : Cpu :=
  { (c.jump p).adjustStack (3 * w.stride) with
    flags := c.flags.restore w image
    interruptLevel := if c.interruptLevel = 0 then 0 else c.interruptLevel - 1 }

/-- What a handler changes of the registers is CS, EIP and the flags. -/
theorem leave_enter {c : Cpu} (g : Gate) (p : CodePointer) (image : UInt32)
    (hlevel : c.interruptLevel < 0xFFFFFFFF) :
    (c.enter g).leave p g.frame image =
      { c with
        segments := c.segments.set .cs p.segment
        eip := p.offset
        flags := (g.kind.entryFlags c.flags).restore g.frame image
        halted := false } := by
  apply Cpu.ext
  case gprs =>
    have hback : -(3 * g.frame.stride) + 3 * g.frame.stride = 0 := UInt32.add_left_neg _
    have hstack : (c.adjustStack (-(3 * g.frame.stride))).adjustStack (3 * g.frame.stride) = c := by
      rw [adjustStack_adjustStack, hback, adjustStack_zero]
    have hgprs := congrArg gprs hstack
    exact hgprs
  case interruptLevel =>
    have hne : c.interruptLevel ≠ 0xFFFFFFFF := by
      intro e
      rw [e] at hlevel
      exact absurd hlevel (by decide)
    have hentered : (c.enter g).interruptLevel = c.interruptLevel + 1 := if_neg hne
    have hpos : c.interruptLevel + 1 ≠ 0 := by
      intro e
      have hlt : c.interruptLevel.toNat < 0xFFFFFFFF := hlevel
      have hsum : (c.interruptLevel.toNat + 1) % 2 ^ 32 = 0 := congrArg UInt32.toNat e
      omega
    rw [leave, hentered, if_neg hpos]
    exact UInt32.add_sub_cancel _ _
  all_goals rfl

end Cpu

/-! ## Gates -/

theorem gateForm?_eq_some {hi : UInt32} {k : GateKind} {w : Width}
    (h : gateForm? hi = some (k, w)) : k ≠ .vector ∧ w ≠ .byte := by
  unfold gateForm? at h
  split at h <;> cases h <;> decide

namespace System

variable {s t : System δ} {v : UInt8} {g : Gate}

theorem ram_enterGate (s : System δ) (g : Gate) (returnEip : UInt32) :
    (s.enterGate g returnEip).ram = (s.pushFrame g.frame returnEip).ram := rfl

theorem cpu_enterGate (s : System δ) (g : Gate) (returnEip : UInt32) :
    (s.enterGate g returnEip).cpu = s.cpu.enter g := by
  unfold enterGate
  rw [cpu_modifyCpu, cpu_pushFrame]
  rfl

/-- The handler has the stack that the frame was pushed on. -/
theorem peek_enterGate (s : System δ) (g : Gate) (returnEip offset : UInt32) (w : Width) :
    (s.enterGate g returnEip).peek offset w = (s.pushFrame g.frame returnEip).peek offset w := rfl

theorem gdtr_enterGate (s : System δ) (g : Gate) (returnEip : UInt32) :
    (s.enterGate g returnEip).cpu.gdtr = s.cpu.gdtr := rfl

theorem protectedMode_enterGate (s : System δ) (g : Gate) (returnEip : UInt32) :
    (s.enterGate g returnEip).cpu.protectedMode = s.cpu.protectedMode := rfl

/-- The mode has been sampled already. -/
theorem synced_eq (h : s.cpu.protectedMode = s.cpu.protectionEnabled) : s.synced = s := by
  have hcpu : s.cpu.syncMode = s.cpu := by
    rw [Cpu.syncMode, ← h]
  rw [synced, modifyCpu, hcpu]

theorem form_of_gateEntry {e : GateEntry} (h : s.gateEntry v = .ok e) :
    e.kind ≠ .vector ∧ e.frame ≠ .byte := by
  unfold gateEntry at h
  dsimp only at h
  split_ifs at h
  · split at h <;> cases h
  · split at h
    · cases h
    · rename_i k w hform
      cases h
      exact gateForm?_eq_some hform

/-- A gate of protected mode, and the code segment that it leads to. -/
theorem gate_of_gateFor (hmode : s.cpu.protectedMode = true) (h : s.gateFor v = .ok g) :
    g.kind ≠ .vector ∧ g.frame ≠ .byte ∧ s.gated v = s.lookedUp g.target.segment.selector := by
  obtain ⟨e, p, he, hp, rfl⟩ := (gateFor_eq_ok hmode).1 h
  obtain ⟨-, d, -, -, -, rfl, -⟩ := targetOf_eq_ok.1 hp
  have hgated : s.gated v = s.lookedUp e.selector := by
    rw [gated, if_pos hmode, he]
  exact ⟨(form_of_gateEntry he).1, (form_of_gateEntry he).2, hgated⟩

/-! ## The way back -/

/-- The stack and the tables allow a return to `returnEip` in the code segment: the frame lies in
memory and apart from the table entry of that segment, the entry is the one that is cached, and
the offset lies within the segment and fits what is pushed of it. -/
structure Resumable (s : System δ) (w : Width) (returnEip : UInt32) : Prop where
  stack : ∀ a ∈ s.cpu.frameSlots w, a.toNat + w.bytes ≤ s.ram.size
  apart : ∀ a, s.cpu.entryAddress (s.cpu.selector .cs) = .ok a →
    ∀ j, s.cpu.InFrame w j → ¬ EntryCovers a j
  cached : ∃ u, (Exec.loadDescriptor (s.cpu.selector .cs)).run s =
    .ok (s.cpu.segment .cs).descriptor u
  limit : returnEip ≤ (s.cpu.segment .cs).descriptor.limit
  narrow : w = .word ∨ (s.cpu.segment .cs).descriptor.wide = false → returnEip ≤ 0xFFFF

/-- The handler of vector `v` has been entered through gate `g` of protected mode, and `t` is the
system in which it starts; the stack and the tables allow a return. -/
structure Interrupted (s : System δ) (v : UInt8) (returnEip : UInt32) (g : Gate) (t : System δ) :
    Prop where
  mode : s.cpu.protectedMode = true
  enabled : s.cpu.protectionEnabled = true
  resume : s.cpu.flags.resume = false
  virtual8086 : s.cpu.flags.virtual8086 = false
  level : s.cpu.interruptLevel < 0xFFFFFFFF
  gate : ∃ u, (Exec.descriptorGate v).run s = .ok g u
  delivered : (Exec.deliver v returnEip).run s = .ok () t
  resumable : s.Resumable g.frame returnEip

/-- A far transfer accepts the code segment in force. -/
structure Returnable (s : System δ) : Prop where
  notNull : isNullSelector (s.cpu.selector .cs) = false
  code : (s.cpu.segment .cs).descriptor.code = true
  present : (s.cpu.segment .cs).descriptor.present = true

/-- The system after a handler has been entered through gate `g` of protected mode. -/
def entered (s : System δ) (g : Gate) (returnEip : UInt32) : System δ :=
  (s.lookedUp g.target.segment.selector).enterGate g returnEip

variable {w : Width} {returnEip : UInt32}

theorem Interrupted.eq_entered (h : s.Interrupted v returnEip g t) :
    g.kind ≠ .vector ∧ g.frame ≠ .byte ∧ t = s.entered g returnEip := by
  have hg : s.gateFor v = .ok g := by
    obtain ⟨u, hu⟩ := h.gate
    rw [Exec.run_descriptorGate v h.mode] at hu
    cases e : s.gateFor v with
    | error f => rw [e] at hu; cases hu
    | ok g' => rw [e] at hu; cases hu; rfl
  obtain ⟨hkind, hframe, hgated⟩ := gate_of_gateFor h.mode hg
  refine ⟨hkind, hframe, ?_⟩
  have hrun := h.delivered
  rw [Exec.run_deliver, synced_eq (h.mode.trans h.enabled.symm), hg, hgated] at hrun
  cases hrun
  rfl

theorem Resumable.descriptorOf (hr : s.Resumable w returnEip) :
    s.descriptorOf (s.cpu.selector .cs) = .ok (s.cpu.segment .cs).descriptor := by
  obtain ⟨u, hu⟩ := hr.cached
  rw [Exec.run_loadDescriptor] at hu
  cases e : s.descriptorOf (s.cpu.selector .cs) with
  | error f => rw [e] at hu; cases hu
  | ok d => rw [e] at hu; cases hu; rfl

/-- The handler's frame does not disturb the table entry of the interrupted code. -/
theorem descriptorOf_entered (hr : s.Resumable g.frame returnEip) :
    (s.entered g returnEip).descriptorOf (s.cpu.selector .cs) =
      .ok (s.cpu.segment .cs).descriptor := by
  rw [← hr.descriptorOf]
  refine descriptorOf_congr ?_ fun a ha => ?_
  · rw [entered, gdtr_enterGate, cpu_lookedUp]
  · rw [← cachedAt_lookedUp ha]
    refine cachedAt_congr fun j hj => byte_pushFrame returnEip fun hframe => ?_
    rw [cpu_lookedUp] at hframe
    exact hr.apart a ha j hframe hj

/-- What the handler finds on the stack. -/
theorem peek_entered (hr : s.Resumable g.frame returnEip) (hframe : g.frame ≠ .byte) :
    (s.entered g returnEip).peek 0 g.frame = returnEip ∧
    ((s.entered g returnEip).peek g.frame.stride g.frame).toUInt16 = s.cpu.selector .cs ∧
    (s.entered g returnEip).peek (2 * g.frame.stride) g.frame =
      g.frame.truncate s.cpu.flags.image := by
  have hstack : ∀ a ∈ (s.lookedUp g.target.segment.selector).cpu.frameSlots g.frame,
      a.toNat + g.frame.bytes ≤ (s.lookedUp g.target.segment.selector).ram.size := by
    rw [cpu_lookedUp, size_lookedUp]
    exact hr.stack
  obtain ⟨heip, hcs, hflags⟩ := peek_pushFrame_of_mem returnEip hstack
  rw [cpu_lookedUp] at hcs hflags
  refine ⟨heip.trans ?_, (congrArg UInt32.toUInt16 hcs).trans ?_, hflags⟩
  · cases hw : g.frame with
    | byte => exact absurd hw hframe
    | word => exact Width.truncate_word_of_le (hr.narrow (.inl hw))
    | dword => exact Width.truncate_dword _
  · exact Width.toUInt16_truncate hframe _

/-- The far pointer on the stack leads back to the interrupted code. -/
theorem targetFor_entered (hmode : s.cpu.protectedMode = true)
    (hr : s.Resumable g.frame returnEip) (hb : s.Returnable) :
    (s.entered g returnEip).targetFor (s.cpu.selector .cs) returnEip =
      .ok ⟨s.cpu.segment .cs, returnEip⟩ := by
  have hmode' : (s.entered g returnEip).cpu.protectedMode = true := by
    rw [entered, protectedMode_enterGate, cpu_lookedUp, hmode]
  have hoffset : (if (s.cpu.segment .cs).descriptor.wide then returnEip
      else returnEip &&& 0xFFFF) = returnEip := by
    split_ifs with hwide
    · rfl
    · exact Width.truncate_word_of_le (hr.narrow (.inr (Bool.eq_false_iff.2 hwide)))
  rw [targetFor, if_pos hmode', targetOf_eq_ok]
  refine ⟨hb.notNull, _, descriptorOf_entered hr, hb.code, hb.present, ?_, hr.limit⟩
  rw [hoffset]
  rfl

/-- The registers in the handler. -/
theorem cpu_entered (s : System δ) (g : Gate) (returnEip : UInt32) :
    (s.entered g returnEip).cpu = s.cpu.enter g := by
  rw [entered, cpu_enterGate, cpu_lookedUp]

theorem io_entered (s : System δ) (g : Gate) (returnEip : UInt32) :
    (s.entered g returnEip).io = s.io := by
  rw [entered, io_enterGate, io_lookedUp]

theorem size_entered (s : System δ) (g : Gate) (returnEip : UInt32) :
    (s.entered g returnEip).ram.size = s.ram.size := by
  rw [entered, ram_enterGate, size_pushFrame, size_lookedUp]

/-- Outside the frame, a handler finds memory as it was, but for the accessed bit of its own code
segment. -/
theorem byte_entered (s : System δ) (g : Gate) (returnEip : UInt32) {j : Nat}
    (hj : ¬ s.cpu.InFrame g.frame j) : (s.entered g returnEip).ram.byte j = s.ram.byte j ∨
      s.cpu.Marks g.target.segment.selector j ∧
        (s.entered g returnEip).ram.byte j = s.ram.byte j ||| 1 := by
  have hpushed : (s.entered g returnEip).ram.byte j =
      (s.lookedUp g.target.segment.selector).ram.byte j :=
    byte_pushFrame returnEip (by rwa [cpu_lookedUp])
  rw [hpushed]
  exact s.byte_lookedUp g.target.segment.selector j

end System

/-! ## There and back -/

namespace Exec

variable {s t : System δ} {v : UInt8} {g : Gate} {returnEip : UInt32}

/-- **An interrupt in protected mode, and the return from it**, leave all registers as they were,
but for EIP, which is the offset to return to, and the halt, which is over.  Of memory they change
the frame, and the accessed bits of the two code segments. -/
theorem interruptReturn_of_interrupted (h : s.Interrupted v returnEip g t) (hb : s.Returnable) :
    ∃ r, (interruptReturn g.frame).run t = .ok () r ∧
      r.cpu = { s.cpu with eip := returnEip, halted := false } ∧ r.io = s.io ∧
      r.ram.size = s.ram.size ∧ ∀ j, ¬ s.cpu.InFrame g.frame j →
        r.ram.byte j = s.ram.byte j ∨
          (s.cpu.Marks g.target.segment.selector j ∨ s.cpu.Marks (s.cpu.selector .cs) j) ∧
            r.ram.byte j = s.ram.byte j ||| 1 := by
  obtain ⟨hkind, hframe, rfl⟩ := h.eq_entered
  have hr := h.resumable
  obtain ⟨heip, hcs, hflags⟩ := System.peek_entered hr hframe
  have hcpu := s.cpu_entered g returnEip
  have hsynced : (s.entered g returnEip).synced = s.entered g returnEip := by
    refine System.synced_eq ?_
    rw [hcpu]
    exact h.mode.trans h.enabled.symm
  have hconsulted : (s.entered g returnEip).consulted (s.cpu.selector .cs) =
      (s.entered g returnEip).lookedUp (s.cpu.selector .cs) := by
    rw [System.consulted, hcpu]
    exact if_pos h.mode
  have hrun := run_interruptReturn g.frame (s.entered g returnEip)
  rw [hsynced, hcs, heip, hflags, System.targetFor_entered h.mode hr hb, hconsulted] at hrun
  refine ⟨_, hrun, ?_, ?_, ?_, ?_⟩
  · have hcode : s.cpu.segments.set .cs (s.cpu.segment .cs) = s.cpu.segments :=
      Segments.set_get _ _
    have hleave := Cpu.leave_enter g ⟨s.cpu.segment .cs, returnEip⟩
      (g.frame.truncate s.cpu.flags.image) h.level
    rw [hcode, GateKind.restore_entryFlags hkind hframe h.resume] at hleave
    rw [System.cpu_modifyCpu, System.cpu_lookedUp, hcpu]
    exact hleave
  · rw [System.io_modifyCpu, System.io_lookedUp, System.io_entered]
  · rw [System.ram_modifyCpu, System.size_lookedUp, System.size_entered]
  · intro j hj
    have hmarks : (s.entered g returnEip).cpu.Marks (s.cpu.selector .cs) j ↔
        s.cpu.Marks (s.cpu.selector .cs) j := by
      rw [hcpu]
      rfl
    rw [System.ram_modifyCpu]
    rcases s.byte_entered g returnEip hj with e | ⟨hgate, e⟩
    · rcases (s.entered g returnEip).byte_lookedUp (s.cpu.selector .cs) j with e' | ⟨hback, e'⟩
      · exact .inl (e'.trans e)
      · exact .inr ⟨.inr (hmarks.1 hback), by rw [e', e]⟩
    · rcases (s.entered g returnEip).byte_lookedUp (s.cpu.selector .cs) j with e' | ⟨hback, e'⟩
      · exact .inr ⟨.inl hgate, e'.trans e⟩
      · refine .inr ⟨.inl hgate, ?_⟩
        rw [e', e, UInt8.or_assoc]
        rfl

/-- Code that is interrupted in the segment of a given selector, whose table entry has a given
access byte; the handler is in the segment of selector 8. -/
def interruptedIn (selector : UInt16) (access : UInt8) : System Unit where
  cpu :=
    { Cpu.reset.setCr0 1 with
      gprs := { esp := 0x80 }
      segments := Cpu.reset.segments.set .cs
        ⟨selector, .ofEntry 0xFFFF (access.toUInt32 <<< 8 ||| 0x400100)⟩
      gdtr := ⟨0, 0x1F⟩
      idtr := ⟨0x20, 7⟩
      protectedMode := true }
  ram :=
    (((Ram.zeroed 0x100).writeBytes 8 [0xFF, 0xFF, 0, 0, 0, 0x9B, 0x40, 0]).writeBytes
      (selector &&& 0xFFF8).toUInt64 [0xFF, 0xFF, 0, 0, 0, access, 0x40, 0]).writeBytes
        0x20 [0, 0, 8, 0, 0, 0x8E, 0, 0]
  io := Io.init ()

/-- The gate of vector 0 in such a system. -/
def handlerGate : Gate := ⟨.interrupt, .dword, ⟨8, .ofEntry 0xFFFF 0x409B00⟩, 0⟩

theorem frameSlots_interruptedIn (selector : UInt16) (access : UInt8) :
    (interruptedIn selector access).cpu.frameSlots .dword = [0x7C, 0x78, 0x74] := by
  change (interruptedIn 0 0).cpu.frameSlots .dword = _
  decide +kernel

theorem le_of_inFrame {selector : UInt16} {access : UInt8} {j : Nat}
    (h : (interruptedIn selector access).cpu.InFrame .dword j) : 0x74 ≤ j := by
  obtain ⟨a, ha, hj, -⟩ := h
  rw [frameSlots_interruptedIn] at ha
  simp only [List.mem_cons, List.not_mem_nil, or_false] at ha
  rcases ha with rfl | rfl | rfl
  · exact Nat.le_trans (by decide) hj
  · exact Nat.le_trans (by decide) hj
  · exact hj

/-- The frame lies behind the table entry. -/
theorem resumable_interruptedIn {selector : UInt16} {access : UInt8} {a : UInt32}
    (ha : (interruptedIn selector access).cpu.entryAddress selector = .ok a) (hle : a.toNat ≤ 0x10)
    (hcached : (loadDescriptor selector).answer (interruptedIn selector access) =
      .ok ((interruptedIn selector access).cpu.segment .cs).descriptor) :
    (interruptedIn selector access).Resumable .dword 0 := by
  constructor
  case stack =>
    have hsize : (interruptedIn selector access).ram.size = 0x100 := by simp [interruptedIn]
    intro x hx
    rw [frameSlots_interruptedIn] at hx
    simp only [List.mem_cons, List.not_mem_nil, or_false] at hx
    rw [hsize]
    rcases hx with rfl | rfl | rfl <;> decide
  case apart =>
    intro b hb j hframe hentry
    cases ha.symm.trans hb
    have hfour : (a + 4).toNat = (a.toNat + 4) % 2 ^ 32 := UInt32.toNat_add _ _
    have hhigh := le_of_inFrame hframe
    unfold EntryCovers Width.Covers at hentry
    rw [hfour] at hentry
    simp only [Width.bytes] at hentry
    omega
  case cached => exact ⟨_, run_of_answer hcached⟩
  case limit => exact UInt32.zero_le
  case narrow => exact fun _ => by decide

theorem interrupted_interruptedIn {selector : UInt16} {access : UInt8}
    (hgate : (descriptorGate 0).answer (interruptedIn selector access) = .ok handlerGate)
    (hdeliver : (deliver 0 0).answer (interruptedIn selector access) = .ok ())
    (hr : (interruptedIn selector access).Resumable .dword 0) :
    (interruptedIn selector access).Interrupted 0 0 handlerGate
      ((deliver 0 0).after (interruptedIn selector access)) where
  mode := rfl
  enabled := by
    change (interruptedIn 0 0).cpu.protectionEnabled = true
    decide +kernel
  resume := rfl
  virtual8086 := rfl
  level := by
    change (0 : UInt32) < 0xFFFFFFFF
    decide
  gate := ⟨_, run_of_answer hgate⟩
  delivered := run_of_answer hdeliver
  resumable := hr

/-- No return is possible through a null selector or to a segment that is not code; and a code
segment may be marked as accessed on the way back. -/
theorem interruptReturn_corners :
    (let s := interruptedIn 0 0x9B
      let t := (deliver 0 0).after s
      s.Interrupted 0 0 handlerGate t ∧
        ∃ r, (interruptReturn .dword).run t = .error (.generalProtection 0 .farNull) r) ∧
    (let s := interruptedIn 0x10 0x93
      let t := (deliver 0 0).after s
      s.Interrupted 0 0 handlerGate t ∧
        ∃ r, (interruptReturn .dword).run t = .error (.generalProtection 0x10 .farType) r) ∧
    (let s := interruptedIn 0x10 0x9A
      let t := (deliver 0 0).after s
      s.Interrupted 0 0 handlerGate t ∧
        ∃ r, (interruptReturn .dword).run t = .ok () r ∧ ¬ s.cpu.InFrame .dword 0x15 ∧
          ¬ s.cpu.Marks 8 0x15 ∧ s.ram.byte 0x15 = 0x9A ∧ r.ram.byte 0x15 = 0x9B) := by
  refine ⟨⟨?_, ?_⟩, ⟨?_, ?_⟩, ⟨?_, ?_⟩⟩
  · exact interrupted_interruptedIn (by decide +kernel) (by decide +kernel)
      (resumable_interruptedIn (a := 0) rfl (by decide) (by decide +kernel))
  · exact ⟨_, run_of_answer_error (by decide +kernel)⟩
  · exact interrupted_interruptedIn (by decide +kernel) (by decide +kernel)
      (resumable_interruptedIn (a := 0x10) rfl (by decide) (by decide +kernel))
  · exact ⟨_, run_of_answer_error (by decide +kernel)⟩
  · exact interrupted_interruptedIn (by decide +kernel) (by decide +kernel)
      (resumable_interruptedIn (a := 0x10) rfl (by decide) (by decide +kernel))
  · refine ⟨_, run_of_answer (by decide +kernel), ?_, ?_, by decide +kernel, by decide +kernel⟩
    · intro hframe
      exact absurd (le_of_inFrame hframe) (by decide)
    · rintro ⟨x, hx, hj⟩
      have haddress : (interruptedIn 0x10 0x9A).cpu.entryAddress 8 = .ok 8 := by decide +kernel
      cases haddress.symm.trans hx
      exact absurd hj (by decide)

/-- A return that is possible. -/
theorem interruptReturn_interruptedIn :
    let s := interruptedIn 0x10 0x9A
    let t := (deliver 0 0).after s
    s.Interrupted 0 0 handlerGate t ∧ s.Returnable ∧
      ∃ r, (interruptReturn handlerGate.frame).run t = .ok () r ∧
        r.cpu = { s.cpu with eip := 0, halted := false } ∧ r.io = s.io ∧
        r.ram.size = s.ram.size ∧ ∀ j, ¬ s.cpu.InFrame handlerGate.frame j →
          r.ram.byte j = s.ram.byte j ∨
            (s.cpu.Marks handlerGate.target.segment.selector j ∨
              s.cpu.Marks (s.cpu.selector .cs) j) ∧ r.ram.byte j = s.ram.byte j ||| 1 := by
  have h : (interruptedIn 0x10 0x9A).Interrupted 0 0 handlerGate
      ((deliver 0 0).after (interruptedIn 0x10 0x9A)) :=
    interrupted_interruptedIn (by decide +kernel) (by decide +kernel)
      (resumable_interruptedIn (a := 0x10) rfl (by decide) (by decide +kernel))
  have hb : (interruptedIn 0x10 0x9A).Returnable :=
    ⟨by decide +kernel, by decide +kernel, by decide +kernel⟩
  exact ⟨h, hb, interruptReturn_of_interrupted h hb⟩

end Exec

end Ia32
