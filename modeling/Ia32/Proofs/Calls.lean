/-
  Procedures that are called, and that return at once.

  A call goes to its target first and pushes the place to return to afterwards; a return looks at
  that place, goes there, and takes it off the stack last.  A far return loads the code segment
  again, so the table entry of that segment must be there still, and the segment comes back as one
  that has just been loaded: as code in real mode, and as accessed in protected mode.

  Main definitions:
  - `Reach` : near and far, with their calls and returns
  - `Reach.elements`, `Reach.reloaded` : what is pushed, and the code segment that comes back
  - `System.Called` : control has been transferred to the procedure
  - `System.AwaitsReturn`, `System.Reloadable` : stack and tables allow a return

  Main statements:
  - `Exec.called_of_execute` : what a call does
  - `Exec.run_leave` : what a return does, if the elements are on the stack
  - `Exec.return_of_call` : a call, and the return after it
-/
import Ia32.Proofs.AtomicExecution
import Ia32.Proofs.RoundTrip
import Ia32.Proofs.Selectors

namespace Ia32

variable {δ : Type}

open StackElement Exec

/-! ## Near and far -/

/-- A procedure is called in the code segment in force, or in any code segment. -/
inductive Reach
  | near | far
  deriving DecidableEq, Repr

namespace Reach

def callOp : Reach → BranchOp
  | near => .call
  | far => .callFar

def returnOp : Reach → BranchOp
  | near => .ret
  | far => .retFar

/-- Call the procedure; `next` is the offset to return to. -/
def call (k : Reach) (i : Instruction) (next : UInt32) : Exec δ Unit :=
  match k with
  | near => nearCall i next
  | far => farCall i next

/-- Return from the procedure. -/
def leave (k : Reach) (i : Instruction) : Exec δ Unit :=
  match k with
  | near => nearReturn i
  | far => farReturn i

theorem perform_callOp (k : Reach) (i : Instruction) (next : UInt32) :
    (k.callOp.perform i next : Exec δ Outcome) = k.call i next >>= fun _ => pure .branch := by
  cases k <;> rfl

theorem perform_returnOp (k : Reach) (i : Instruction) (next : UInt32) :
    (k.returnOp.perform i next : Exec δ Outcome) = k.leave i >>= fun _ => pure .branch := by
  cases k <;> rfl

/-- The place to return to, in the order in which it is pushed. -/
def elements (k : Reach) (c : Cpu) (w : Width) (next : UInt32) : List StackElement :=
  match k with
  | near => [⟨w, next⟩]
  | far => [⟨w, (c.selector .cs).toUInt32⟩, ⟨w, next⟩]

/-- The code segment after a return to it. -/
def reloaded (k : Reach) (c : Cpu) : Segment :=
  match k with
  | near => c.segment .cs
  | far =>
    if c.protectedMode then
      ⟨c.selector .cs, { (c.segment .cs).descriptor with accessed := true }⟩
    else .realMode (c.selector .cs) true

theorem extent_elements (k : Reach) (c : Cpu) (w : Width) (next : UInt32) :
    extent (k.elements c w next) ≤ c.stackWidth.modulus := by
  refine c.le_modulus_stackWidth ?_
  cases k <;> cases w <;> simp [elements, Width.bytes]

end Reach

/-- The instruction calls a procedure. -/
structure Instruction.Calls (i : Instruction) (k : Reach) : Prop where
  wellFormed : i.WellFormed
  operation : i.operation = .branch k.callOp

/-- The instruction returns from a procedure. -/
structure Instruction.Returns (i : Instruction) (k : Reach) : Prop where
  unit : i.unit = .branch
  operation : i.operation = .branch k.returnOp

namespace Cpu

theorem nextOffset_and_ipMask (c : Cpu) (length : UInt8) :
    c.nextOffset length &&& c.ipMask = c.nextOffset length := by
  rw [nextOffset, UInt32.and_assoc, UInt32.and_self]

/-- A stack that is left alone while control goes elsewhere. -/
theorem placed_jump (c : Cpu) (p : CodePointer) (xs : List StackElement) :
    (c.jump p).placed xs = c.placed xs := by
  induction xs generalizing c with
  | nil => rfl
  | cons x xs ih => exact congrArg (_ :: ·) (ih (c.lowered x.width.bytes))

/-- The elements that have been pushed are taken off, and some more bytes. -/
theorem lowered_adjustStack_add (c : Cpu) (n : Nat) (d : UInt32) :
    (c.lowered n).adjustStack (UInt32.ofNat n + d) = c.adjustStack d := by
  have hsum : -UInt32.ofNat n + (UInt32.ofNat n + d) = d := by grind
  rw [lowered, adjustStack_adjustStack, hsum]

end Cpu

/-! ## The call -/

namespace System

/-- System `u` is system `s` after control has gone to a procedure, if the stack is left out of
account. -/
structure Called (k : Reach) (s u : System δ) : Prop where
  jump : ∃ p, u.cpu = s.cpu.jump p ∧ (k = .near → p.segment = s.cpu.segment .cs)
  io : u.io = s.io
  size : u.ram.size = s.ram.size
  descriptors : ∀ selector, u.descriptorOf selector = s.descriptorOf selector

end System

namespace Exec

variable {k : Reach} {i : Instruction} {s t : System δ} {e : CycleExit}

theorem called_of_nearTransfer {target : UInt32} {u : System δ} (hsynced : s.synced = s)
    (h : (nearTransfer target).run s = .ok () u) : s.Called .near u := by
  rw [run_nearTransfer, hsynced] at h
  split_ifs at h
  obtain ⟨-, rfl⟩ := EStateM.Result.ok.inj h
  have hcode : s.cpu.segments.set .cs (s.cpu.segment .cs) = s.cpu.segments := Segments.set_get _ _
  refine ⟨⟨⟨s.cpu.segment .cs, target &&& s.cpu.ipMask⟩, ?_, fun _ => rfl⟩, rfl, rfl,
    fun _ => rfl⟩
  exact congrArg (fun g => { s.cpu with segments := g, eip := target &&& s.cpu.ipMask }) hcode.symm

theorem called_of_farTransfer {selector : UInt16} {offset : UInt32} {u : System δ}
    (hsynced : s.synced = s) (h : (farTransfer selector offset).run s = .ok () u) :
    s.Called .far u := by
  rw [run_farTransfer, hsynced] at h
  cases hp : s.targetFor selector offset with
  | error f => rw [hp] at h; cases h
  | ok p =>
    rw [hp] at h
    obtain ⟨-, rfl⟩ := EStateM.Result.ok.inj h
    refine ⟨⟨p, ?_, nofun⟩, ?_, ?_, fun x => ?_⟩
    · rw [System.cpu_modifyCpu, System.cpu_consulted]
    · rw [System.io_modifyCpu, System.io_consulted]
    · rw [System.ram_modifyCpu, System.size_consulted]
    · exact s.descriptorOf_consulted x selector

/-- The target is looked at, control goes there, and then the place to return to is pushed. -/
theorem called_of_call (haccepts : (Operation.branch k.callOp).accepts
      (i.operands.map Operand.class) = true) (hsynced : s.synced = s) {next : UInt32}
    (h : (k.call i next).run s = .ok () t) :
    ∃ u, s.Called k u ∧ t = u.pushes (k.elements s.cpu i.operandWidth next) := by
  cases k with
  | near =>
    obtain ⟨x, hops, -⟩ := Operation.operand_of_accepts haccepts rfl
    obtain ⟨target, htarget, -⟩ := reads_nearTarget (δ := δ) (Instruction.operands_zero hops)
    rw [Reach.call, nearCall, run_bind_of_ok (htarget s)] at h
    obtain ⟨_, u, htransfer, hpush⟩ := ok_of_bind h
    obtain ⟨-, rfl⟩ := EStateM.Result.ok.inj hpush
    exact ⟨u, called_of_nearTransfer hsynced htransfer, rfl⟩
  | far =>
    obtain ⟨target, htarget, -⟩ := reads_farTarget (δ := δ) haccepts
    rw [Reach.call, farCall, run_bind_of_ok (htarget s)] at h
    obtain ⟨selector, offset⟩ := target s
    dsimp only at h
    rw [run_gets_bind] at h
    obtain ⟨_, u, htransfer, hpush⟩ := ok_of_bind h
    obtain ⟨-, rfl⟩ := EStateM.Result.ok.inj hpush
    exact ⟨u, called_of_farTransfer hsynced htransfer, rfl⟩

/-- An operation that answers that it has branched. -/
theorem run_execute_of_branch {o : BranchOp} {x : Exec δ Unit} (hunit : i.unit = .branch)
    (hoperation : i.operation = .branch o)
    (h : o.perform i (s.cpu.nextOffset i.length) = x >>= fun _ => pure Outcome.branch) :
    (execute i).run s = match x.run s with
      | .ok _ t => .ok .branched t
      | .error f t => .error f t := by
  rw [run_execute, Instruction.perform_branch hunit hoperation, h, run_bind]
  cases x.run s <;> rfl

theorem called_of_execute (hi : i.Calls k) (hsynced : s.synced = s)
    (h : (execute i).run s = .ok e t) : ∃ u, s.Called k u ∧
      t = u.pushes (k.elements s.cpu i.operandWidth (s.cpu.nextOffset i.length)) := by
  have haccepts := hi.wellFormed.accepts
  rw [hi.operation] at haccepts
  have hunit : i.unit = .branch := by rw [hi.wellFormed.unit, hi.operation]; rfl
  rw [run_execute_of_branch hunit hi.operation (k.perform_callOp i _)] at h
  cases hcall : (k.call i (s.cpu.nextOffset i.length)).run s with
  | error f v => rw [hcall] at h; cases h
  | ok _ v =>
    rw [hcall] at h
    obtain ⟨-, rfl⟩ := EStateM.Result.ok.inj h
    exact called_of_call haccepts hsynced hcall

end Exec

/-! ## The way back -/

namespace System

variable {k : Reach} {s t u : System δ} {w : Width} {next : UInt32}

/-- The code segment can be found again after elements `xs` have been pushed: in real mode it is a
segment of real mode; in protected mode its table entry, whether or not that counts as accessed, is
the one that is cached, and the elements lie apart from it. -/
structure Reloadable (s : System δ) (xs : List StackElement) : Prop where
  real : s.cpu.protectedMode = false →
    ∃ code, s.cpu.segment .cs = .realMode (s.cpu.selector .cs) code
  entry : s.cpu.protectedMode = true → ∃ a, s.cpu.entryAddress (s.cpu.selector .cs) = .ok a ∧
    { s.descriptorAt a with accessed := true } =
      { (s.cpu.segment .cs).descriptor with accessed := true } ∧
    ∀ j, s.cpu.Occupied xs j → ¬ EntryCovers a j

/-- A procedure that is called now, with `next` to return to, finds everything for a return: the
mode has been sampled, `next` and the selector of a far call fit what is pushed of them, `next`
lies within the code segment, and what is pushed lies in memory. -/
structure AwaitsReturn (s : System δ) (k : Reach) (w : Width) (next : UInt32) : Prop where
  mode : s.cpu.protectedMode = s.cpu.protectionEnabled
  width : k = .far → w ≠ .byte
  fits : w.truncate next = next
  limit : s.cpu.protectedMode = true → next ≤ (s.cpu.segment .cs).descriptor.limit
  stack : s.ram.Backs (s.cpu.placed (k.elements s.cpu w next))
  code : k = .far → s.Reloadable (k.elements s.cpu w next)

/-- The descriptor that is cached if the code segment is loaded again. -/
theorem Reloadable.descriptorOf {xs : List StackElement} (h : s.Reloadable xs)
    (hmode : s.cpu.protectedMode = true) (hb : s.Returnable) :
    s.descriptorOf (s.cpu.selector .cs) =
      .ok { (s.cpu.segment .cs).descriptor with accessed := true } := by
  obtain ⟨a, ha, hentry, -⟩ := h.entry hmode
  have hcode : (s.descriptorAt a).code = true :=
    (congrArg Descriptor.code hentry).trans hb.code
  have hpresent : (s.descriptorAt a).present = true :=
    (congrArg Descriptor.present hentry).trans hb.present
  have hcached : s.cachedAt a = { s.descriptorAt a with accessed := true } :=
    cachedAt_of_suits (n := .cs) hcode hpresent
  rw [System.descriptorOf, ha, Except.map, hcached, hentry]

/-- What is pushed does not disturb the table entry. -/
theorem Reloadable.descriptorOf_pushes {xs : List StackElement} (h : s.Reloadable xs)
    (hmode : s.cpu.protectedMode = true) (hb : s.Returnable) (hu : s.Called k u) :
    (u.pushes xs).descriptorOf (s.cpu.selector .cs) =
      .ok { (s.cpu.segment .cs).descriptor with accessed := true } := by
  obtain ⟨p, hcpu, -⟩ := hu.jump
  obtain ⟨a, ha, -, hapart⟩ := h.entry hmode
  rw [← h.descriptorOf hmode hb, ← hu.descriptors]
  refine descriptorOf_congr (by rw [cpu_pushes]; rfl) fun b hb => ?_
  have haddress : u.cpu.entryAddress (s.cpu.selector .cs) = .ok a := by
    rw [hcpu, ← ha]
    rfl
  cases haddress.symm.trans hb
  refine cachedAt_congr fun j hj => byte_pushes fun hoccupied => ?_
  rw [Cpu.Occupied, hcpu, Cpu.placed_jump] at hoccupied
  exact hapart j hoccupied hj

/-- The place to return to is on the stack. -/
theorem AwaitsReturn.holds (hs : s.AwaitsReturn k w next) (hu : s.Called k u) :
    (u.pushes (k.elements s.cpu w next)).ram.Holds (u.cpu.placed (k.elements s.cpu w next)) := by
  obtain ⟨p, hcpu, -⟩ := hu.jump
  refine holds_pushes ?_ ?_
  · rw [hcpu]
    exact k.extent_elements s.cpu w next
  · rw [hcpu, Cpu.placed_jump]
    intro q hq
    rw [hu.size]
    exact hs.stack q hq

/-- The offset to return to is on the top. -/
theorem AwaitsReturn.peek_offset (hs : s.AwaitsReturn k w next) (hu : s.Called k u) :
    (u.pushes (k.elements s.cpu w next)).peek 0 w = next := by
  have hcpu := System.cpu_pushes u (k.elements s.cpu w next)
  have hholds := hs.holds hu
  cases k with
  | near => exact (peek_of_holds [] (x := ⟨w, next⟩) [] hcpu hholds).trans hs.fits
  | far =>
    exact (peek_of_holds [⟨w, (s.cpu.selector .cs).toUInt32⟩] (x := ⟨w, next⟩) [] hcpu
      hholds).trans hs.fits

/-- The selector to return to is the element above it. -/
theorem AwaitsReturn.peek_selector (hs : s.AwaitsReturn .far w next) (hu : s.Called .far u) :
    ((u.pushes (Reach.far.elements s.cpu w next)).peek w.stride w).toUInt16 =
      s.cpu.selector .cs := by
  have hselector := peek_of_holds [] (x := ⟨w, (s.cpu.selector .cs).toUInt32⟩) [⟨w, next⟩]
    (System.cpu_pushes u (Reach.far.elements s.cpu w next)) (hs.holds hu)
  rw [Width.stride_eq]
  exact (congrArg UInt32.toUInt16 hselector).trans (Width.toUInt16_truncate (hs.width rfl) _)

/-- The registers in the procedure. -/
theorem Called.cpu_pushes (hu : s.Called k u) (xs : List StackElement) :
    ∃ p, (u.pushes xs).cpu = (s.cpu.lowered (extent xs)).jump p ∧
      (k = .near → p.segment = s.cpu.segment .cs) := by
  obtain ⟨p, hcpu, hp⟩ := hu.jump
  refine ⟨p, ?_, hp⟩
  rw [System.cpu_pushes, hcpu]
  rfl

theorem AwaitsReturn.synced (hs : s.AwaitsReturn k w next) (hu : s.Called k u) :
    (u.pushes (k.elements s.cpu w next)).synced = u.pushes (k.elements s.cpu w next) := by
  obtain ⟨p, hcpu, -⟩ := hu.cpu_pushes (k.elements s.cpu w next)
  refine synced_eq ?_
  rw [hcpu]
  exact hs.mode

/-- The place to return to, as a far transfer finds it. -/
theorem AwaitsReturn.targetFor (hs : s.AwaitsReturn .far w next)
    (hb : s.cpu.protectedMode = true → s.Returnable) (hnext : next &&& s.cpu.ipMask = next)
    (hu : s.Called .far u) :
    (u.pushes (Reach.far.elements s.cpu w next)).targetFor (s.cpu.selector .cs) next =
      .ok ⟨Reach.far.reloaded s.cpu, next⟩ := by
  obtain ⟨p, hcpu, -⟩ := hu.cpu_pushes (Reach.far.elements s.cpu w next)
  have hmode : (u.pushes (Reach.far.elements s.cpu w next)).cpu.protectedMode =
      s.cpu.protectedMode := by
    rw [hcpu]
    rfl
  have hoffset : (if (s.cpu.segment .cs).descriptor.wide then next else next &&& 0xFFFF) =
      next := by
    have hmask : next &&& (if (s.cpu.segment .cs).descriptor.wide then 0xFFFFFFFF else 0xFFFF) =
      next := hnext
    split_ifs at hmask ⊢ with hwide
    · rfl
    · exact hmask
  rw [System.targetFor, hmode, Reach.reloaded]
  cases hp : s.cpu.protectedMode with
  | true =>
    rw [if_pos rfl, if_pos rfl, targetOf_eq_ok]
    refine ⟨(hb hp).notNull, _, (hs.code rfl).descriptorOf_pushes hp (hb hp) hu, (hb hp).code,
      (hb hp).present, ?_, hs.limit hp⟩
    rw [hoffset]
  | false =>
    obtain ⟨code, hcode⟩ := (hs.code rfl).real hp
    have hreal : next &&& 0xFFFF = next := by
      rw [hcode] at hoffset
      exact hoffset
    rw [if_neg Bool.false_ne_true, if_neg Bool.false_ne_true, realTarget, hreal]

end System

namespace Exec

variable {k : Reach} {j : Instruction} {s u : System δ} {w : Width} {next : UInt32}

theorem run_nearReturn (hs : s.AwaitsReturn .near j.operandWidth next)
    (hnext : next &&& s.cpu.ipMask = next) (hu : s.Called .near u) :
    ∃ r, (nearReturn j).run (u.pushes (Reach.near.elements s.cpu j.operandWidth next)) =
        .ok () r ∧
      r.cpu = (s.cpu.adjustStack j.releasedBytes).jump ⟨Reach.near.reloaded s.cpu, next⟩ ∧
      r.io = s.io := by
  obtain ⟨p, hcpu, hp⟩ := hu.cpu_pushes (Reach.near.elements s.cpu j.operandWidth next)
  have hsynced := hs.synced hu
  have hpeek := hs.peek_offset hu
  have hio : (u.pushes (Reach.near.elements s.cpu j.operandWidth next)).io = s.io := by
    rw [System.io_pushes, hu.io]
  generalize u.pushes (Reach.near.elements s.cpu j.operandWidth next) = t at *
  have hcode : t.cpu.segment .cs = s.cpu.segment .cs := by
    rw [hcpu]
    exact hp rfl
  have hmask : next &&& t.cpu.ipMask = next := by
    have hsame : t.cpu.ipMask = s.cpu.ipMask :=
      congrArg (fun g : Segment => if g.descriptor.wide then (0xFFFFFFFF : UInt32) else 0xFFFF)
        hcode
    rw [hsame, hnext]
  have hin : ¬ (t.cpu.protectedMode && decide (t.cpu.segments.cs.descriptor.limit < next)) =
      true := by
    change ¬ (_ && decide ((t.cpu.segment .cs).descriptor.limit < next)) = true
    rw [hcode, hcpu, Bool.and_eq_true, decide_eq_true_eq]
    exact fun h => UInt32.not_lt.2 (hs.limit h.1) h.2
  have hrun := run_nearTransfer next t
  rw [hsynced, hmask, if_neg hin] at hrun
  have hleave : (nearReturn j).run t =
      .ok () ((t.modifyCpu fun c => { c with eip := next &&& c.ipMask }).modifyCpu
        (·.adjustStack (j.operandWidth.stride + j.releasedBytes))) := by
    rw [nearReturn, run_gets_bind, hpeek, run_bind_of_ok hrun]
    rfl
  refine ⟨_, hleave, ?_, ?_⟩
  · rw [System.cpu_modifyCpu, System.cpu_modifyCpu, hmask, hcpu, Reach.reloaded, ← hp rfl,
      ← s.cpu.lowered_adjustStack_add j.operandWidth.bytes, Width.stride_eq]
    rfl
  · rw [System.io_modifyCpu, System.io_modifyCpu, hio]

theorem run_farReturn (hs : s.AwaitsReturn .far j.operandWidth next)
    (hb : s.cpu.protectedMode = true → s.Returnable) (hnext : next &&& s.cpu.ipMask = next)
    (hu : s.Called .far u) :
    ∃ r, (farReturn j).run (u.pushes (Reach.far.elements s.cpu j.operandWidth next)) =
        .ok () r ∧
      r.cpu = (s.cpu.adjustStack j.releasedBytes).jump ⟨Reach.far.reloaded s.cpu, next⟩ ∧
      r.io = s.io := by
  obtain ⟨p, hcpu, -⟩ := hu.cpu_pushes (Reach.far.elements s.cpu j.operandWidth next)
  have hsynced := hs.synced hu
  have hpeek := hs.peek_offset hu
  have hselector := hs.peek_selector hu
  have htarget := hs.targetFor hb hnext hu
  have hio : (u.pushes (Reach.far.elements s.cpu j.operandWidth next)).io = s.io := by
    rw [System.io_pushes, hu.io]
  have hextent : UInt32.ofNat (extent (Reach.far.elements s.cpu j.operandWidth next)) =
      2 * j.operandWidth.stride := by
    cases j.operandWidth <;> rfl
  generalize u.pushes (Reach.far.elements s.cpu j.operandWidth next) = t at *
  have hrun := run_farTransfer (s.cpu.selector .cs) next t
  rw [hsynced, htarget] at hrun
  have hleave : (farReturn j).run t =
      .ok () (((t.consulted (s.cpu.selector .cs)).modifyCpu
        (·.jump ⟨Reach.far.reloaded s.cpu, next⟩)).modifyCpu
          (·.adjustStack (2 * j.operandWidth.stride + j.releasedBytes))) := by
    rw [farReturn, run_get_bind, hselector, hpeek, run_bind_of_ok hrun]
    rfl
  refine ⟨_, hleave, ?_, ?_⟩
  · rw [System.cpu_modifyCpu, System.cpu_modifyCpu, System.cpu_consulted, hcpu, ← hextent,
      ← s.cpu.lowered_adjustStack_add (extent (Reach.far.elements s.cpu j.operandWidth next))]
    rfl
  · rw [System.io_modifyCpu, System.io_modifyCpu, System.io_consulted, hio]

/-- A return takes back what the call has pushed, and releases some bytes more. -/
theorem run_leave {k : Reach} (hs : s.AwaitsReturn k j.operandWidth next)
    (hb : k = .far → s.cpu.protectedMode = true → s.Returnable)
    (hnext : next &&& s.cpu.ipMask = next) (hu : s.Called k u) :
    ∃ r, (k.leave j).run (u.pushes (k.elements s.cpu j.operandWidth next)) = .ok () r ∧
      r.cpu = (s.cpu.adjustStack j.releasedBytes).jump ⟨k.reloaded s.cpu, next⟩ ∧
      r.io = s.io := by
  cases k with
  | near => exact run_nearReturn hs hnext hu
  | far => exact run_farReturn hs (hb rfl) hnext hu

/-- **A call, and the return from it**, leave all registers as they were, but for EIP, which is the
offset behind the call, and for the stack pointer, which is as many bytes higher as the return
releases.  A far return loads the code segment again, which marks it as code in real mode and as
accessed in protected mode; there it must be one that a far transfer accepts. -/
theorem return_of_call {k : Reach} {i : Instruction} {t : System δ} {e : CycleExit}
    (hi : i.Calls k) (hj : j.Returns k) (hw : j.operandWidth = i.operandWidth)
    (hs : s.AwaitsReturn k i.operandWidth (s.cpu.nextOffset i.length))
    (hb : k = .far → s.cpu.protectedMode = true → s.Returnable)
    (h : (execute i).run s = .ok e t) :
    ∃ r, (execute j).run t = .ok .branched r ∧
      r.cpu = (s.cpu.adjustStack j.releasedBytes).jump
        ⟨k.reloaded s.cpu, s.cpu.nextOffset i.length⟩ ∧
      r.io = s.io := by
  obtain ⟨u, hu, rfl⟩ := called_of_execute hi (System.synced_eq hs.mode) h
  rw [← hw] at hs ⊢
  obtain ⟨r, hr, hcpu, hio⟩ := run_leave hs hb (s.cpu.nextOffset_and_ipMask i.length) hu
  refine ⟨r, ?_, hcpu, hio⟩
  rw [run_execute_of_branch hj.unit hj.operation (k.perform_returnOp j _), hr]

/-- CALL FAR to offset 0x40 of the segment of selector 8, in 16-bit code. -/
def callFar : Instruction :=
  Instruction.ofOperands (.branch .callFar) [.immediate 0x40 .word, .immediate 8 .word] 5

/-- RETF, with six bytes that are released. -/
def returnFar : Instruction :=
  Instruction.ofOperands (.branch .retFar) [.immediate 6 .word] 3

theorem calls_callFar : callFar.Calls .far := ⟨⟨rfl, by decide⟩, rfl⟩

theorem returns_returnFar : returnFar.Returns .far := ⟨rfl, rfl⟩

/-- Code in the segment of a given selector, whose table entry has a given access byte and is
cached; the segment of selector 8 can be called. -/
def calling (selector : UInt16) (access : UInt8) : System Unit where
  cpu :=
    { Cpu.reset.setCr0 1 with
      gprs := { esp := 0x80 }
      segments := Cpu.reset.segments.set .cs
        ⟨selector, .ofEntry 0xFFFF (access.toUInt32 <<< 8)⟩
      gdtr := ⟨0, 0x1F⟩
      protectedMode := true }
  ram := ((Ram.zeroed 0x100).writeBytes 8 [0xFF, 0xFF, 0, 0, 0, 0x9B, 0, 0]).writeBytes
    (selector &&& 0xFFF8).toUInt64 [0xFF, 0xFF, 0, 0, 0, access, 0, 0]
  io := Io.init ()

/-- Code in a segment of real mode that does not count as code. -/
def callingReal : System Unit where
  cpu := { Cpu.reset with gprs := { esp := 0x80 } }
  ram := Ram.zeroed 0x100
  io := Io.init ()

theorem placed_calling (selector : UInt16) (access : UInt8) :
    (calling selector access).cpu.placed
        (Reach.far.elements (calling selector access).cpu .word 5) =
      [(⟨.word, selector.toUInt32⟩, 0x7E), (⟨.word, 5⟩, 0x7C)] := by
  have hfirst : (calling 0 0).cpu.slot (-UInt32.ofNat 2) = 0x7E := by decide +kernel
  have hsecond : ((calling 0 0).cpu.lowered 2).slot (-UInt32.ofNat 2) = 0x7C := by decide +kernel
  change [(_, (calling 0 0).cpu.slot (-UInt32.ofNat 2)),
    (_, ((calling 0 0).cpu.lowered 2).slot (-UInt32.ofNat 2))] = _
  rw [hfirst, hsecond]
  rfl

/-- The stack lies behind the table entry. -/
theorem awaitsReturn_calling {selector : UInt16} {access : UInt8} {a : UInt32}
    (ha : (calling selector access).cpu.entryAddress selector = .ok a) (hle : a.toNat ≤ 0x10)
    (hlimit : 5 ≤ ((calling selector access).cpu.segment .cs).descriptor.limit)
    (hentry : (calling selector access).descriptorAt a =
      ((calling selector access).cpu.segment .cs).descriptor) :
    (calling selector access).AwaitsReturn .far .word 5 := by
  constructor
  case mode =>
    change (calling 0 0).cpu.protectedMode = (calling 0 0).cpu.protectionEnabled
    decide +kernel
  case width => exact fun _ => nofun
  case fits => rfl
  case limit => exact fun _ => hlimit
  case stack =>
    have hsize : (calling selector access).ram.size = 0x100 := by simp [calling]
    rw [placed_calling]
    intro p hp
    simp only [List.mem_cons, List.not_mem_nil, or_false] at hp
    rw [hsize]
    rcases hp with rfl | rfl
    · exact (by decide : 0x7E + 2 ≤ 0x100)
    · exact (by decide : 0x7C + 2 ≤ 0x100)
  case code =>
    refine fun _ => ⟨nofun, fun _ => ⟨a, ha, by rw [hentry], ?_⟩⟩
    rintro j ⟨p, hp, hj⟩ hentry
    have hfour : (a + 4).toNat = (a.toNat + 4) % 2 ^ 32 := UInt32.toNat_add _ _
    have hhigh : 0x7C ≤ j := by
      rw [placed_calling] at hp
      simp only [List.mem_cons, List.not_mem_nil, or_false] at hp
      rcases hp with rfl | rfl
      · exact Nat.le_trans (by decide : 0x7C ≤ 0x7E) hj.1
      · exact hj.1
    unfold EntryCovers Width.Covers at hentry
    rw [hfour] at hentry
    simp only [Width.bytes] at hentry
    omega

theorem awaitsReturn_callingReal : callingReal.AwaitsReturn .far .word 5 where
  mode := by decide +kernel
  width _ := nofun
  fits := rfl
  limit := nofun
  stack := by
    have hsize : callingReal.ram.size = 0x100 := Ram.size_zeroed _
    unfold Ram.Backs
    rw [hsize]
    decide +kernel
  code _ := ⟨fun _ => ⟨false, rfl⟩, nofun⟩

/-- No return is possible through a null selector, or to a segment that is not code or is not
present.  A code segment may be marked as accessed by the return, and one of real mode as code. -/
theorem return_corners :
    (let s := calling 0 0x9B
      let t := (execute callFar).after s
      s.AwaitsReturn .far .word 5 ∧ (execute callFar).run s = .ok .branched t ∧
        ∃ r, (execute returnFar).run t = .error (.generalProtection 0 .farNull) r) ∧
    (let s := calling 0x10 0x93
      let t := (execute callFar).after s
      s.AwaitsReturn .far .word 5 ∧ (execute callFar).run s = .ok .branched t ∧
        ∃ r, (execute returnFar).run t = .error (.generalProtection 0x10 .farType) r) ∧
    (let s := calling 0x10 0x1B
      let t := (execute callFar).after s
      s.AwaitsReturn .far .word 5 ∧ (execute callFar).run s = .ok .branched t ∧
        ∃ r, (execute returnFar).run t = .error (.segmentNotPresent 0x10) r) ∧
    (let s := calling 0x10 0x9A
      let t := (execute callFar).after s
      s.AwaitsReturn .far .word 5 ∧ (execute callFar).run s = .ok .branched t ∧
        ∃ r, (execute returnFar).run t = .ok .branched r ∧
          (s.cpu.segment .cs).descriptor.accessed = false ∧
          (r.cpu.segment .cs).descriptor.accessed = true) ∧
    (let s := callingReal
      let t := (execute callFar).after s
      s.AwaitsReturn .far .word 5 ∧ (execute callFar).run s = .ok .branched t ∧
        ∃ r, (execute returnFar).run t = .ok .branched r ∧
          (s.cpu.segment .cs).descriptor.code = false ∧
          (r.cpu.segment .cs).descriptor.code = true) := by
  refine ⟨⟨?_, ?_, ?_⟩, ⟨?_, ?_, ?_⟩, ⟨?_, ?_, ?_⟩, ⟨?_, ?_, ?_⟩, ⟨?_, ?_, ?_⟩⟩
  · exact awaitsReturn_calling (a := 0) rfl (by decide) (by decide +kernel) (by decide +kernel)
  · exact run_of_answer (by decide +kernel)
  · exact ⟨_, run_of_answer_error (by decide +kernel)⟩
  · exact awaitsReturn_calling (a := 0x10) rfl (by decide) (by decide +kernel) (by decide +kernel)
  · exact run_of_answer (by decide +kernel)
  · exact ⟨_, run_of_answer_error (by decide +kernel)⟩
  · exact awaitsReturn_calling (a := 0x10) rfl (by decide) (by decide +kernel) (by decide +kernel)
  · exact run_of_answer (by decide +kernel)
  · exact ⟨_, run_of_answer_error (by decide +kernel)⟩
  · exact awaitsReturn_calling (a := 0x10) rfl (by decide) (by decide +kernel) (by decide +kernel)
  · exact run_of_answer (by decide +kernel)
  · exact ⟨_, run_of_answer (by decide +kernel), by decide +kernel, by decide +kernel⟩
  · exact awaitsReturn_callingReal
  · exact run_of_answer (by decide +kernel)
  · exact ⟨_, run_of_answer (by decide +kernel), by decide +kernel, by decide +kernel⟩

/-- A return to code that counts as accessed, with six bytes that are released. -/
theorem return_calling :
    let s := calling 0x10 0x9B
    let t := (execute callFar).after s
    callFar.Calls .far ∧ returnFar.Returns .far ∧
      s.AwaitsReturn .far callFar.operandWidth (s.cpu.nextOffset callFar.length) ∧
      s.Returnable ∧ (execute callFar).run s = .ok .branched t ∧
      ∃ r, (execute returnFar).run t = .ok .branched r ∧
        r.cpu = { s.cpu with gprs := { esp := 0x86 }, eip := 5 } := by
  intro s t
  have hnext : s.cpu.nextOffset callFar.length = 5 := by decide +kernel
  have hs : s.AwaitsReturn .far callFar.operandWidth (s.cpu.nextOffset callFar.length) := by
    rw [hnext]
    exact awaitsReturn_calling (a := 0x10) rfl (by decide) (by decide +kernel) (by decide +kernel)
  have hb : s.Returnable := ⟨by decide +kernel, by decide +kernel, by decide +kernel⟩
  have hcall : (execute callFar).run s = .ok .branched t := run_of_answer (by decide +kernel)
  obtain ⟨r, hr, hcpu, -⟩ :=
    return_of_call calls_callFar returns_returnFar rfl hs (fun _ _ => hb) hcall
  refine ⟨calls_callFar, returns_returnFar, hs, hb, hcall, r, hr, hcpu.trans ?_⟩
  decide +kernel

end Exec

end Ia32
