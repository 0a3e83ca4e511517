/-
  What selectors, far pointers and vectors lead to, as functions of the system.

  Loading a descriptor answers with a value and leaves a trace, the accessed bit of its table
  entry.  Here the two are told apart: the answer is a function into `Except Fault`, the trace a
  function on systems, and each computation settles to the pair of them.

  Main definitions:
  - `System.fetched` : the system after the table entry of a selector has been fetched
  - `System.descriptorOf`, `System.segmentOf`, `System.targetOf` : what a selector or a far
    pointer stands for in protected mode
  - `System.segmentFor`, `System.targetFor`, `System.consulted` : the same in the mode in force
  - `System.gateEntry`, `System.gateFor`, `System.gated` : the gate of a vector, in its table and
    in the mode in force, and the system after it has been looked up
  - `System.Unseen` : a change of the system that nothing that is looked up depends on

  Main statements:
  - `System.lookedUp_eq` : what looking a selector up can do
  - `System.targetOf_eq_ok`, `System.gateFor_eq_ok` : what makes a far pointer or a vector good
  - `Exec.run_loadDescriptor`, `Exec.run_protectedSegment`, `Exec.run_protectedTarget`,
    `Exec.run_setSelector`, `Exec.run_farTransfer`, `Exec.run_nearTransfer`, `Exec.run_deliver`,
    `Exec.run_interruptReturn`
-/
import Ia32.Interrupt
import Ia32.Proofs.Computation

namespace Ia32

namespace System

variable {δ : Type}

/-- The descriptor that is cached when the table entry at `a` is loaded: one of a present code or
data segment counts as accessed. -/
def cachedAt (s : System δ) (a : UInt32) : Descriptor :=
  let d := s.descriptorAt a
  if d.user && d.present && !d.accessed then { d with accessed := true } else d

/-- The system after the table entry at `a` has been loaded. -/
def noted (s : System δ) (a : UInt32) : System δ :=
  let d := s.descriptorAt a
  if d.user && d.present && !d.accessed then s.markAccessed a else s

def descriptorOf (s : System δ) (selector : UInt16) : Except Fault Descriptor :=
  (s.cpu.entryAddress selector).map s.cachedAt

/-- The system after the table entry of a selector has been fetched, if it lies in the table. -/
def fetched (s : System δ) (selector : UInt16) : System δ :=
  match s.cpu.entryAddress selector with
  | .ok a => s.noted a
  | .error _ => s

/-- The system after a selector has been looked up; null selectors have no table entry. -/
def lookedUp (s : System δ) (selector : UInt16) : System δ :=
  if isNullSelector selector then s else s.fetched selector

/-- The segment that a selector stands for in protected mode, if register `n` accepts it. -/
def segmentOf (s : System δ) (n : SegmentName) (selector : UInt16) : Except Fault Segment :=
  if isNullSelector selector then
    match n with
    | .cs | .ss => .error (.generalProtection selector .nullSelector)
    | _ => .ok ⟨selector, .null⟩
  else
    match s.descriptorOf selector with
    | .error f => .error f
    | .ok d =>
      if !d.suits n then .error (.generalProtection selector .descriptorType)
      else if !d.present then .error (.segmentNotPresent selector)
      else .ok ⟨selector, d⟩

/-- The place in code that a far pointer names in protected mode. -/
def targetOf (s : System δ) (selector : UInt16) (offset : UInt32) : Except Fault CodePointer :=
  if isNullSelector selector then .error (.generalProtection selector .farNull)
  else
    match s.descriptorOf selector with
    | .error f => .error f
    | .ok d =>
      let offset := if d.wide then offset else offset &&& 0xFFFF
      if !d.code then .error (.generalProtection selector .farType)
      else if !d.present then .error (.segmentNotPresent selector)
      else if d.limit < offset then .error (.generalProtection selector .farLimit)
      else .ok ⟨⟨selector, d⟩, offset⟩

/-! ## In the mode in force -/

/-- The system after a selector has been looked up; in real mode there is nothing to look up. -/
def consulted (s : System δ) (selector : UInt16) : System δ :=
  if s.cpu.protectedMode then s.lookedUp selector else s

def segmentFor (s : System δ) (n : SegmentName) (selector : UInt16) : Except Fault Segment :=
  if s.cpu.protectedMode then s.segmentOf n selector else .ok (.realMode selector (n == .cs))

def targetFor (s : System δ) (selector : UInt16) (offset : UInt32) : Except Fault CodePointer :=
  if s.cpu.protectedMode then s.targetOf selector offset else .ok (Exec.realTarget selector offset)

/-- The system once the mode has been sampled. -/
def synced (s : System δ) : System δ := s.modifyCpu Cpu.syncMode

end System

/-- A gate as it stands in the interrupt table of protected mode. -/
structure GateEntry where
  kind : GateKind
  frame : Width
  selector : UInt16
  offset : UInt32
  deriving DecidableEq, Repr

namespace System

variable {δ : Type}

/-- Whether an interrupt table ends before the last byte of an entry; the offsets of entries are too
small to wrap around. -/
theorem limit_lt_slotEnd_iff (limit : UInt16) (v : UInt8) {size last : UInt32}
    (h : size.toNat * 255 + last.toNat < UInt32.size) :
    limit.toUInt32 < v.toUInt32 * size + last ↔
      limit.toNat < size.toNat * v.toNat + last.toNat := by
  have hv : size.toNat * v.toNat ≤ size.toNat * 255 :=
    Nat.mul_le_mul_left _ (Nat.le_of_lt_succ v.toNat_lt)
  have hend : size.toNat * v.toNat + last.toNat < UInt32.size := by omega
  rw [UInt32.lt_iff_toNat_lt, UInt32.toNat_add, UInt32.toNat_mul, UInt8.toNat_toUInt32,
    UInt16.toNat_toUInt32, Nat.mul_comm v.toNat, Nat.mod_eq_of_lt (Nat.lt_of_le_of_lt
      (Nat.le_add_right _ _) hend), Nat.mod_eq_of_lt hend]

/-- The gate of a vector, if its table entry is a present gate. -/
def gateEntry (s : System δ) (v : UInt8) : Except Fault GateEntry :=
  let offset := v.toUInt32 * 8
  let a := s.cpu.idtr.base + offset
  let selector := (offset + 2).toUInt16
  if s.cpu.idtr.limit.toUInt32 < offset + 7 then
    .error (.generalProtection selector .gateTableLimit)
  else
    let lo := s.readLinear a .dword
    let hi := s.readLinear (a + 4) .dword
    match gateForm? hi with
    | none => .error (.generalProtection selector .gateType)
    | some (kind, frame) =>
      if hi &&& 0x8000 == 0 then .error (.segmentNotPresent selector)
      else .ok ⟨kind, frame, (lo >>> 16).toUInt16, (hi &&& 0xFFFF0000) ||| (lo &&& 0xFFFF)⟩

def gateFor (s : System δ) (v : UInt8) : Except Fault Gate :=
  if s.cpu.protectedMode then
    match s.gateEntry v with
    | .error f => .error f
    | .ok e => (s.targetOf e.selector e.offset).map fun p => ⟨e.kind, e.frame, p⟩
  else s.vectorGate v

/-- The system after the gate of a vector has been looked up. -/
def gated (s : System δ) (v : UInt8) : System δ :=
  if s.cpu.protectedMode then
    match s.gateEntry v with
    | .error _ => s
    | .ok e => s.lookedUp e.selector
  else s

theorem io_enterGate (s : System δ) (g : Gate) (returnEip : UInt32) :
    (s.enterGate g returnEip).io = s.io := rfl

end System

namespace System

variable {δ : Type} {s : System δ}

/-- Looking up a selector changes one bit of its table entry, if anything. -/
theorem lookedUp_eq (s : System δ) (selector : UInt16) : s.lookedUp selector = s ∨
    ∃ a, s.cpu.entryAddress selector = .ok a ∧
      ((s.descriptorAt a).user && (s.descriptorAt a).present) = true ∧
      s.lookedUp selector = s.markAccessed a := by
  unfold lookedUp fetched noted
  split_ifs
  · exact .inl rfl
  · cases e : s.cpu.entryAddress selector with
    | error f => exact .inl rfl
    | ok a =>
      dsimp only
      split_ifs with h
      · rw [Bool.and_eq_true] at h
        exact .inr ⟨a, rfl, h.1, rfl⟩
      · exact .inl rfl

/-- A far pointer is good if its selector names a present code segment that the offset, cut to the
size of the segment, lies in. -/
theorem targetOf_eq_ok {selector : UInt16} {offset : UInt32} {p : CodePointer} :
    s.targetOf selector offset = .ok p ↔ isNullSelector selector = false ∧
      ∃ d, s.descriptorOf selector = .ok d ∧ d.code = true ∧ d.present = true ∧
        p = ⟨⟨selector, d⟩, if d.wide then offset else offset &&& 0xFFFF⟩ ∧
        p.offset ≤ d.limit := by
  unfold targetOf
  cases hnull : isNullSelector selector with
  | true => simp
  | false =>
    cases hd : s.descriptorOf selector with
    | error f => simp
    | ok d =>
      simp only [Bool.false_eq_true, ↓reduceIte]
      generalize hcut : (if d.wide then offset else offset &&& 0xFFFF) = cut
      constructor
      · intro h
        split_ifs at h with hcode hpresent hlimit
        cases h
        exact ⟨trivial, d, rfl, by simpa using hcode, by simpa using hpresent, by rw [hcut],
          UInt32.not_lt.1 hlimit⟩
      · rintro ⟨-, e, he, hcode, hpresent, rfl, hlimit⟩
        cases he
        rw [hcut] at hlimit
        simp [hcode, hpresent, hcut, UInt32.not_lt.2 hlimit]

theorem gateFor_eq_ok {v : UInt8} {g : Gate} (h : s.cpu.protectedMode = true) :
    s.gateFor v = .ok g ↔ ∃ e p, s.gateEntry v = .ok e ∧
      s.targetOf e.selector e.offset = .ok p ∧ g = ⟨e.kind, e.frame, p⟩ := by
  rw [gateFor, if_pos h]
  cases s.gateEntry v with
  | error f => simp
  | ok e =>
    cases ht : s.targetOf e.selector e.offset with
    | error f => simp [ht, Except.map]
    | ok p => simp [ht, Except.map, eq_comm]

/-! ## Changes that are not noticed -/

/-- A change of the system that nothing that is looked up depends on. -/
structure Unseen (f : System δ → System δ) : Prop where
  ram : ∀ s, (f s).ram = s.ram
  gdtr : ∀ s, (f s).cpu.gdtr = s.cpu.gdtr
  idtr : ∀ s, (f s).cpu.idtr = s.cpu.idtr
  mode : ∀ s, (f s).cpu.protectedMode = s.cpu.protectedMode
  mark : ∀ s a, (f s).markAccessed a = f (s.markAccessed a)

namespace Unseen

variable {f : System δ → System δ}

theorem descriptorAt (hf : Unseen f) (s : System δ) (a : UInt32) :
    (f s).descriptorAt a = s.descriptorAt a := by
  unfold System.descriptorAt readLinear
  rw [hf.ram]

theorem entryAddress (hf : Unseen f) (s : System δ) (selector : UInt16) :
    (f s).cpu.entryAddress selector = s.cpu.entryAddress selector := by
  unfold Cpu.entryAddress
  rw [hf.gdtr]

theorem gateEntry (hf : Unseen f) (s : System δ) (v : UInt8) :
    (f s).gateEntry v = s.gateEntry v := by
  unfold System.gateEntry readLinear
  rw [hf.idtr, hf.ram]

theorem noted (hf : Unseen f) (s : System δ) (a : UInt32) :
    (f s).noted a = f (s.noted a) := by
  unfold System.noted
  rw [hf.descriptorAt, hf.mark]
  dsimp only
  split_ifs <;> rfl

theorem lookedUp (hf : Unseen f) (s : System δ) (selector : UInt16) :
    (f s).lookedUp selector = f (s.lookedUp selector) := by
  unfold System.lookedUp fetched
  rw [hf.entryAddress]
  split_ifs
  · rfl
  · cases s.cpu.entryAddress selector with
    | error e => rfl
    | ok a => exact hf.noted s a

theorem consulted (hf : Unseen f) (s : System δ) (selector : UInt16) :
    (f s).consulted selector = f (s.consulted selector) := by
  unfold System.consulted
  rw [hf.mode]
  split_ifs
  · exact hf.lookedUp s selector
  · rfl

theorem gated (hf : Unseen f) (s : System δ) (v : UInt8) : (f s).gated v = f (s.gated v) := by
  unfold System.gated
  rw [hf.mode, hf.gateEntry]
  split_ifs
  · cases s.gateEntry v with
    | error e => rfl
    | ok e => exact hf.lookedUp s e.selector
  · rfl

end Unseen

end System

namespace Exec

variable {δ : Type}

theorem run_loadDescriptor (selector : UInt16) (s : System δ) :
    (loadDescriptor selector).run s = settle (s.descriptorOf selector) (s.fetched selector) := by
  rw [loadDescriptor, run_gets_bind, run_bind, run_ofExcept]
  cases e : s.cpu.entryAddress selector with
  | error f => simp [System.descriptorOf, System.fetched, e, Except.map]
  | ok a =>
    simp only [settle_ok, run_gets_bind, System.descriptorOf, System.fetched, e, Except.map,
      System.cachedAt, System.noted]
    split
    · rfl
    · rfl

theorem run_protectedSegment (n : SegmentName) (selector : UInt16) (s : System δ) :
    (protectedSegment n selector).run s = settle (s.segmentOf n selector) (s.lookedUp selector) := by
  unfold protectedSegment System.segmentOf System.lookedUp
  split
  · cases n <;> rfl
  · rw [run_bind, run_loadDescriptor]
    cases s.descriptorOf selector with
    | error f => rfl
    | ok d =>
      simp only [settle_ok]
      split_ifs <;> rfl

theorem run_protectedTarget (selector : UInt16) (offset : UInt32) (s : System δ) :
    (protectedTarget selector offset).run s =
      settle (s.targetOf selector offset) (s.lookedUp selector) := by
  unfold protectedTarget System.targetOf System.lookedUp
  split
  · rfl
  · rw [run_bind, run_loadDescriptor]
    cases s.descriptorOf selector with
    | error f => rfl
    | ok d =>
      simp only [settle_ok]
      split_ifs <;> rfl

theorem run_setSelector (n : SegmentName) (selector : UInt16) (s : System δ) :
    (setSelector n selector).run s = match s.segmentFor n selector with
      | .error f => .error f (s.consulted selector)
      | .ok g => .ok () ((s.consulted selector).modifyCpu (·.setSegment n g)) := by
  rw [setSelector, run_gets_bind]
  cases h : s.cpu.protectedMode with
  | true =>
    simp only [↓reduceIte, run_bind, run_protectedSegment, System.segmentFor, System.consulted, h]
    cases s.segmentOf n selector <;> rfl
  | false =>
    simp only [Bool.false_eq_true, ↓reduceIte, System.segmentFor, System.consulted, h]
    rfl

theorem run_farTransfer (selector : UInt16) (offset : UInt32) (s : System δ) :
    (farTransfer selector offset).run s = match s.synced.targetFor selector offset with
      | .error f => .error f (s.synced.consulted selector)
      | .ok p => .ok () ((s.synced.consulted selector).modifyCpu (·.jump p)) := by
  rw [farTransfer, run_modifyCpu_bind, run_gets_bind, ← System.synced]
  cases h : s.synced.cpu.protectedMode with
  | true =>
    simp only [↓reduceIte, run_bind, run_protectedTarget, System.targetFor, System.consulted, h]
    cases s.synced.targetOf selector offset <;> rfl
  | false =>
    simp only [Bool.false_eq_true, ↓reduceIte, System.targetFor, System.consulted, h]
    rfl

theorem run_nearTransfer (target : UInt32) (s : System δ) :
    (nearTransfer target).run s =
      if s.synced.cpu.protectedMode &&
          s.synced.cpu.segments.cs.descriptor.limit < target &&& s.synced.cpu.ipMask then
        .error (.generalProtection 0 .nearLimit) s.synced
      else .ok () (s.synced.modifyCpu fun c => { c with eip := target &&& c.ipMask }) := by
  rw [nearTransfer, run_modifyCpu_bind, run_gets_bind, ← System.synced]
  dsimp only
  split_ifs <;> rfl

theorem run_descriptorGate (v : UInt8) {s : System δ} (h : s.cpu.protectedMode = true) :
    (descriptorGate v).run s = settle (s.gateFor v) (s.gated v) := by
  rw [descriptorGate, run_get_bind]
  simp only [System.gateFor, System.gated, System.gateEntry, h, ↓reduceIte]
  generalize s.readLinear (s.cpu.idtr.base + v.toUInt32 * 8) .dword = lo
  generalize s.readLinear (s.cpu.idtr.base + v.toUInt32 * 8 + 4) .dword = hi
  rcases gateForm? hi with _ | ⟨k, w⟩
  · split_ifs <;> rfl
  · split_ifs
    · rfl
    · rfl
    · rw [run_bind, run_protectedTarget]
      dsimp only
      cases s.targetOf (lo >>> 16).toUInt16 _ <;> rfl

theorem run_deliver (v : UInt8) (returnEip : UInt32) (s : System δ) :
    (deliver v returnEip).run s = match s.synced.gateFor v with
      | .error f => .error f (s.synced.gated v)
      | .ok g => .ok () ((s.synced.gated v).enterGate g returnEip) := by
  rw [deliver, run_modifyCpu_bind, run_get_bind, ← System.synced]
  cases h : s.synced.cpu.protectedMode with
  | true =>
    simp only [↓reduceIte, run_bind, run_descriptorGate v h]
    cases s.synced.gateFor v <;> rfl
  | false =>
    simp only [Bool.false_eq_true, ↓reduceIte, run_bind, run_ofExcept, System.gateFor,
      System.gated, h]
    cases s.synced.vectorGate v <;> rfl

theorem run_interruptReturn (w : Width) (s : System δ) :
    (interruptReturn w).run s =
      match s.synced.targetFor (s.peek w.stride w).toUInt16 (s.peek 0 w) with
      | .error f => .error f (s.synced.consulted (s.peek w.stride w).toUInt16)
      | .ok p => .ok () ((s.synced.consulted (s.peek w.stride w).toUInt16).modifyCpu fun c =>
          { (c.jump p).adjustStack (3 * w.stride) with
            flags := c.flags.restore w (s.peek (2 * w.stride) w)
            interruptLevel := if c.interruptLevel = 0 then 0 else c.interruptLevel - 1 }) := by
  rw [interruptReturn, run_get_bind, run_bind, run_farTransfer]
  cases s.synced.targetFor _ _ <;> rfl

end Exec

end Ia32
