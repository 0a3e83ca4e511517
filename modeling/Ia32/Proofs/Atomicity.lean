/-
  What a fault leaves behind.

  Every operation does what can fault before it changes anything, apart from two traces: the mode
  is sampled, and the table entry that was looked at is marked as accessed.

  Main definitions:
  - `FaultResidue` : two systems that differ in these traces at most
  - `Exec.Total` : a computation that never faults
  - `Exec.FaultAtomic` : a fault leaves a residue, and the devices have no part in it
  - `Exec.Guarded` : what can fault comes first, changes last

  Main statements:
  - `Exec.FaultAtomic.reads_bind`, `Exec.FaultAtomic.bind_total` : readings first, changes last
  - `Exec.Guarded.faultAtomic` : in that order, faults leave a residue only
  - `Exec.faultAtomic_setSelector`, `Exec.faultAtomic_farTransfer`, `Exec.faultAtomic_nearTransfer`,
    `Exec.faultAtomic_deliver` : the computations that fault
-/
import Ia32.Proofs.Memory
import Ia32.Proofs.Operands
import Ia32.Proofs.Selection

namespace Ia32

variable {δ : Type}

/-! ## Residues -/

/-- Memory `r` is memory `m`, except that the accessed bit of one entry of the descriptor table at
`g` is set. -/
def Ram.Marked (g : TableRegister) (m r : Ram) : Prop :=
  ∃ index : Nat, 8 * index + 7 ≤ g.limit.toNat ∧ r.size = m.size ∧ ∀ j, r.byte j =
    if j = (g.base + UInt32.ofNat (8 * index) + accessByte).toNat then m.byte j ||| 1
    else m.byte j

/-- What a fault may leave of a cycle that began in `s`: the mode may have been sampled, and an
entry of the descriptor table may have been marked as accessed. -/
structure FaultResidue (s t : System δ) : Prop where
  cpu : t.cpu = s.cpu ∨ t.cpu = s.cpu.syncMode
  ram : t.ram = s.ram ∨ s.ram.Marked s.cpu.gdtr t.ram
  io : t.io = s.io

namespace FaultResidue

theorem refl (s : System δ) : FaultResidue s s := ⟨.inl rfl, .inl rfl, rfl⟩

theorem markAccessed {s : System δ} {selector : UInt16} {a : UInt32}
    (h : s.cpu.entryAddress selector = .ok a) : FaultResidue s (s.markAccessed a) := by
  obtain ⟨rfl, hlimit⟩ := Cpu.entryAddress_ok h
  have hindex : 8 * ((selector &&& 0xFFF8).toNat / 8) = (selector &&& 0xFFF8).toNat :=
    Nat.mul_div_cancel' (Nat.dvd_of_mod_eq_zero (entryOffset_mod selector))
  have hoffset : UInt32.ofNat (selector &&& 0xFFF8).toNat = (selector &&& 0xFFF8).toUInt32 := by
    apply UInt32.toNat_inj.1
    have := (selector &&& 0xFFF8).toNat_lt
    simp
  refine ⟨.inl rfl, .inr ⟨(selector &&& 0xFFF8).toNat / 8, ?_, s.size_markAccessed _, ?_⟩, rfl⟩
  · rw [hindex]; exact hlimit
  · rw [hindex, hoffset]; exact s.byte_markAccessed _

theorem lookedUp (s : System δ) (selector : UInt16) : FaultResidue s (s.lookedUp selector) := by
  rcases s.lookedUp_eq selector with e | ⟨a, ha, -, e⟩
  · rw [e]; exact refl s
  · rw [e]; exact markAccessed ha

theorem consulted (s : System δ) (selector : UInt16) : FaultResidue s (s.consulted selector) := by
  unfold System.consulted
  split_ifs
  · exact lookedUp s selector
  · exact refl s

theorem gated (s : System δ) (v : UInt8) : FaultResidue s (s.gated v) := by
  unfold System.gated
  split_ifs
  · split
    · exact refl s
    · exact lookedUp s _
  · exact refl s

/-- A computation may begin by sampling the mode. -/
theorem of_synced {s t : System δ} (h : FaultResidue s.synced t) : FaultResidue s t :=
  ⟨.inr (h.cpu.elim id id), h.ram, h.io⟩

end FaultResidue

namespace Exec

variable {α β : Type}

/-! ## Computations that never fault -/

def Total (x : Exec δ α) : Prop := ∀ s, ∃ a t, x.run s = .ok a t

namespace Total

theorem pure (a : α) : Total (pure a : Exec δ α) := fun s => ⟨a, s, rfl⟩

theorem get : Total (get : Exec δ (System δ)) := fun s => ⟨s, s, rfl⟩

theorem set (t : System δ) : Total (set t : Exec δ PUnit) := fun _ => ⟨⟨⟩, t, rfl⟩

theorem gets (f : System δ → α) : Total (gets f) := fun s => ⟨f s, s, rfl⟩

theorem modify (f : System δ → System δ) : Total (modify f : Exec δ PUnit) :=
  fun s => ⟨⟨⟩, f s, rfl⟩

theorem modifyCpu (f : Cpu → Cpu) : Total (modifyCpu f : Exec δ Unit) := fun _ => ⟨(), _, rfl⟩

theorem bind {x : Exec δ α} {g : α → Exec δ β} (hx : Total x) (hg : ∀ a, Total (g a)) :
    Total (x >>= g) := fun s => by
  obtain ⟨a, t, h⟩ := hx s
  rw [run_bind_of_ok h]
  exact hg a t

theorem store {l : Location} (h : l.IsPlace) (w : Width) (v : UInt32) :
    Total (store w v l : Exec δ Unit) := fun s => ⟨(), _, run_store h w v s⟩

end Total

/-! ## Faults that leave a residue -/

/-- Every fault of `x` is one of `F` and leaves a residue only; devices have not been accessed, as
whatever they are, the fault is the same. -/
def FaultAtomic (F : Fault → Prop) (x : Exec δ α) : Prop :=
  ∀ s f t, x.run s = .error f t → F f ∧ FaultResidue s t ∧
    ∀ io, io.latch = s.io.latch → x.run { s with io := io } = .error f { t with io := io }

namespace FaultAtomic

variable {F : Fault → Prop}

theorem mono {G : Fault → Prop} {x : Exec δ α} (hx : FaultAtomic F x) (h : ∀ f, F f → G f) :
    FaultAtomic G x := fun s f t e => ⟨h f (hx s f t e).1, (hx s f t e).2⟩

theorem of_total {x : Exec δ α} (h : Total x) : FaultAtomic F x := fun s f t e => by
  obtain ⟨a, u, hu⟩ := h s
  rw [hu] at e
  cases e

theorem throw {f : Fault} (h : F f) : FaultAtomic F (throw f : Exec δ α) := by
  rintro s _ _ ⟨⟩
  exact ⟨h, .refl s, fun _ _ => rfl⟩

theorem ofExcept {r : Except Fault α} (h : ∀ f, r = .error f → F f) :
    FaultAtomic F (ofExcept r : Exec δ α) := by
  cases r with
  | ok a => exact of_total (.pure a)
  | error f => exact throw (h f rfl)

/-- What is read first is the same with other devices. -/
theorem reads_bind {x : Exec δ α} {g : α → Exec δ β} (hx : Reads x)
    (hg : ∀ a, FaultAtomic F (g a)) : FaultAtomic F (x >>= g) := by
  obtain ⟨r, hr, hio⟩ := hx
  intro s f t h
  rw [run_bind_of_ok (hr s)] at h
  obtain ⟨hf, hres, hblind⟩ := hg (r s) s f t h
  refine ⟨hf, hres, fun io hl => ?_⟩
  rw [run_bind_of_ok (hr _), hio]
  exact hblind io hl

/-- Of a value that is read, it may be used where it comes from. -/
theorem gets_bind_of {f : System δ → α} (hf : ∀ s io, f { s with io := io } = f s)
    {g : α → Exec δ β} (hg : ∀ s, FaultAtomic F (g (f s))) : FaultAtomic F (gets f >>= g) := by
  intro s f' t h
  rw [run_gets_bind] at h
  obtain ⟨hf', hres, hblind⟩ := hg s s f' t h
  refine ⟨hf', hres, fun io hl => ?_⟩
  rw [run_gets_bind, hf]
  exact hblind io hl

/-- A system that is read is one whose devices play no part. -/
theorem get_bind {g : System δ → Exec δ β} (hio : ∀ s io, g { s with io := io } = g s)
    (hg : ∀ s, FaultAtomic F (g s)) : FaultAtomic F (get >>= g) := by
  intro s f t h
  rw [run_get_bind] at h
  obtain ⟨hf, hres, hblind⟩ := hg s s f t h
  refine ⟨hf, hres, fun io hl => ?_⟩
  rw [run_get_bind, hio]
  exact hblind io hl

/-- Nothing faults once something has been changed. -/
theorem bind_total {x : Exec δ α} {g : α → Exec δ β} (hx : FaultAtomic F x)
    (hg : ∀ a, Total (g a)) : FaultAtomic F (x >>= g) := by
  intro s f t h
  cases e : x.run s with
  | ok a u =>
    obtain ⟨b, v, hv⟩ := hg a u
    rw [run_bind_of_ok e, hv] at h
    cases h
  | error f' t' =>
    rw [run_bind_of_error e] at h
    cases h
    obtain ⟨hf, hres, hblind⟩ := hx s f t e
    exact ⟨hf, hres, fun io hl => run_bind_of_error (hblind io hl) g⟩

end FaultAtomic

end Exec

/-! ## Selectors, transfers and gates -/

/-- The faults of segments and gates. -/
def Fault.IsRefusal : Fault → Prop
  | segmentNotPresent _ | generalProtection _ _ => True
  | _ => False

theorem Fault.IsRefusal.ne_invalidOpcode {f : Fault} (h : f.IsRefusal) : f ≠ .invalidOpcode := by
  rintro rfl
  exact h

namespace System

variable {s : System δ} {selector : UInt16} {f : Fault}

theorem isRefusal_of_descriptorOf (h : s.descriptorOf selector = .error f) : f.IsRefusal := by
  unfold descriptorOf Cpu.entryAddress at h
  dsimp only at h
  split_ifs at h <;> cases h <;> trivial

theorem isRefusal_of_segmentFor {n : SegmentName} (h : s.segmentFor n selector = .error f) :
    f.IsRefusal := by
  unfold segmentFor segmentOf at h
  split_ifs at h
  · cases n <;> cases h <;> trivial
  · cases hd : s.descriptorOf selector with
    | error e => rw [hd] at h; cases h; exact isRefusal_of_descriptorOf hd
    | ok d =>
      rw [hd] at h
      dsimp only at h
      split_ifs at h <;> cases h <;> trivial

theorem isRefusal_of_targetOf {offset : UInt32} (h : s.targetOf selector offset = .error f) :
    f.IsRefusal := by
  unfold targetOf at h
  split_ifs at h
  · cases h; trivial
  · cases hd : s.descriptorOf selector with
    | error e => rw [hd] at h; cases h; exact isRefusal_of_descriptorOf hd
    | ok d =>
      rw [hd] at h
      dsimp only at h
      split_ifs at h <;> cases h <;> trivial

theorem isRefusal_of_targetFor {offset : UInt32} (h : s.targetFor selector offset = .error f) :
    f.IsRefusal := by
  unfold targetFor at h
  split_ifs at h
  exact isRefusal_of_targetOf h

theorem isRefusal_of_gateEntry {v : UInt8} (h : s.gateEntry v = .error f) : f.IsRefusal := by
  unfold gateEntry at h
  dsimp only at h
  split_ifs at h
  · cases h; trivial
  · split at h <;> cases h <;> trivial
  · split at h <;> cases h
    trivial

theorem isRefusal_of_vectorGate {v : UInt8} (h : s.vectorGate v = .error f) : f.IsRefusal := by
  unfold vectorGate at h
  dsimp only at h
  split_ifs at h
  cases h; trivial

theorem isRefusal_of_gateFor {v : UInt8} (h : s.gateFor v = .error f) : f.IsRefusal := by
  unfold gateFor at h
  split_ifs at h
  · cases he : s.gateEntry v with
    | error e => rw [he] at h; cases h; exact isRefusal_of_gateEntry he
    | ok e =>
      rw [he] at h
      dsimp only at h
      cases ht : s.targetOf e.selector e.offset with
      | error g => rw [ht] at h; cases h; exact isRefusal_of_targetOf ht
      | ok p => rw [ht] at h; cases h
  · exact isRefusal_of_vectorGate h

/-- Nothing that is looked up depends on the devices. -/
theorem unseen_io (io : Io δ) : Unseen fun s : System δ => { s with io := io } where
  ram _ := rfl
  gdtr _ := rfl
  idtr _ := rfl
  mode _ := rfl
  mark _ _ := rfl

end System

namespace Exec

theorem faultAtomic_setSelector (n : SegmentName) (selector : UInt16) :
    FaultAtomic Fault.IsRefusal (setSelector n selector : Exec δ Unit) := by
  intro s f t h
  rw [run_setSelector] at h
  cases e : s.segmentFor n selector with
  | ok g => rw [e] at h; cases h
  | error f' =>
    rw [e] at h
    cases h
    refine ⟨System.isRefusal_of_segmentFor e, .consulted s selector, fun io _ => ?_⟩
    have eio : { s with io := io }.segmentFor n selector = .error f := e
    rw [run_setSelector, eio, (System.unseen_io io).consulted]

theorem faultAtomic_farTransfer (selector : UInt16) (offset : UInt32) :
    FaultAtomic Fault.IsRefusal (farTransfer selector offset : Exec δ Unit) := by
  intro s f t h
  rw [run_farTransfer] at h
  cases e : s.synced.targetFor selector offset with
  | ok p => rw [e] at h; cases h
  | error f' =>
    rw [e] at h
    cases h
    refine ⟨System.isRefusal_of_targetFor e, .of_synced (.consulted _ selector), fun io _ => ?_⟩
    have eio : { s.synced with io := io }.targetFor selector offset = .error f := e
    have hsync : { s with io := io }.synced = { s.synced with io := io } := rfl
    rw [run_farTransfer, hsync, eio, (System.unseen_io io).consulted]

theorem faultAtomic_nearTransfer (target : UInt32) :
    FaultAtomic Fault.IsRefusal (nearTransfer target : Exec δ Unit) := by
  intro s f t h
  rw [run_nearTransfer] at h
  split_ifs at h with hlimit
  cases h
  refine ⟨trivial, .of_synced (.refl _), fun io _ => ?_⟩
  rw [run_nearTransfer]
  exact if_pos hlimit

theorem faultAtomic_deliver (v : UInt8) (returnEip : UInt32) :
    FaultAtomic Fault.IsRefusal (deliver v returnEip : Exec δ Unit) := by
  intro s f t h
  rw [run_deliver] at h
  cases e : s.synced.gateFor v with
  | ok g => rw [e] at h; cases h
  | error f' =>
    rw [e] at h
    cases h
    refine ⟨System.isRefusal_of_gateFor e, .of_synced (.gated _ v), fun io _ => ?_⟩
    have eio : { s.synced with io := io }.gateFor v = .error f := e
    have hsync : { s with io := io }.synced = { s.synced with io := io } := rfl
    rw [run_deliver, hsync, eio, (System.unseen_io io).gated]

/-! ## Computations that fault first -/

/-- Computations that do what can fault before they change anything: readings first, then what may
fault, and changes last. -/
inductive Guarded : ∀ {α : Type}, Exec δ α → Prop
  | of_total {α : Type} {x : Exec δ α} (h : Total x) : Guarded x
  | halt {α : Type} : Guarded (throw .haltWithInterruptsDisabled : Exec δ α)
  | divide {α : Type} {r : Except Fault α} (h : ∀ f, r = .error f → f = .divideError) :
      Guarded (ofExcept r : Exec δ α)
  | select (n : SegmentName) (selector : UInt16) : Guarded (setSelector n selector)
  | far (selector : UInt16) (offset : UInt32) : Guarded (farTransfer selector offset)
  | near (target : UInt32) : Guarded (nearTransfer target)
  | enter (v : UInt8) (returnEip : UInt32) : Guarded (deliver v returnEip)
  | reads_bind {α β : Type} {x : Exec δ α} {g : α → Exec δ β} (hx : Reads x)
      (hg : ∀ a, Guarded (g a)) : Guarded (x >>= g)
  | get_bind {β : Type} {g : System δ → Exec δ β} (hio : ∀ s io, g { s with io := io } = g s)
      (hg : ∀ s, Guarded (g s)) : Guarded (get >>= g)
  | bind_total {α β : Type} {x : Exec δ α} {g : α → Exec δ β} (hx : Guarded x)
      (hg : ∀ a, Total (g a)) : Guarded (x >>= g)

namespace Guarded

variable {α β : Type}

theorem gets_bind {f : System δ → α} (hf : ∀ s io, f { s with io := io } = f s)
    {g : α → Exec δ β} (hg : ∀ a, Guarded (g a)) : Guarded (gets f >>= g) :=
  .reads_bind (.gets hf) hg

theorem interruptReturn (w : Width) : Guarded (interruptReturn w : Exec δ Unit) :=
  .get_bind (fun _ _ => rfl) fun _ => .bind_total (.far _ _) fun _ => .modifyCpu _

/-- What faults first leaves a residue only. -/
theorem faultAtomic {x : Exec δ α} (h : Guarded x) : FaultAtomic (· ≠ .invalidOpcode) x := by
  have hrefusal (f : Fault) (hf : f.IsRefusal) : f ≠ .invalidOpcode := hf.ne_invalidOpcode
  induction h with
  | of_total h => exact .of_total h
  | halt => exact .throw Fault.noConfusion
  | divide h => exact .ofExcept fun f hf => h f hf ▸ Fault.noConfusion
  | select n selector => exact (faultAtomic_setSelector n selector).mono hrefusal
  | far selector offset => exact (faultAtomic_farTransfer selector offset).mono hrefusal
  | near target => exact (faultAtomic_nearTransfer target).mono hrefusal
  | enter v returnEip => exact (faultAtomic_deliver v returnEip).mono hrefusal
  | reads_bind hx _ ih => exact .reads_bind hx ih
  | get_bind hio _ ih => exact .get_bind hio ih
  | bind_total _ hg ih => exact ih.bind_total hg

end Guarded

end Exec

end Ia32
