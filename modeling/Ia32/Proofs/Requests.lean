/-
  What becomes of interrupt requests.

  Requests come from outside and from devices, the latter while instructions are carried out.  A
  request waits in the latch until it is delivered, unless another one replaces it or a reset drops
  it.

  Main definitions:
  - `Exec.cycleOf` : a cycle with a given instruction, or with the one that is fetched
  - `Event` : what happens to a processor with its memory and devices
  - `Note`, `System.history` : the requests made, delivered and dropped in a sequence of events
  - `waiting` : the request that nothing has come after

  Main statements:
  - `Exec.requests_of_latched`, `Exec.latch_of_unlatched` : requests made in a cycle
  - `Event.waiting_notes` : one event
  - `System.latch_eq_waiting` : sequences of events
-/
import Ia32.Proofs.Cycle
import Ia32.Proofs.ParallelExecution
import Ia32.Proofs.Recording

namespace Ia32

variable {δ : Type}

/-! ## Cycles -/

namespace Exec

/-- What a cycle does that is neither interrupted nor halted: it carries out the given instruction,
or the one that is fetched. -/
def body : Option Instruction → Exec δ CycleExit
  | some i => execute i
  | none => do
    let i ← ofExcept (← gets System.fetch)
    execute i

/-- A cycle with a given instruction, or with the one that is fetched. -/
def cycleOf : Option Instruction → Exec δ CycleExit
  | some i => cycle i
  | none => step

theorem cycleOf_eq (o : Option Instruction) : (cycleOf o : Exec δ CycleExit) = cycleWith (body o) := by
  cases o <;> rfl

theorem parallel_body {σ : Type} {Q : Io δ → Io σ → Prop} (hQ : Io.Alike Q)
    (o : Option Instruction) : Parallel Q (body o) (body o) := by
  cases o with
  | some i => exact parallel_execute hQ i
  | none =>
    exact (Parallel.gets fun _ _ => rfl).bind fun r => (Parallel.ofExcept r).bind fun i =>
      parallel_execute hQ i

variable {s : System δ} {o : Option Instruction} {v : UInt8}

theorem run_cycleOf_of_latched (h : s.io.latch = some v) (o : Option Instruction) :
    (cycleOf o).run s = match (deliver v s.cpu.eip).run s with
      | .ok _ t => .ok (.interrupted v) { t with io.latch := none }
      | .error f t => .error f t := by
  rw [cycleOf_eq]
  exact run_cycleWith_of_latched h _

/-- A cycle that finds an interrupt latched accesses no ports. -/
theorem recordable_of_latched (h : s.io.latch = some v) (o : Option Instruction) :
    Recordable (cycleOf o) (cycleOf o) s ∧ requests (cycleOf o) s = [] := by
  have hdeliver : Parallel (fun io jo => jo = io.recording [])
      (deliver v s.cpu.eip : Exec δ Unit) (deliver v s.cpu.eip) := parallel_deliver v s.cpu.eip
  have hagree := hdeliver s _ rfl
  have hrecording : (cycleOf o).run (s.recording []) = _ :=
    run_cycleOf_of_latched (s := s.recording []) h o
  have hrun := run_cycleOf_of_latched h o
  change Agree _ _ ((deliver v (s.recording []).cpu.eip).run (s.recording [])) at hagree
  rw [Recordable, requests, after, answer, after, hrun, hrecording]
  generalize (deliver v s.cpu.eip).run s = r,
    (deliver v (s.recording []).cpu.eip).run (s.recording []) = r' at hagree
  cases hagree with
  | ok a t jo ht => cases ht; exact ⟨rfl, rfl⟩
  | error f t jo ht => cases ht; exact ⟨rfl, rfl⟩

/-- In a cycle that finds nothing latched, the last request becomes what is latched. -/
theorem recordable_of_unlatched (h : s.io.latch = none) (o : Option Instruction) :
    Recordable (cycleOf o) (cycleOf o) s ∧
      ((cycleOf o).after s).io.latch = (requests (cycleOf o) s).getLast? := by
  have hrun : (cycleOf o).run s = if s.cpu.halted then .ok .idle s else (body o).run s := by
    rw [cycleOf_eq, run_cycleWith, h]
  have hrecording : (cycleOf o).run (s.recording []) =
      if s.cpu.halted then .ok .idle (s.recording []) else (body o).run (s.recording []) := by
    have hlatch : (s.recording []).io.latch = none := h
    rw [cycleOf_eq, run_cycleWith, hlatch]
    rfl
  cases hhalted : s.cpu.halted with
  | true =>
    rw [hhalted, if_pos rfl] at hrun hrecording
    rw [Recordable, requests, after, answer, after, hrun, hrecording]
    exact ⟨rfl, h⟩
  | false =>
    rw [hhalted, if_neg Bool.false_ne_true] at hrun hrecording
    have hbody := recordable_of_parallel (s := s) (parallel_body (Io.alike_recorded _) o)
    rw [Recordable, requests, after, answer, after, h, Option.or_none] at hbody
    rw [Recordable, requests, after, answer, after, hrun, hrecording]
    exact hbody

/-- An instruction that is carried out is no delivery. -/
theorem body_ne_interrupted {e : CycleExit} {t : System δ} (h : (body o).run s = .ok e t) :
    e ≠ .interrupted v := by
  have hexecute {i : Instruction} (h : (execute i).run s = .ok e t) : e ≠ .interrupted v := by
    rw [run_execute] at h
    cases hperform : (i.perform (s.cpu.nextOffset i.length) : Exec δ Outcome).run s with
    | error f u => rw [hperform] at h; cases h
    | ok outcome u =>
      rw [hperform] at h
      cases outcome <;> cases h <;> exact CycleExit.noConfusion
  cases o with
  | some i => exact hexecute h
  | none =>
    rw [body, run_gets_bind, run_bind, run_ofExcept] at h
    cases hfetch : s.fetch with
    | error f => rw [hfetch] at h; cases h
    | ok i => rw [hfetch] at h; exact hexecute h

theorem latch_of_interrupted (h : (cycleOf o).answer s = .ok (.interrupted v)) :
    s.io.latch = some v ∧ ((cycleOf o).after s).io.latch = none := by
  have hanswer := run_of_answer h
  cases hlatch : s.io.latch with
  | none =>
    rw [cycleOf_eq, run_cycleWith, hlatch] at hanswer
    dsimp only at hanswer
    split_ifs at hanswer
    · cases hanswer
    · exact absurd rfl (body_ne_interrupted hanswer)
  | some w =>
    obtain ⟨u, -, hexit, hafter⟩ := delivered_of_cycle hlatch (cycleOf_eq o ▸ hanswer)
    cases hexit
    rw [cycleOf_eq, hafter]
    exact ⟨rfl, rfl⟩

theorem residue_of_refused {f : Fault} {t : System δ} (hlatch : s.io.latch = some v)
    (h : (cycleOf o).run s = .error f t) : FaultResidue s t :=
  (faultAtomic_deliver v _ s f t (refused_of_cycle hlatch (cycleOf_eq o ▸ h))).2.1

end Exec

open Exec

/-! ## Events -/

/-- What happens to a processor with its memory and devices: a request from outside, a cycle with a
given instruction or with the one that is fetched, or a reset. -/
inductive Event
  | request (v : UInt8)
  | cycle (given : Option Instruction)
  | reset

def Event.after (s : System δ) : Event → System δ
  | request v => { s with io := s.io.request v }
  | cycle o => (cycleOf o).after s
  | reset => s.resetCpu

/-- The system after a sequence of events. -/
def System.afterAll (s : System δ) (es : List Event) : System δ := es.foldl Event.after s

/-- What is noted about requests: that one is made, that one is delivered, or that all that there
were are dropped. -/
inductive Note
  | requested (v : UInt8)
  | delivered (v : UInt8)
  | dropped
  deriving DecidableEq, Repr

/-- The delivery that a cycle reports, if it reports one. -/
def deliveries : Except Fault CycleExit → List Note
  | .ok (.interrupted v) => [.delivered v]
  | _ => []

/-- What is noted in an event, oldest first. -/
def Event.notes (s : System δ) : Event → List Note
  | request v => [.requested v]
  | cycle o => deliveries ((cycleOf o).answer s) ++ (requests (cycleOf o) s).map .requested
  | reset => [.dropped]

def System.notes (s : System δ) : List Event → List Note
  | [] => []
  | e :: es => e.notes s ++ (e.after s).notes es

/-- All that is noted in a sequence of events, after what has been latched before. -/
def System.history (s : System δ) (es : List Event) : List Note :=
  s.io.latch.toList.map .requested ++ s.notes es

def Note.request? : Note → Option UInt8
  | requested v => some v
  | _ => none

/-- The most recent request, unless it has been delivered or dropped since. -/
def waiting (h : List Note) : Latch := h.getLast?.bind Note.request?

/-- Whatever is delivered is the request that waits at the time. -/
def Orderly (h : List Note) : Prop :=
  ∀ older v newer, h = older ++ .delivered v :: newer → waiting older = some v

theorem waiting_append_requested (h : List Note) (vs : List UInt8) :
    waiting (h ++ vs.map .requested) = vs.getLast?.or (waiting h) := by
  unfold waiting
  rw [List.getLast?_append, List.getLast?_map]
  cases vs.getLast? <;> rfl

theorem waiting_append_one (h : List Note) (n : Note) : waiting (h ++ [n]) = n.request? := by
  rw [waiting, List.getLast?_concat]
  rfl

namespace Orderly

variable {h : List Note}

theorem append_one (hh : Orderly h) {n : Note} (hn : ∀ v, n = .delivered v → waiting h = some v) :
    Orderly (h ++ [n]) := by
  intro older v newer e
  rcases List.eq_nil_or_concat newer with rfl | ⟨newer, m, rfl⟩
  · obtain ⟨rfl, hlast⟩ := List.append_inj' e rfl
    exact hn v (List.cons.inj hlast).1
  · rw [List.concat_eq_append, ← List.cons_append, ← List.append_assoc] at e
    exact hh older v newer (List.append_inj' e rfl).1

theorem append_requested (hh : Orderly h) (vs : List UInt8) :
    Orderly (h ++ vs.map .requested) := by
  induction vs generalizing h with
  | nil => rw [List.map_nil, List.append_nil]; exact hh
  | cons v vs ih =>
    rw [List.map_cons, List.append_cons]
    exact ih (hh.append_one fun _ => Note.noConfusion)

end Orderly

theorem deliveries_of_ne {r : Except Fault CycleExit} (h : ∀ v, r ≠ .ok (.interrupted v)) :
    deliveries r = [] := by
  unfold deliveries
  split
  · exact absurd rfl (h _)
  · rfl

/-- What waits after an event is what is latched. -/
theorem Event.waiting_notes {s : System δ} {h : List Note} (hwaiting : waiting h = s.io.latch)
    (horderly : Orderly h) (e : Event) :
    waiting (h ++ e.notes s) = (e.after s).io.latch ∧ Orderly (h ++ e.notes s) := by
  cases e with
  | request v =>
    exact ⟨waiting_append_one h _, horderly.append_one fun _ => Note.noConfusion⟩
  | reset => exact ⟨waiting_append_one h _, horderly.append_one fun _ => Note.noConfusion⟩
  | cycle o =>
    rw [notes]
    cases hlatch : s.io.latch with
    | none =>
      have hnone : deliveries ((cycleOf o).answer s) = [] := deliveries_of_ne fun v hv => by
        rw [(latch_of_interrupted hv).1] at hlatch
        cases hlatch
      rw [hnone, List.nil_append, waiting_append_requested, hwaiting, hlatch, Option.or_none]
      exact ⟨(recordable_of_unlatched hlatch o).2.symm, horderly.append_requested _⟩
    | some v =>
      have hrun := run_cycleOf_of_latched hlatch o
      rw [(recordable_of_latched hlatch o).2, List.map_nil, List.append_nil]
      cases hd : (deliver v s.cpu.eip).run s with
      | ok a t =>
        rw [hd] at hrun
        have hdelivered : deliveries ((cycleOf o).answer s) = [.delivered v] := by
          rw [answer, hrun]
          rfl
        have hempty : ((cycleOf o).after s).io.latch = none := by rw [after_of_ok hrun]
        rw [hdelivered]
        refine ⟨(waiting_append_one h _).trans hempty.symm, horderly.append_one fun w hw => ?_⟩
        cases hw
        exact hwaiting.trans hlatch
      | error f t =>
        rw [hd] at hrun
        have hnone : deliveries ((cycleOf o).answer s) = [] := by rw [answer, hrun]; rfl
        have hkept : ((cycleOf o).after s).io.latch = s.io.latch := by
          rw [after_of_error hrun, (residue_of_refused hlatch hrun).io]
        rw [hnone, List.append_nil]
        exact ⟨hwaiting.trans hkept.symm, horderly⟩

namespace System

theorem waiting_history_append {s : System δ} {h : List Note} (hwaiting : waiting h = s.io.latch)
    (horderly : Orderly h) (es : List Event) :
    waiting (h ++ s.notes es) = (s.afterAll es).io.latch ∧ Orderly (h ++ s.notes es) := by
  induction es generalizing s h with
  | nil => rw [notes, List.append_nil]; exact ⟨hwaiting, horderly⟩
  | cons e es ih =>
    obtain ⟨hw, ho⟩ := e.waiting_notes hwaiting horderly
    rw [notes, ← List.append_assoc]
    exact ih hw ho

theorem waiting_history (s : System δ) (es : List Event) :
    waiting (s.history es) = (s.afterAll es).io.latch ∧ Orderly (s.history es) := by
  refine waiting_history_append ?_ ?_ es
  · rw [← List.nil_append (List.map _ _), waiting_append_requested]
    cases s.io.latch <;> rfl
  · rw [← List.nil_append (List.map _ _)]
    exact Orderly.append_requested (fun older v newer e => by simp at e) _

/-- **Requests are delivered at most once, and lost only by replacement or by a reset.**  After any
sequence of events, the latch holds the most recent request that has been neither delivered nor
dropped since, and whatever has been delivered was this request at the time.  A cycle reports the
delivery of the request that is latched, and leaves the latch empty.  As long as a request is
latched, a cycle does nothing but deliver it; if that faults, the request stays latched and nothing
is pushed. -/
theorem latch_eq_waiting (s : System δ) (es : List Event) :
    let t := s.afterAll es
    t.io.latch = waiting (s.history es) ∧
    (∀ older v newer, s.history es = older ++ .delivered v :: newer → waiting older = some v) ∧
    (∀ o, Recordable (cycleOf o) (cycleOf o) t) ∧
    (∀ o v, (cycleOf o).answer t = .ok (.interrupted v) →
      t.io.latch = some v ∧ ((cycleOf o).after t).io.latch = none) ∧
    (∀ o v, t.io.latch = some v → (cycleOf o).run t = match (deliver v t.cpu.eip).run t with
      | .ok _ u => .ok (.interrupted v) { u with io.latch := none }
      | .error f u => .error f u) ∧
    ∀ o v f u, t.io.latch = some v → (cycleOf o).run t = .error f u →
      u.io.latch = some v ∧ FaultResidue t u := by
  obtain ⟨hwaiting, horderly⟩ := waiting_history s es
  refine ⟨hwaiting.symm, horderly, fun o => ?_, fun _ _ => latch_of_interrupted,
    fun o _ h => run_cycleOf_of_latched h o, fun o v f u hlatch h => ?_⟩
  · cases h : (s.afterAll es).io.latch with
    | none => exact (recordable_of_unlatched h o).1
    | some v => exact (recordable_of_latched h o).1
  · have hresidue := residue_of_refused hlatch h
    exact ⟨hresidue.io ▸ hlatch, hresidue⟩

/-- A device that requests whatever vector is written to it. -/
def pager : Device Unit where
  read _ _ _ s := (0, ⟨s, none⟩)
  write _ _ v _ s := ⟨s, some v.toUInt8⟩
  reset s := s

/-- A system in real mode with the device at port 80, and 9 in the accumulator. -/
def paged : System Unit where
  cpu := Cpu.reset.setLow .eax .byte 9
  ram := Ram.zeroed 0x10000
  io := (Io.init ()).register [0x80] pager

/-- The instruction `out 80, al`. -/
def page : Instruction :=
  .ofOperands (.port .output) [.immediate 0x80 .byte, .register (.general 0 .byte)] 2

/-- A request from outside is delivered before the instruction is carried out; then the request
that the instruction causes is replaced by another one from outside. -/
theorem latch_eq_waiting_paged :
    let es : List Event := [.request 8, .cycle (some page), .cycle (some page), .request 10]
    paged.history es = [.requested 8, .delivered 8, .requested 9, .requested 10] ∧
      (paged.afterAll es).io.latch = some 10 ∧ Recordable step step (paged.afterAll es) ∧
      waiting [.requested 8] = some 8 := by
  have hhistory : paged.history
      [.request 8, .cycle (some page), .cycle (some page), .request 10] =
        [.requested 8, .delivered 8, .requested 9, .requested 10] := by decide +kernel
  obtain ⟨hlatch, horderly, hrecordable, -⟩ := latch_eq_waiting paged
    [.request 8, .cycle (some page), .cycle (some page), .request 10]
  rw [hhistory] at hlatch horderly
  exact ⟨hhistory, hlatch, hrecordable none, horderly [.requested 8] 8 _ rfl⟩

end System

end Ia32
