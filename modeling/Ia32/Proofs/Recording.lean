/-
  The requests that devices make while a computation runs.

  They are found out by running the computation with devices that keep a log.  Such devices answer
  as before, so the computation does as before; and what is latched in the end is the last entry of
  the log or, if there is none, what was latched in the beginning.

  Main definitions:
  - `Device.recording`, `Io.recording` : devices that keep a log of their requests
  - `Exec.requests` : the requests made while a computation runs
  - `Exec.Recordable` : a computation that recording devices do not disturb

  Main statements:
  - `Io.alike_recorded` : recording devices answer as before
  - `Exec.recordable_of_parallel` : recording does not disturb computations, and accounts for what
    is latched
-/
import Ia32.Proofs.Parallel

namespace Ia32

variable {δ : Type}

/-- A device that also keeps a log of the requests it makes, oldest first. -/
def Device.recording (d : Device δ) : Device (δ × List UInt8) where
  read port size latch s :=
    let (v, r) := d.read port size latch s.1
    (v, ⟨(r.state, s.2 ++ r.request.toList), r.request⟩)
  write port size v latch s :=
    let r := d.write port size v latch s.1
    ⟨(r.state, s.2 ++ r.request.toList), r.request⟩
  reset s := (d.reset s.1, s.2)

namespace Io

/-- The same ports, of which all devices keep their log together. -/
def recording (io : Io δ) (log : List UInt8) : Io (δ × List UInt8) where
  ports := io.ports.map fun _ d => d.recording
  devices := (io.devices, log)
  latch := io.latch

/-- Ports `jo` are ports `io` with a log that accounts for what is latched, if `l` was latched when
it was begun. -/
def Recorded (l : Latch) (io : Io δ) (jo : Io (δ × List UInt8)) : Prop :=
  ∃ log, jo = io.recording log ∧ io.latch = log.getLast?.or l

variable {io : Io δ} {jo : Io (δ × List UInt8)} {l : Latch}

theorem recorded_recording (io : Io δ) : Recorded io.latch io (io.recording []) := ⟨[], rfl, rfl⟩

/-- A request is logged, and replaces what is latched. -/
theorem recorded_accept {log : List UInt8} (h : io.latch = log.getLast?.or l) (r : Reply δ) :
    Recorded l (io.accept r)
      ((io.recording log).accept ⟨(r.state, log ++ r.request.toList), r.request⟩) := by
  refine ⟨log ++ r.request.toList, rfl, ?_⟩
  change r.request.or io.latch = _
  rw [h, List.getLast?_append]
  cases r.request <;> simp

theorem alike_recorded (l : Latch) : Alike (Recorded (δ := δ) l) where
  read := by
    rintro io _ ⟨log, rfl, h⟩ port size
    have hport : (io.recording log).ports[port]? = io.ports[port]?.map Device.recording :=
      Std.TreeMap.getElem?_map
    unfold read
    rw [hport]
    split_ifs
    · cases io.ports[port]? with
      | some d => exact ⟨rfl, recorded_accept h _⟩
      | none => exact ⟨rfl, log, rfl, h⟩
    · exact ⟨rfl, log, rfl, h⟩
  write := by
    rintro io _ ⟨log, rfl, h⟩ port size v
    have hport : (io.recording log).ports[port]? = io.ports[port]?.map Device.recording :=
      Std.TreeMap.getElem?_map
    unfold write
    rw [hport]
    split_ifs
    · cases io.ports[port]? with
      | some d => exact recorded_accept h _
      | none => exact ⟨log, rfl, h⟩
    · exact ⟨log, rfl, h⟩

end Io

namespace System

/-- The system with recording devices, and what their log holds so far. -/
def recording (s : System δ) (log : List UInt8) : System (δ × List UInt8) :=
  s.withIo (s.io.recording log)

end System

namespace Exec

variable {α : Type} {x : Exec δ α} {y : Exec (δ × List UInt8) α} {s : System δ}

/-- The requests that devices make while `y` runs from `s`, oldest first. -/
def requests (y : Exec (δ × List UInt8) α) (s : System δ) : List UInt8 :=
  (y.after (s.recording [])).io.devices.2

/-- With recording devices, `y` does what `x` does without them. -/
def Recordable (x : Exec δ α) (y : Exec (δ × List UInt8) α) (s : System δ) : Prop :=
  y.run (s.recording []) = settle (x.answer s) ((x.after s).recording (requests y s))

/-- Recording disturbs nothing that port accesses are answered to, and the last request is what is
latched. -/
theorem recordable_of_parallel (h : Parallel (Io.Recorded s.io.latch) x y) :
    Recordable x y s ∧ (x.after s).io.latch = (requests y s).getLast?.or s.io.latch := by
  obtain ⟨_, ⟨log, rfl, hlatch⟩, hrun⟩ := h.run_withIo (Io.recorded_recording s.io)
  have hlog : requests y s = log := by
    rw [requests, System.recording, after_of_settle hrun]
    rfl
  rw [Recordable, hlog]
  exact ⟨hrun, hlatch⟩

end Exec

end Ia32
