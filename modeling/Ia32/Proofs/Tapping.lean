/-
  The port accesses that a computation makes.

  They are found out by running the computation on tapped ports.  A tap sits at every port, claimed
  or not; it notes down each access and passes it on to what is behind it.  So accesses are answered
  as before, and the computation does as before.

  Main definitions:
  - `PortAccess` : a read with its answer, or a write
  - `Io.tap`, `Io.Tapped` : ports with a tap at each of them
  - `Io.Trace` : ports that some accesses, one after another, turn into other ports
  - `Exec.accesses` : the accesses that a computation makes

  Main statements:
  - `Io.Tapped.read`, `Io.Tapped.write` : accesses are answered as before, and noted down
  - `Exec.run_tapped`, `Exec.run_perform_tapped` : tapping does not disturb computations
  - `Exec.accesses_of_trace`
-/
import Ia32.Proofs.ParallelExecution

namespace Ia32

variable {δ : Type}

/-- An access to a port: its size in bytes, and the value that was answered or written. -/
inductive PortAccess
  | read (port : UInt16) (size : UInt8) (answer : UInt32)
  | write (port : UInt16) (size : UInt8) (value : UInt32)
  deriving DecidableEq

/-- A device in front of all ports.  It keeps the state of the devices behind them, and a log of the
accesses, oldest first. -/
def Device.tap (ports : Std.TreeMap UInt16 (Device δ)) : Device (δ × List PortAccess) where
  read port size latch s :=
    let (v, io) := Io.read ⟨ports, s.1, latch⟩ port size
    (v, ⟨(io.devices, s.2 ++ [.read port size v]), io.latch⟩)
  write port size v latch s :=
    let io := Io.write ⟨ports, s.1, latch⟩ port size v
    ⟨(io.devices, s.2 ++ [.write port size v]), io.latch⟩
  reset s := ((Io.reset ⟨ports, s.1, none⟩).devices, s.2)

/-- The same device at every port. -/
@[irreducible]
def Device.everywhere (d : Device δ) : Std.TreeMap UInt16 (Device δ) :=
  ((List.range UInt16.size).map UInt16.ofNat).foldl (fun m port => m.insert port d) ∅

theorem Device.getElem?_everywhere (d : Device δ) (port : UInt16) :
    d.everywhere[port]? = some d := by
  have hmem : port ∈ (List.range UInt16.size).map UInt16.ofNat :=
    List.mem_map.2 ⟨port.toNat, List.mem_range.2 port.toNat_lt, UInt16.ofNat_toNat⟩
  unfold everywhere
  rw [Io.getElem?_foldl_insert, if_pos hmem]

namespace Io

/-- A tap at every port, with an empty log. -/
def tap (io : Io δ) : Io (δ × List PortAccess) where
  ports := (Device.tap io.ports).everywhere
  devices := (io.devices, [])
  latch := io.latch

/-- Ports `jo` are taps at the ports `io`, which have noted down `log`. -/
structure Tapped (io : Io δ) (log : List PortAccess) (jo : Io (δ × List PortAccess)) : Prop where
  ports : ∀ port : UInt16, jo.ports[port]? = some (Device.tap io.ports)
  devices : jo.devices = (io.devices, log)
  latch : jo.latch = io.latch

theorem tapped_tap (io : Io δ) : io.Tapped [] io.tap :=
  ⟨Device.getElem?_everywhere _, rfl, rfl⟩

/-! ## Taps -/

/-- What an access can do: nothing, or what a device has answered. -/
def Settles (io jo : Io δ) : Prop := jo = io ∨ ∃ r, jo = io.accept r

theorem settles_read (io : Io δ) (port : UInt16) (size : UInt8) :
    io.Settles (io.read port size).2 := by
  unfold read
  split_ifs
  · cases io.ports[port]? with
    | some d => exact .inr ⟨_, rfl⟩
    | none => exact .inl rfl
  · exact .inl rfl

theorem settles_write (io : Io δ) (port : UInt16) (size : UInt8) (v : UInt32) :
    io.Settles (io.write port size v) := by
  unfold write
  split_ifs
  · cases io.ports[port]? with
    | some d => exact .inr ⟨_, rfl⟩
    | none => exact .inl rfl
  · exact .inl rfl

namespace Tapped

variable {io ko : Io δ} {jo : Io (δ × List PortAccess)} {log log' : List PortAccess} {size : UInt8}

theorem log_eq (h : io.Tapped log jo) : log = jo.devices.2 := by rw [h.devices]

/-- The taps take over what the devices behind them have done. -/
theorem accept (h : io.Tapped log jo) (hk : io.Settles ko) :
    ko.Tapped log' (jo.accept ⟨(ko.devices, log'), ko.latch⟩) where
  ports port := by
    have hports : ko.ports = io.ports := by rcases hk with rfl | ⟨r, rfl⟩ <;> rfl
    rw [hports]
    exact h.ports port
  devices := rfl
  latch := by
    -- A request that is latched already is latched once more.
    change ko.latch.or jo.latch = ko.latch
    rw [h.latch]
    rcases hk with rfl | ⟨r, rfl⟩
    · exact Option.or_self
    · change (r.request.or io.latch).or io.latch = r.request.or io.latch
      rw [Option.or_assoc, Option.or_self]

theorem read (h : io.Tapped log jo) (hsize : isAccessSize size = true) (port : UInt16) :
    (jo.read port size).1 = (io.read port size).1 ∧
      (io.read port size).2.Tapped (log ++ [.read port size (io.read port size).1])
        (jo.read port size).2 := by
  have hread : jo.read port size = ((io.read port size).1, jo.accept
      ⟨((io.read port size).2.devices, log ++ [.read port size (io.read port size).1]),
        (io.read port size).2.latch⟩) := by
    conv_lhs => rw [Io.read, if_pos hsize, h.ports, h.devices, h.latch]
    rfl
  rw [hread]
  exact ⟨rfl, h.accept (io.settles_read port size)⟩

theorem write (h : io.Tapped log jo) (hsize : isAccessSize size = true) (port : UInt16)
    (v : UInt32) :
    (io.write port size v).Tapped (log ++ [.write port size v]) (jo.write port size v) := by
  have hwrite : jo.write port size v = jo.accept
      ⟨((io.write port size v).devices, log ++ [.write port size v]),
        (io.write port size v).latch⟩ := by
    conv_lhs => rw [Io.write, if_pos hsize, h.ports, h.devices, h.latch]
    rfl
  rw [hwrite]
  exact h.accept (io.settles_write port size v)

end Tapped

theorem alike_tapped : Alike fun (io : Io δ) jo => ∃ log, io.Tapped log jo where
  read := by
    rintro io jo ⟨log, h⟩ port size
    cases hsize : isAccessSize size with
    | true => exact ⟨(h.read hsize port).1, _, (h.read hsize port).2⟩
    | false =>
      rw [read, read, hsize]
      exact ⟨rfl, log, h⟩
  write := by
    rintro io jo ⟨log, h⟩ port size v
    cases hsize : isAccessSize size with
    | true => exact ⟨_, h.write hsize port v⟩
    | false =>
      rw [write, write, hsize]
      exact ⟨log, h⟩

/-! ## Traces -/

/-- The accesses `as`, one after another, turn ports `io` into ports `jo`. -/
inductive Trace (io : Io δ) : List PortAccess → Io δ → Prop
  | nil : Trace io [] io
  | read {as : List PortAccess} {jo : Io δ} (h : Trace io as jo) (port : UInt16) (size : UInt8)
      (hsize : isAccessSize size = true) :
      Trace io (as ++ [.read port size (jo.read port size).1]) (jo.read port size).2
  | write {as : List PortAccess} {jo : Io δ} (h : Trace io as jo) (port : UInt16) (size : UInt8)
      (v : UInt32) (hsize : isAccessSize size = true) :
      Trace io (as ++ [.write port size v]) (jo.write port size v)

/-- The taps note down all accesses. -/
theorem Trace.tapped {io : Io δ} {jo ko : Io (δ × List PortAccess)} {log as : List PortAccess}
    (h : io.Tapped log jo) (htrace : jo.Trace as ko) :
    ∃ lo : Io δ, lo.Tapped (log ++ as) ko ∧ io.Trace as lo := by
  induction htrace with
  | nil => exact ⟨io, by rwa [List.append_nil], .nil⟩
  | read _ port size hsize ih =>
    obtain ⟨lo, hlo, htrace⟩ := ih
    obtain ⟨hanswer, hread⟩ := hlo.read hsize port
    rw [hanswer, ← List.append_assoc]
    exact ⟨_, hread, htrace.read port size hsize⟩
  | write _ port size v hsize ih =>
    obtain ⟨lo, hlo, htrace⟩ := ih
    rw [← List.append_assoc]
    exact ⟨_, hlo.write hsize port v, htrace.write port size v hsize⟩

end Io

namespace Exec

variable {α : Type} {x : Exec δ α} {y : Exec (δ × List PortAccess) α} {s : System δ}

/-- The accesses to ports that `y` makes from `s`, oldest first. -/
def accesses (y : Exec (δ × List PortAccess) α) (s : System δ) : List PortAccess :=
  (y.after (s.withIo s.io.tap)).io.devices.2

/-- On tapped ports, a computation does as before. -/
theorem run_tapped (h : Parallel (fun io jo => ∃ log, Io.Tapped io log jo) x y) (s : System δ) :
    ∃ jo, (x.after s).io.Tapped (accesses y s) jo ∧
      y.run (s.withIo s.io.tap) = settle (x.answer s) ((x.after s).withIo jo) := by
  obtain ⟨jo, ⟨log, hlog⟩, hrun⟩ := h.run_withIo ⟨[], s.io.tapped_tap⟩
  have haccesses : accesses y s = log := by
    rw [accesses, after_of_settle hrun]
    exact hlog.log_eq.symm
  rw [haccesses]
  exact ⟨jo, hlog, hrun⟩

/-- On tapped ports, an instruction does as before. -/
theorem run_perform_tapped (i : Instruction) (next : UInt32) (s : System δ) :
    ∃ jo, ((i.perform next).after s).io.Tapped (accesses (i.perform next) s) jo ∧
      (i.perform next).run (s.withIo s.io.tap) =
        settle ((i.perform next).answer s) (((i.perform next).after s).withIo jo) :=
  run_tapped (i.parallel_perform Io.alike_tapped next) s

/-- The accesses of a computation are those that turn the tapped ports into the ports it leaves. -/
theorem accesses_of_trace {a : α} {u : System (δ × List PortAccess)} {as : List PortAccess}
    (hrun : y.run (s.withIo s.io.tap) = .ok a u) (h : s.io.tap.Trace as u.io) :
    accesses y s = as := by
  obtain ⟨lo, hlo, -⟩ := h.tapped s.io.tapped_tap
  rw [accesses, after_of_ok hrun]
  exact hlo.log_eq.symm

end Exec

end Ia32
