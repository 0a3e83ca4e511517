/-
  The input/output side of a machine: the port map, the state of the devices behind it, and the
  latch in which interrupt requests wait.

  Main definitions:
  - `Latch` : room for one request; a newer one replaces it
  - `Io.register`, `Io.unregister` : claims on ports, the newest of which holds
  - `Io.read`, `Io.write`, `Io.reset` : accesses through the map
-/
import Ia32.Device
import Std.Data.TreeMap

namespace Ia32

/-- The vector of the latest request that has not been delivered. -/
abbrev Latch := Option UInt8

namespace Latch

/-- Empty the latch if it holds `v`; tells whether it did. -/
def acknowledge (l : Latch) (v : UInt8) : Bool × Latch :=
  if l = some v then (true, none) else (false, l)

end Latch

structure Io (δ : Type) where
  ports : Std.TreeMap UInt16 (Device δ)
  devices : δ
  latch : Latch

namespace Io

variable {δ : Type}

/-- No port is claimed and nothing is latched. -/
def init (s : δ) : Io δ := ⟨∅, s, none⟩

def register (io : Io δ) (ports : List UInt16) (d : Device δ) : Io δ :=
  { io with ports := ports.foldl (fun m p => m.insert p d) io.ports }

/-- A claim that is made for several ports holds at each of them. -/
theorem getElem?_foldl_insert (m : Std.TreeMap UInt16 (Device δ)) (ports : List UInt16)
    (d : Device δ) (p : UInt16) :
    (ports.foldl (fun m q => m.insert q d) m)[p]? = if p ∈ ports then some d else m[p]? := by
  induction ports generalizing m with
  | nil => rfl
  | cons q ports ih =>
    rw [List.foldl_cons, ih, Std.TreeMap.getElem?_insert]
    by_cases hp : p ∈ ports
    · rw [if_pos hp, if_pos (List.mem_cons_of_mem _ hp)]
    · by_cases hq : p = q
      · simp [hq]
      · simp [hp, hq, Ne.symm hq]

def isMapped (io : Io δ) (port : UInt16) : Bool := io.ports.contains port

def unregister (io : Io δ) (port : UInt16) : Io δ := { io with ports := io.ports.erase port }

/-- A request replaces what is latched. -/
def request (io : Io δ) (v : UInt8) : Io δ := { io with latch := some v }

/-- The state after a device has answered. -/
def accept (io : Io δ) (r : Reply δ) : Io δ :=
  { io with devices := r.state, latch := r.request.or io.latch }

/-- Accesses are one, two or four bytes wide. -/
def isAccessSize (n : UInt8) : Bool := n == 1 || n == 2 || n == 4

def read (io : Io δ) (port : UInt16) (size : UInt8) : UInt32 × Io δ :=
  if isAccessSize size then
    match io.ports[port]? with
    | some d =>
      let (v, r) := d.read port size io.latch io.devices
      (v, io.accept r)
    | none => (openBus size, io)
  else (openBus 4, io)

def write (io : Io δ) (port : UInt16) (size : UInt8) (v : UInt32) : Io δ :=
  if isAccessSize size then
    match io.ports[port]? with
    | some d => io.accept (d.write port size v io.latch io.devices)
    | none => io
  else io

/-- Reset the device behind every claimed port, in the order of the ports. -/
def reset (io : Io δ) : Io δ :=
  { io with devices := io.ports.foldl (fun s _ d => d.reset s) io.devices }

end Io

end Ia32
