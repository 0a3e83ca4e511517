/-
  A bench of simple devices for exercising port accesses: value cells, a line that requests
  interrupts, a recorder of writes, and the debug console.

  Main definitions:
  - `Bench` : their shared state
  - `Bench.cell`, `Bench.line`, `Bench.recorder`, `Bench.console` : the devices
-/
import Ia32.Device.Console

namespace Ia32

/-- A recorded write: port, access size and value. -/
structure PortWrite where
  port : UInt16
  size : UInt8
  value : UInt32
  deriving DecidableEq, Repr

structure Bench where
  cells : Array UInt32
  writes : Array PortWrite
  output : Console

namespace Bench

def empty : Bench := ⟨#[], #[], #[]⟩

/-- A value that is read back at the access size. -/
def valueCell : Device UInt32 where
  read _ n _ v := (if n == 1 then v &&& 0xFF else if n == 2 then v &&& 0xFFFF else v, ⟨v, none⟩)
  write _ _ v _ _ := ⟨v, none⟩
  reset _ := 0

/-- A further value cell that holds `v`, and its number. -/
def addCell (b : Bench) (v : UInt32) : Nat × Bench :=
  (b.cells.size, { b with cells := b.cells.push v })

/-- The value cell numbered `i`. -/
def cell (i : Nat) : Device Bench :=
  valueCell.on (fun b => b.cells.getD i 0) fun v b => { b with cells := b.cells.setIfInBounds i v }

/-- Writes request an interrupt; reads give the latched vector. -/
def line : Device Bench where
  read _ _ l b := ((l.map UInt8.toUInt32).getD 0x1FF, ⟨b, none⟩)
  write _ _ v _ b := ⟨b, some v.toUInt8⟩
  reset b := b

/-- Writes are recorded; reads give `base` plus the port and the access size. -/
def recorder (base : UInt32) : Device Bench where
  read p n _ b := (base + p.toUInt32 + n.toUInt32, ⟨b, none⟩)
  write p n v _ b := ⟨{ b with writes := b.writes.push ⟨p, n, v⟩ }, none⟩
  reset b := b

def console : Device Bench :=
  Console.device.on Bench.output fun c b => { b with output := c }

end Bench

end Ia32
