/-
  The debug console: a device that collects the bytes written to it.
-/
import Ia32.Device

namespace Ia32

/-- The bytes written and not yet taken, oldest first. -/
abbrev Console := Array UInt8

/-- The port at which guests expect the debug console. -/
def Console.port : UInt16 := 0xE9

/-- Reads give the low byte of the usual port, by which guests detect the console. -/
def Console.device : Device Console where
  read _ _ _ s := (0xE9, ⟨s, none⟩)
  write _ _ v _ s := ⟨s.push v.toUInt8, none⟩
  reset _ := #[]

end Ia32
