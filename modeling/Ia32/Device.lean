/-
  Devices behind the input/output ports.  The devices of a machine share one state; a device is
  what an access does to that state, and it may request an interrupt while it answers.

  Main definitions:
  - `Reply`, `Device` : what an access leaves behind, and the answers to all accesses
  - `Device.on` : a device on a part of a larger state
  - `openBus` : the value read where no device answers
-/

namespace Ia32

/-- What a device leaves behind: the new state, and the vector it requests, if any. -/
structure Reply (δ : Type) where
  state : δ
  request : Option UInt8

/-- The answers to accesses; each is told the port, the access size in bytes and the vector that
is latched at the time. -/
structure Device (δ : Type) where
  read : UInt16 → UInt8 → Option UInt8 → δ → UInt32 × Reply δ
  write : UInt16 → UInt8 → UInt32 → Option UInt8 → δ → Reply δ
  reset : δ → δ

/-- A device whose state is the part `get` of a larger state. -/
def Device.on {δ σ : Type} (d : Device δ) (get : σ → δ) (set : δ → σ → σ) : Device σ where
  read p n l s :=
    let (v, r) := d.read p n l (get s)
    (v, ⟨set r.state s, r.request⟩)
  write p n v l s :=
    let r := d.write p n v l (get s)
    ⟨set r.state s, r.request⟩
  reset s := set (d.reset (get s)) s

/-- An unclaimed port floats high, but no more than its low word. -/
def openBus (size : UInt8) : UInt32 := if size == 1 then 0xFF else 0xFFFF

end Ia32
