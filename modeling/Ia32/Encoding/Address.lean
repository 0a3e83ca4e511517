/-
  The bytes of a memory address: the scale byte of 32-bit addresses and the displacement.

  Main definitions:
  - `readAddress` : the place in memory that a `ModRm` byte selects, of unknown size
-/
import Ia32.Encoding.Form

namespace Ia32.Encoding

/-- A place of unknown size. -/
def unsizedPlace (base index : RegisterName) (displacement : UInt32) : RawPlace :=
  { base, index, displacement, size := .bytes 0 }

/-- A displacement of one byte is extended with its sign. -/
def readByteDisplacement (a : AddressSize) : Reader UInt32 := do
  return a.wrap (Width.signExtend .byte (← Reader.number 1))

/-- The displacement that the upper field of the byte asks for. -/
def readDisplacement (a : AddressSize) (m : ModRm) : Reader UInt32 :=
  match m.mod with
  | 1 => readByteDisplacement a
  | 2 => Reader.ofWidth a.width
  | _ => pure 0

/-- The registers of a 16-bit address. -/
def wordBase (rm : Nat) : RegisterName × RegisterName :=
  match rm with
  | 0 => (.bx, .si)
  | 1 => (.bx, .di)
  | 2 => (.bp, .si)
  | 3 => (.bp, .di)
  | 4 => (.si, .absent)
  | 5 => (.di, .absent)
  | 6 => (.bp, .absent)
  | _ => (.bx, .absent)

def readWordAddress (m : ModRm) : Reader RawPlace := do
  if m.mod = 0 ∧ m.rm = 6 then
    return unsizedPlace .absent .absent (← Reader.number 2)
  let (b, i) := wordBase m.rm
  return unsizedPlace b i (← readDisplacement .word m)

/-- The rest of an address behind its scale byte `s`; the encoding of ESP as index means none. -/
def readScaled (m s : ModRm) : Reader RawPlace := do
  let i := if s.reg = 4 then .absent else registerName s.reg .dword
  let p ←
    if s.rm = 5 ∧ m.mod = 0 then
      do pure (unsizedPlace .absent i (← Reader.number 4))
    else
      do pure (unsizedPlace (registerName s.rm .dword) i (← readDisplacement .dword m))
  return { p with scale := 1 <<< UInt8.ofNat s.mod }

def readDwordAddress (m : ModRm) : Reader RawPlace := do
  if m.rm = 4 then
    readScaled m ⟨← Reader.byte⟩
  else if m.mod = 0 ∧ m.rm = 5 then
    return unsizedPlace .absent .absent (← Reader.number 4)
  else
    return unsizedPlace (registerName m.rm .dword) .absent (← readDisplacement .dword m)

def readAddress (a : AddressSize) (m : ModRm) : Reader RawPlace :=
  match a with
  | .word => readWordAddress m
  | .dword => readDwordAddress m

end Ia32.Encoding
