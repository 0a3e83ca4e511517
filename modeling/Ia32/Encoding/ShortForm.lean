/-
  The two- and three-byte vector encodings: their fields, and what the variants of an opcode
  ask of them.

  Main definitions:
  - `ShortFields` : the fields in front of the opcode
  - `ShortForm` : a variant of an opcode
  - `ShortForm.ending` : what it asks of the bytes after the opcode
-/
import Ia32.Encoding.Ending

namespace Ia32.Encoding

/-- The fields in front of the opcode.  `source` is the number of a further source register. -/
structure ShortFields where
  mandatory : Mandatory
  wide : Bool
  long : Bool
  source : Nat

/-- The fields in the last byte before the opcode; the source is stored inverted.  The shortest
encoding has no room for the size bit. -/
def ShortFields.ofByte (q : UInt8) (sized : Bool) : ShortFields where
  mandatory := .ofField q.toNat
  wide := sized && q.toNat.testBit 7
  long := q.toNat.testBit 2
  source := 15 - q.toNat / 8 % 16

/-- A variant of an opcode.  Either size and either length will do where none is given. -/
structure ShortForm where
  mandatory : Mandatory := .none
  wide : Option Bool := none
  long : Option Bool := none
  /-- The values of the register field, if it tells operations apart. -/
  digits : List Nat := []
  shape : Shape := .any
  /-- There is a further source register; without one its field must be empty. -/
  source : Bool := false
  /-- The address has a vector of indices. -/
  indexed : Bool := false
  tail : Nat := 0

namespace ShortForm

/-- Two operands, and three with the further source. -/
def two : ShortForm := {}
def three : ShortForm := { source := true }

def w0 (f : ShortForm) : ShortForm := { f with wide := some false }
def w1 (f : ShortForm) : ShortForm := { f with wide := some true }
def l0 (f : ShortForm) : ShortForm := { f with long := some false }
def l1 (f : ShortForm) : ShortForm := { f with long := some true }
def memory (f : ShortForm) : ShortForm := { f with shape := .memory }
def register (f : ShortForm) : ShortForm := { f with shape := .register }
def digit (f : ShortForm) (ds : List Nat) : ShortForm := { f with digits := ds }
def withTail (f : ShortForm) (n : Nat) : ShortForm := { f with tail := n }

/-- The variants with the given mandatory bytes. -/
def under (f : ShortForm) (ps : List Mandatory) : List ShortForm :=
  ps.map fun p => { f with mandatory := p }

/-- The form is the one that the fields and the register field select. -/
def selectedBy (f : ShortForm) (x : ShortFields) (m : ModRm) : Bool :=
  f.mandatory == x.mandatory &&
  f.wide.all (· == x.wide) &&
  f.long.all (· == x.long) &&
  (f.digits.isEmpty || f.digits.contains m.reg)

/-- The register field, the further source and the index of a gathering load differ. -/
def gathers (x : ShortFields) (m : ModRm) (index : Option Nat) : Bool :=
  let source := x.source % 8
  index.any fun i => m.reg != i && source != i && m.reg != source

def ending (f : ShortForm) (x : ShortFields) (m : ModRm) : Ending where
  shape := f.shape
  tail := f.tail
  agrees index := (f.source || x.source == 0) && (!f.indexed || gathers x m index)

end ShortForm

end Ia32.Encoding
