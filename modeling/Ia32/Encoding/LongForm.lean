/-
  The four-byte vector encoding: its fields, and what the variants of an opcode ask of them.

  Main definitions:
  - `LongFields` : the fields in front of the opcode
  - `LongForm` : a variant of an opcode
  - `LongForm.ending` : what it asks of the bytes after the opcode
-/
import Ia32.Encoding.ShortForm

namespace Ia32.Encoding

/-- The fields in front of the opcode.  `mask` numbers a mask register, of which none is 0; the
elements that it leaves out are set to zero if `zeroing`.  `special` repeats one element of
memory, or rounds between registers. -/
structure LongFields where
  mandatory : Mandatory
  wide : Bool
  length : Nat
  source : Nat
  mask : Nat
  zeroing : Bool
  special : Bool

/-- The fields in the last two bytes before the opcode; the source is stored inverted. -/
def LongFields.ofBytes (q r : UInt8) : LongFields where
  mandatory := .ofField q.toNat
  wide := q.toNat.testBit 7
  length := r.toNat / 32 % 4
  source := 15 - q.toNat / 8 % 16
  mask := r.toNat % 8
  zeroing := r.toNat.testBit 7
  special := r.toNat.testBit 4

/-- How an operation uses a mask register. -/
inductive Masking
  | forbidden | merging | zeroing | required
  deriving DecidableEq, Repr

def Masking.admits (k : Masking) (x : LongFields) : Bool :=
  match k with
  | forbidden => x.mask == 0 && !x.zeroing
  | merging => !x.zeroing
  | zeroing => true
  | required => x.mask != 0 && !x.zeroing

/-- Whether an address has a vector of indices, and whether the register that is loaded must
not be that vector. -/
inductive Indexing
  | plain | indexed | gathered
  deriving DecidableEq, Repr

/-- A variant of an opcode.  Either size will do if none is given. -/
structure LongForm where
  mandatory : Mandatory := .none
  wide : Option Bool := none
  lengths : List Nat := [0, 1, 2]
  /-- The values of the register field, if it tells operations apart. -/
  digits : List Nat := []
  shape : Shape := .any
  /-- There is a further source register; without one its field must be empty. -/
  source : Bool := false
  masking : Masking := .zeroing
  /-- One element of memory may be repeated. -/
  broadcast : Bool := false
  /-- Between registers a rounding mode, or none at all, may stand in place of the length. -/
  rounding : Bool := false
  indexing : Indexing := .plain
  /-- The register that is written must not be a source. -/
  apart : Bool := false
  tail : Nat := 0

namespace LongForm

/-- Two operands, and three with the further source. -/
def two : LongForm := {}
def three : LongForm := { source := true }

def w0 (f : LongForm) : LongForm := { f with wide := some false }
def w1 (f : LongForm) : LongForm := { f with wide := some true }

/-- The shortest vectors, all but the shortest, the longest, and single elements. -/
def short (f : LongForm) : LongForm := { f with lengths := [0] }
def longer (f : LongForm) : LongForm := { f with lengths := [1, 2] }
def longest (f : LongForm) : LongForm := { f with lengths := [2] }
def single (f : LongForm) : LongForm := { f with lengths := [0, 1, 2, 3] }

def memory (f : LongForm) : LongForm := { f with shape := .memory }
def register (f : LongForm) : LongForm := { f with shape := .register }
def digit (f : LongForm) (ds : List Nat) : LongForm := { f with digits := ds }
def withTail (f : LongForm) (n : Nat) : LongForm := { f with tail := n }

def unmasked (f : LongForm) : LongForm := { f with masking := .forbidden }
def merging (f : LongForm) : LongForm := { f with masking := .merging }
def broadcasts (f : LongForm) : LongForm := { f with broadcast := true }
def rounds (f : LongForm) : LongForm := { f with rounding := true }

/-- Addresses with a vector of indices, for storing and for loading. -/
def scattered (f : LongForm) : LongForm :=
  { f.memory with masking := .required, indexing := .indexed }
def gathered (f : LongForm) : LongForm := { f.scattered with indexing := .gathered }

/-- The variants with the given mandatory bytes. -/
def under (f : LongForm) (ps : List Mandatory) : List LongForm :=
  ps.map fun p => { f with mandatory := p }

/-- The variants for packed elements, and for single ones, of either size. -/
def packed (f : LongForm) : List LongForm := f.w0.under [.none] ++ f.w1.under [.operandSize]
def scalar (f : LongForm) : List LongForm :=
  f.single.w0.under [.rep] ++ f.single.w1.under [.repne]

/-- With a rounding mode the vectors are the longest ones. -/
def lengthOf (f : LongForm) (x : LongFields) (m : ModRm) : Nat :=
  if f.rounding && x.special && m.isRegister then 2 else x.length

/-- The form is the one that the fields and the register field select. -/
def selectedBy (f : LongForm) (x : LongFields) (m : ModRm) : Bool :=
  f.mandatory == x.mandatory &&
  f.wide.all (· == x.wide) &&
  f.lengths.contains (f.lengthOf x m) &&
  (f.digits.isEmpty || f.digits.contains m.reg)

/-- A repeated element or a rounding mode is asked for only where there can be one. -/
def admitsSpecial (f : LongForm) (x : LongFields) (m : ModRm) : Bool :=
  !x.special || (if m.isRegister then f.rounding else f.broadcast)

def admitsIndex (f : LongForm) (m : ModRm) (index : Option Nat) : Bool :=
  match f.indexing with
  | .plain => true
  | .indexed => index.isSome
  | .gathered => index.any (· != m.reg)

/-- The register that is written is no source. -/
def isApart (x : LongFields) (m : ModRm) : Bool :=
  m.reg != x.source % 8 && !(m.isRegister && m.reg == m.rm)

def ending (f : LongForm) (x : LongFields) (m : ModRm) : Ending where
  shape := f.shape
  tail := f.tail
  agrees index :=
    (f.source || x.source == 0) && f.masking.admits x && f.admitsSpecial x m &&
    f.admitsIndex m index && (!f.apart || isApart x m)

end LongForm

end Ia32.Encoding
