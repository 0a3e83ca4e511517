/-
  Segment descriptors: the base, limit and rights that stand behind a selector.

  Main definitions:
  - `Descriptor` : a decoded descriptor
  - `Descriptor.ofEntry` : the decoding of an eight-byte table entry
  - `Descriptor.realMode`, `Descriptor.null` : what selectors stand for in real mode, and what a
    null selector loads
  - `Segment` : a segment register, selector and cached descriptor
-/

namespace Ia32

structure Descriptor where
  base : UInt32
  /-- The last valid offset. -/
  limit : UInt32
  code : Bool
  /-- Writable data or readable code. -/
  writable : Bool
  /-- Code and stacks of 32 bits. -/
  wide : Bool
  accessed : Bool
  present : Bool
  /-- Code or data, not a system descriptor. -/
  user : Bool
  privilege : UInt8
  deriving DecidableEq, Repr

namespace Descriptor

/-- The 64 KiB window at sixteen times the selector. -/
def realMode (selector : UInt16) (code : Bool) : Descriptor where
  base := selector.toUInt32 <<< 4
  limit := 0xFFFF
  code := code
  writable := true
  wide := false
  accessed := true
  present := true
  user := true
  privilege := 0

def null : Descriptor where
  base := 0
  limit := 0
  code := false
  writable := false
  wide := false
  accessed := false
  present := false
  user := false
  privilege := 0

/-- Decode a table entry, given as its lower and its upper four bytes.  A granular limit counts
pages of 4 KiB. -/
def ofEntry (lo hi : UInt32) : Descriptor :=
  let bit (n : UInt32) : Bool := (hi >>> n) &&& 1 != 0
  let limit := (lo &&& 0xFFFF) ||| (hi &&& 0xF0000)
  let user := bit 12
  { base := (lo >>> 16) ||| ((hi &&& 0xFF) <<< 16) ||| (hi &&& 0xFF000000)
    limit := if bit 23 then (limit <<< 12) ||| 0xFFF else limit
    code := user && bit 11
    writable := user && bit 9
    wide := bit 22
    accessed := bit 8
    present := bit 15
    user := user
    privilege := (hi >>> 13).toUInt8 &&& 3 }

/-- Fit for the stack segment register. -/
def isStack (d : Descriptor) : Bool := d.user && !d.code && d.writable

/-- Fit for a data segment register: data, or code that can be read. -/
def isReadable (d : Descriptor) : Bool := d.user && (!d.code || d.writable)

end Descriptor

/-- A segment register: the visible selector and the descriptor cached for it. -/
structure Segment where
  selector : UInt16
  descriptor : Descriptor
  deriving DecidableEq, Repr

def Segment.realMode (selector : UInt16) (code : Bool) : Segment :=
  ⟨selector, .realMode selector code⟩

end Ia32
