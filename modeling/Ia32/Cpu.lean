/-
  The registers of one processor.

  Main definitions:
  - `Cpu`, `Cpu.reset` : the register state, and its value after a reset
  - `Cpu.readRegister`, `Cpu.writeRegister?` : access to a register by reference
  - `Cpu.syncMode` : take over the mode selected in CR0
  - `Cpu.linear`, `Cpu.codeAddress` : addresses behind a segment and an offset
-/
import Ia32.Descriptor
import Ia32.Fault
import Ia32.Flags
import Ia32.Register

namespace Ia32

/-- The place of a descriptor table or an interrupt table. -/
structure TableRegister where
  base : UInt32
  limit : UInt16
  deriving DecidableEq, Repr

structure Segments where
  es : Segment
  cs : Segment
  ss : Segment
  ds : Segment
  fs : Segment
  gs : Segment
  deriving DecidableEq, Repr

namespace Segments

def get (s : Segments) : SegmentName → Segment
  | .es => s.es | .cs => s.cs | .ss => s.ss | .ds => s.ds | .fs => s.fs | .gs => s.gs

def set (s : Segments) (n : SegmentName) (v : Segment) : Segments :=
  match n with
  | .es => { s with es := v }
  | .cs => { s with cs := v }
  | .ss => { s with ss := v }
  | .ds => { s with ds := v }
  | .fs => { s with fs := v }
  | .gs => { s with gs := v }

theorem get_set (s : Segments) (n m : SegmentName) (v : Segment) :
    (s.set n v).get m = if m = n then v else s.get m := by
  cases n <;> cases m <;> rfl

theorem set_get (s : Segments) (n : SegmentName) : s.set n (s.get n) = s := by
  cases n <;> rfl

end Segments

structure Cpu where
  gprs : Gprs
  eip : UInt32
  segments : Segments
  flags : Flags
  control : Vector UInt32 5
  debug : Vector UInt32 8
  gdtr : TableRegister
  idtr : TableRegister
  halted : Bool
  /-- The number of interrupts entered and not yet left. -/
  interruptLevel : UInt32
  /-- The mode in force: the protection bit of CR0 as last sampled. -/
  protectedMode : Bool
  deriving DecidableEq

namespace Cpu

/-- Real mode at 0000:0000 with an interrupt table of 256 entries at address 0. -/
def reset : Cpu :=
  let s := Segment.realMode 0 false
  { gprs := {}
    eip := 0
    segments := ⟨s, s, s, s, s, s⟩
    flags := Flags.reset
    control := Vector.replicate 5 0
    debug := Vector.replicate 8 0
    gdtr := ⟨0, 0⟩
    idtr := ⟨0, 0x3FF⟩
    halted := false
    interruptLevel := 0
    protectedMode := false }

/-! ## General registers -/

def low (c : Cpu) (r : Gpr) (w : Width) : UInt32 := c.gprs.low r w

def setLow (c : Cpu) (r : Gpr) (w : Width) (v : UInt32) : Cpu :=
  { c with gprs := c.gprs.setLow r w v }

def setHigh (c : Cpu) (r : Gpr) (v : UInt32) : Cpu := { c with gprs := c.gprs.setHigh r v }

/-- The accumulator byte. -/
def al (c : Cpu) : UInt8 := c.gprs.eax.toUInt8

/-- The accumulator word. -/
def ax (c : Cpu) : UInt16 := c.gprs.eax.toUInt16

/-- The word register that names ports. -/
def dx (c : Cpu) : UInt16 := c.gprs.edx.toUInt16

/-! ## Segments -/

def segment (c : Cpu) (n : SegmentName) : Segment := c.segments.get n

def setSegment (c : Cpu) (n : SegmentName) (s : Segment) : Cpu :=
  { c with segments := c.segments.set n s }

theorem segment_setSegment (c : Cpu) (n k : SegmentName) (s : Segment) :
    (c.setSegment n s).segment k = if k = n then s else c.segment k :=
  Segments.get_set _ _ _ _

def selector (c : Cpu) (n : SegmentName) : UInt16 := (c.segment n).selector

/-- The linear address of an offset in a segment. -/
def linear (c : Cpu) (n : SegmentName) (offset : UInt32) : UInt32 :=
  (c.segment n).descriptor.base + offset

/-- The linear address of code; the offset must lie within the segment. -/
def codeAddress (c : Cpu) (offset : UInt32) : Except Fault UInt32 :=
  if c.segments.cs.descriptor.limit < offset then .error (.generalProtection 0 .fetchLimit)
  else .ok (c.linear .cs offset)

/-- The bits of EIP in use: sixteen unless the code segment is wide. -/
def ipMask (c : Cpu) : UInt32 := if c.segments.cs.descriptor.wide then 0xFFFFFFFF else 0xFFFF

/-- The part of ESP that addresses the stack. -/
def stackWidth (c : Cpu) : Width := if c.segments.ss.descriptor.wide then .dword else .word

/-! ## Modes -/

/-- The control register that selects the mode; its low end is the machine status word. -/
def cr0 (c : Cpu) : UInt32 := c.control[0]

def setCr0 (c : Cpu) (v : UInt32) : Cpu := { c with control := c.control.set 0 v }

@[simp] theorem cr0_setCr0 (c : Cpu) (v : UInt32) : (c.setCr0 v).cr0 = v := by
  simp [cr0, setCr0]

/-- The protection bit of CR0. -/
def protectionEnabled (c : Cpu) : Bool := c.cr0 &&& 1 != 0

def syncMode (c : Cpu) : Cpu := { c with protectedMode := c.protectionEnabled }

/-! ## Registers by reference -/

/-- The value of a register; a segment register gives its selector, a missing one zero. -/
def readRegister (c : Cpu) (r : RegisterRef) : UInt32 :=
  match r.file with
  | .general =>
    match r.slot with
    | (g, true) => c.gprs.high g
    | (g, false) => c.low g r.width
  | .segment =>
    match r.segmentName? with
    | some n => (c.selector n).toUInt32
    | none => 0
  | .control => (c.control[r.index]?).getD 0
  | .debug => (c.debug[r.index]?).getD 0

/-- Write a general, control or debug register; `none` if there is no such register.  A segment
register is not written but loaded. -/
def writeRegister? (c : Cpu) (r : RegisterRef) (v : UInt32) : Option Cpu :=
  match r.file with
  | .general =>
    match r.slot with
    | (g, true) => some (c.setHigh g v)
    | (g, false) => some (c.setLow g r.width v)
  | .segment => none
  | .control =>
    if r.index = 1 then none
    else if h : r.index < 5 then some { c with control := c.control.set r.index v }
    else none
  | .debug =>
    if h : r.index < 8 then some { c with debug := c.debug.set r.index v } else none

end Cpu

end Ia32
