/-
  The register names, and the file of the eight general registers with its narrower views.

  Main definitions:
  - `Gpr`, `SegmentName` : general registers and segment registers, in encoding order
  - `RegisterRef` : a register as an instruction names it
  - `Gprs` : the general registers; `Gprs.low`, `Gprs.setLow` are the views of the low end,
    `Gprs.high`, `Gprs.setHigh` those of the second byte

  Main statements:
  - `Gprs.get_set` : a write changes one register and no other
  - `Gprs.low_setLow` : a view reads back what was written through it
-/
import Ia32.Width

namespace Ia32

inductive Gpr
  | eax | ecx | edx | ebx | esp | ebp | esi | edi
  deriving DecidableEq, Repr

inductive SegmentName
  | es | cs | ss | ds | fs | gs
  deriving DecidableEq, Repr

def Gpr.all : List Gpr := [.eax, .ecx, .edx, .ebx, .esp, .ebp, .esi, .edi]

/-- The general register encoded by the low three bits of `n`. -/
def Gpr.ofCode (n : Nat) : Gpr :=
  match n % 8 with
  | 0 => eax | 1 => ecx | 2 => edx | 3 => ebx | 4 => esp | 5 => ebp | 6 => esi | _ => edi

def SegmentName.all : List SegmentName := [.es, .cs, .ss, .ds, .fs, .gs]

def SegmentName.ofCode? : Nat → Option SegmentName
  | 0 => some es | 1 => some cs | 2 => some ss | 3 => some ds | 4 => some fs | 5 => some gs
  | _ => none

def SegmentName.code : SegmentName → Nat
  | es => 0 | cs => 1 | ss => 2 | ds => 3 | fs => 4 | gs => 5

/-- The files of registers that operands name. -/
inductive RegisterFile
  | general | segment | control | debug
  deriving DecidableEq, Repr

/-- A register by file and encoding.  Byte registers 4 to 7 are the second bytes of the first
four general registers. -/
structure RegisterRef where
  file : RegisterFile
  index : Nat
  width : Width
  deriving DecidableEq, Repr

namespace RegisterRef

def general (i : Nat) (w : Width) : RegisterRef := ⟨.general, i, w⟩

def segment (s : SegmentName) : RegisterRef := ⟨.segment, s.code, .word⟩

def control (i : Nat) : RegisterRef := ⟨.control, i, .dword⟩

def debug (i : Nat) : RegisterRef := ⟨.debug, i, .dword⟩

/-- The general register behind the reference, and whether its second byte is meant. -/
def slot (r : RegisterRef) : Gpr × Bool :=
  if r.width = .byte ∧ 4 ≤ r.index then (Gpr.ofCode (r.index - 4), true)
  else (Gpr.ofCode r.index, false)

/-- The segment register referred to, if it is one. -/
def segmentName? (r : RegisterRef) : Option SegmentName :=
  if r.file = .segment then SegmentName.ofCode? r.index else none

end RegisterRef

/-- The general registers, each stored once as a full word. -/
structure Gprs where
  eax : UInt32 := 0
  ecx : UInt32 := 0
  edx : UInt32 := 0
  ebx : UInt32 := 0
  esp : UInt32 := 0
  ebp : UInt32 := 0
  esi : UInt32 := 0
  edi : UInt32 := 0
  deriving DecidableEq, Repr

namespace Gprs

def get (g : Gprs) : Gpr → UInt32
  | .eax => g.eax | .ecx => g.ecx | .edx => g.edx | .ebx => g.ebx
  | .esp => g.esp | .ebp => g.ebp | .esi => g.esi | .edi => g.edi

def set (g : Gprs) (r : Gpr) (v : UInt32) : Gprs :=
  match r with
  | .eax => { g with eax := v }
  | .ecx => { g with ecx := v }
  | .edx => { g with edx := v }
  | .ebx => { g with ebx := v }
  | .esp => { g with esp := v }
  | .ebp => { g with ebp := v }
  | .esi => { g with esi := v }
  | .edi => { g with edi := v }

/-- The low end of a register. -/
def low (g : Gprs) (r : Gpr) (w : Width) : UInt32 := w.truncate (g.get r)

/-- Replace the low end of a register. -/
def setLow (g : Gprs) (r : Gpr) (w : Width) (v : UInt32) : Gprs := g.set r (w.merge (g.get r) v)

/-- The second byte of a register. -/
def high (g : Gprs) (r : Gpr) : UInt32 := (g.get r >>> 8) &&& 0xFF

/-- Replace the second byte of a register. -/
def setHigh (g : Gprs) (r : Gpr) (v : UInt32) : Gprs :=
  let b : UInt32 := (v &&& 0xFF) <<< 8
  g.set r ((g.get r &&& 0xFFFF00FF) ||| b)

theorem get_set (g : Gprs) (r q : Gpr) (v : UInt32) :
    (g.set r v).get q = if q = r then v else g.get q := by
  cases r <;> cases q <;> rfl

theorem set_get (g : Gprs) (r : Gpr) : g.set r (g.get r) = g := by
  cases r <;> rfl

theorem set_set (g : Gprs) (r : Gpr) (u v : UInt32) : (g.set r u).set r v = g.set r v := by
  cases r <;> rfl

/-- The low end of a register after it has been written. -/
@[simp] theorem low_setLow (g : Gprs) (r : Gpr) (w : Width) (v : UInt32) :
    (g.setLow r w v).low r w = w.truncate v := by
  simp [setLow, low, get_set]

theorem get_setLow_of_ne {g : Gprs} {r q : Gpr} (h : q ≠ r) (w : Width) (v : UInt32) :
    (g.setLow r w v).get q = g.get q := by
  simp [setLow, get_set, h]

theorem setLow_setLow (g : Gprs) (r : Gpr) (w : Width) (u v : UInt32) :
    (g.setLow r w u).setLow r w v = g.setLow r w v := by
  rw [setLow, setLow, setLow, set_set, get_set, if_pos rfl, Width.merge_merge]

/-- Nothing changes if a view is written back as it was. -/
theorem setLow_low (g : Gprs) (r : Gpr) (w : Width) : g.setLow r w (g.low r w) = g := by
  rw [setLow, low, Width.merge_truncate, set_get]

/-- Only the low end of what is written counts. -/
theorem setLow_congr {w : Width} {u v : UInt32} (g : Gprs) (r : Gpr)
    (h : w.truncate u = w.truncate v) : g.setLow r w u = g.setLow r w v :=
  congrArg (g.set r) (Width.merge_congr _ h)

theorem ext_get {g h : Gprs} (e : ∀ r, g.get r = h.get r) : g = h := by
  have a := e .eax; have b := e .ecx; have c := e .edx; have d := e .ebx
  have i := e .esp; have j := e .ebp; have k := e .esi; have l := e .edi
  cases g; cases h
  simp_all [get]

end Gprs

end Ia32
