/-
  String operations and their repetition.  Index registers and the count are used at the address
  size and wrap around within it.  The source segment can be overridden, the destination lies in
  ES.

  Main definitions:
  - `StringOp.element` : one element
  - `StringOp.repetition` : up to a given number of elements
  - `StringOp.perform`
-/
import Ia32.Alu.Sum
import Ia32.Execute.Basic

namespace Ia32

/-- Move an index register past an element of width `e`, in the direction of the string. -/
def Cpu.advance (c : Cpu) (r : Gpr) (a : AddressSize) (e : Width) : Cpu :=
  let delta := if c.flags.direction then -e.stride else e.stride
  c.setLow r a.width (c.low r a.width + delta)

namespace StringOp

variable {δ : Type}

/-- One element of the operation. -/
def element (o : StringOp) (i : Instruction) (s : System δ) : System δ :=
  let e := i.dataWidth
  let a := i.addressSize
  let n := i.prefixes.segment.getD .ds
  let si := s.cpu.low .esi a.width
  let di := s.cpu.low .edi a.width
  match o with
  | movs => (s.write .es di e (s.read n si e)).modifyCpu fun c =>
    (c.advance .esi a e).advance .edi a e
  | cmps =>
    let x := s.read n si e
    let y := s.read .es di e
    s.modifyCpu fun c =>
      let c := { c with flags := (Alu.sub c.flags e x y false).2 }
      (c.advance .esi a e).advance .edi a e
  | stos => (s.write .es di e (s.cpu.low .eax e)).modifyCpu (·.advance .edi a e)
  | lods =>
    let x := s.read n si e
    s.modifyCpu fun c => (c.setLow .eax e x).advance .esi a e
  | scas =>
    let y := s.read .es di e
    s.modifyCpu fun c =>
      { c with flags := (Alu.sub c.flags e (c.low .eax e) y false).2 }.advance .edi a e
  | ins =>
    let (x, s) := s.readPort s.cpu.dx e
    (s.write .es di e x).modifyCpu (·.advance .edi a e)
  | outs => (s.writePort s.cpu.dx e (s.read n si e)).modifyCpu (·.advance .esi a e)

/-- Whether repetition goes on after an element that has left these flags. -/
def goesOn (o : StringOp) (p : Repeat) (f : Flags) : Bool :=
  match o, p with
  | cmps, .rep | scas, .rep => f.zero
  | cmps, .repne | scas, .repne => !f.zero
  | _, _ => true

/-- Up to `n` elements, with the count kept in the count register. -/
def repetition (o : StringOp) (i : Instruction) (p : Repeat) : Nat → System δ → System δ
  | 0, s => s
  | n + 1, s =>
    let s := (o.element i s).modifyCpu (·.setLow .ecx i.addressSize.width (UInt32.ofNat n))
    if o.goesOn p s.cpu.flags then repetition o i p n s else s

def perform (o : StringOp) (i : Instruction) (s : System δ) : System δ :=
  match i.prefixes.rep with
  | none => o.element i s
  | some p => o.repetition i p (s.cpu.low .ecx i.addressSize.width).toNat s

end StringOp

end Ia32
