/-
  Repeated input and output of strings.

  Main definitions:
  - `Io.afterReads`, `Io.answer` : a port that is read again and again
  - `StringOp.outputs`, `StringOp.inputs` : the accesses of repeated output and input

  Main statements:
  - `StringOp.traced_outs` : the elements of the source are written, in order
  - `StringOp.received_ins` : the destination holds what the port has answered
  - `Exec.run_repeated_port_transfer`
-/
import Ia32.Proofs.Elements
import Ia32.Proofs.Tapping

namespace Ia32

variable {δ : Type} {i : Instruction} {o : StringOp} {p : Repeat} {s t : System δ} {n k : Nat}

/-- An access to a port can be as wide as a register, or a part of it. -/
theorem Io.isAccessSize_bytes (w : Width) : isAccessSize (UInt8.ofNat w.bytes) = true := by
  cases w <;> rfl

namespace Io

/-- The ports after port number `port` has been read `k` times. -/
def afterReads (io : Io δ) (port : UInt16) (size : UInt8) : Nat → Io δ
  | 0 => io
  | k + 1 => ((io.afterReads port size k).read port size).2

/-- What read number `k` of the port answers. -/
def answer (io : Io δ) (port : UInt16) (size : UInt8) (k : Nat) : UInt32 :=
  ((io.afterReads port size k).read port size).1

/-- The accesses of reading a port again and again. -/
theorem trace_afterReads (io : Io δ) (port : UInt16) {size : UInt8} (h : isAccessSize size = true)
    (k : Nat) : io.Trace ((List.range k).map fun j => .read port size (io.answer port size j))
      (io.afterReads port size k) := by
  induction k with
  | zero => exact .nil
  | succ k ih =>
    rw [List.range_succ, List.map_append]
    exact ih.read port size h

theorem Alike.afterReads {σ : Type} {Q : Io δ → Io σ → Prop} {io : Io δ} {jo : Io σ} (hQ : Alike Q)
    (h : Q io jo) (port : UInt16) (size : UInt8) (k : Nat) :
    Q (io.afterReads port size k) (jo.afterReads port size k) := by
  induction k with
  | zero => exact h
  | succ k ih => exact (hQ.read ih port size).2

/-- Taps pass on what the port behind them answers. -/
theorem answer_tap (io : Io δ) (port : UInt16) (size : UInt8) (k : Nat) :
    io.tap.answer port size k = io.answer port size k :=
  (alike_tapped.read (alike_tapped.afterReads ⟨[], io.tapped_tap⟩ port size k) port size).1

end Io

namespace StringOp

theorem Walked.dx {c d : Cpu} (h : o.Walked i c n k d) : d.dx = c.dx := by
  have hedx : d.gprs.get .edx = c.gprs.get .edx := h.gprs .edx (.inl Gpr.noConfusion)
  exact congrArg UInt32.toUInt16 hedx

/-! ## Output -/

/-- The accesses of repeated output. -/
def outputs (i : Instruction) (s : System δ) (n : Nat) : List PortAccess :=
  (List.range n).map fun k =>
    .write s.cpu.dx (UInt8.ofNat i.dataWidth.bytes) (s.sourceElement i k)

/-- Output writes the elements of the source one after another, and leaves memory as it is. -/
theorem traced_outs (s : System δ) :
    (outs.repetition i p (s.cpu.repeatCount i) s).ram = s.ram ∧
      s.io.Trace (outputs i s (s.cpu.repeatCount i))
        (outs.repetition i p (s.cpu.repeatCount i) s).io := by
  refine repetition_walked (P := fun k t => t.ram = s.ram ∧ s.io.Trace (outputs i s k) t.io) rfl
    ⟨rfl, .nil⟩ fun k t _ hwalked ⟨hram, htrace⟩ => ⟨hram, ?_⟩
  have hwrite (m : Nat) : (outs.counted i m t).io =
      t.io.write s.cpu.dx (UInt8.ofNat i.dataWidth.bytes) (s.sourceElement i k) := by
    rw [← hwalked.dx, ← System.read_source hwalked rfl hram]
    rfl
  rw [hwrite, outputs, List.range_succ, List.map_append]
  exact htrace.write _ _ _ (Io.isAccessSize_bytes _)

/-! ## Input -/

/-- What repeated input reads. -/
def input (i : Instruction) (s : System δ) (k : Nat) : UInt32 :=
  s.io.answer s.cpu.dx (UInt8.ofNat i.dataWidth.bytes) k

/-- The accesses of repeated input. -/
def inputs (i : Instruction) (s : System δ) (n : Nat) : List PortAccess :=
  (List.range n).map fun k => .read s.cpu.dx (UInt8.ofNat i.dataWidth.bytes) (input i s k)

/-- Input reads the port once for each element, and stores what the port answers. -/
theorem received_ins (s : System δ) :
    (ins.repetition i p (s.cpu.repeatCount i) s).io =
        s.io.afterReads s.cpu.dx (UInt8.ofNat i.dataWidth.bytes) (s.cpu.repeatCount i) ∧
      (s.HasRoom i (s.cpu.repeatCount i) →
        s.Stored i (fun k => i.dataWidth.truncate (input i s k)) (s.cpu.repeatCount i)
          (ins.repetition i p (s.cpu.repeatCount i) s)) := by
  refine repetition_walked (P := fun k t =>
    t.io = s.io.afterReads s.cpu.dx (UInt8.ofNat i.dataWidth.bytes) k ∧
      (s.HasRoom i (s.cpu.repeatCount i) →
        s.Stored i (fun k => i.dataWidth.truncate (input i s k)) k t)) rfl
    ⟨rfl, fun _ => .refl _ _ _ _⟩ fun k t hk hwalked ⟨hio, hstored⟩ => ⟨?_, fun hroom => ?_⟩
  · rw [Io.afterReads, ← hio, ← hwalked.dx]
    rfl
  · have hanswer : (t.io.read t.cpu.dx (UInt8.ofNat i.dataWidth.bytes)).1 = input i s k := by
      rw [hio, hwalked.dx]
      rfl
    refine hroom.stored hk (hstored hroom) (x := input i s k) rfl ?_
    rw [← hwalked.destination rfl, ← hanswer]
    rfl

/-- The accesses of repeated input are all it does to the ports. -/
theorem traced_ins (s : System δ) : s.io.Trace (inputs i s (s.cpu.repeatCount i))
    (ins.repetition i p (s.cpu.repeatCount i) s).io := by
  rw [(received_ins s).1]
  exact s.io.trace_afterReads _ (Io.isAccessSize_bytes _) _

end StringOp

/-- **Repeated input and output** accesses port DX, and no other, once for each element. -/
theorem Exec.run_repeated_port_transfer (hi : i.Repeats o p) (ho : o = .ins ∨ o = .outs)
    (next : UInt32) (s : System δ) :
    let n := s.cpu.repeatCount i
    ∃ t, (i.perform next).run s = .ok .next t ∧
      t.cpu = { s.cpu with gprs := t.cpu.gprs } ∧ t.cpu.repeatCount i = 0 ∧
      (∀ r, t.cpu.gprs.get r = o.registersAfter i s.cpu n n r) ∧
      (o = .outs → accesses (i.perform next) s = StringOp.outputs i s n ∧
        s.io.Trace (StringOp.outputs i s n) t.io ∧ t.ram = s.ram) ∧
      (o = .ins → accesses (i.perform next) s = StringOp.inputs i s n ∧
        s.io.Trace (StringOp.inputs i s n) t.io ∧
        (s.HasRoom i n →
          s.Stored i (fun k => i.dataWidth.truncate (StringOp.input i s k)) n t)) := by
  have hcompares : o.compares = false := by rcases ho with rfl | rfl <;> rfl
  have hloads : o ≠ .lods := by rcases ho with rfl | rfl <;> nofun
  have hwalked := StringOp.walked_repetition (p := p) (i := i) hcompares s
  have htapped := run_perform_of_repeats hi next (s.withIo s.io.tap)
  refine ⟨_, run_perform_of_repeats hi next s, StringOp.cpu_repetition hcompares s,
    hwalked.repeatCount.trans (Nat.sub_self _), fun r => hwalked.gprs r (.inr hloads), ?_, ?_⟩
  · rintro rfl
    obtain ⟨hram, htrace⟩ := StringOp.traced_outs (i := i) (p := p) s
    exact ⟨accesses_of_trace htapped (StringOp.traced_outs (s.withIo s.io.tap)).2, htrace, hram⟩
  · rintro rfl
    have hinputs : StringOp.inputs i (s.withIo s.io.tap) (s.cpu.repeatCount i) =
        StringOp.inputs i s (s.cpu.repeatCount i) :=
      List.map_congr_left fun k _ => congrArg (PortAccess.read _ _) (s.io.answer_tap _ _ k)
    refine ⟨?_, StringOp.traced_ins s, (StringOp.received_ins s).2⟩
    rw [← hinputs]
    exact accesses_of_trace htapped (StringOp.traced_ins (s.withIo s.io.tap))

/-- A device that counts how often it has been read. -/
def counter : Device UInt32 where
  read _ _ _ s := (s, ⟨s + 1, none⟩)
  write _ _ v _ _ := ⟨v, none⟩
  reset _ := 0

/-- The instruction `rep insb`. -/
def inputBytes : Instruction :=
  { Instruction.ofOperands (.string .ins) [] 2 with
    dataWidth := .byte
    prefixes := { rep := some .rep } }

/-- A system in real mode with the counter at port 60.  Three bytes are to be read, and stored
downwards from address 202. -/
def sampling : System UInt32 where
  cpu := { Cpu.reset with
    gprs := { ecx := 3, edx := 0x60, edi := 0x202 }
    flags := { Flags.reset with direction := true } }
  ram := Ram.zeroed 0x1000
  io := (Io.init 254).register [0x60] counter

/-- The third answer does not fit in a byte, and is stored without its upper part. -/
theorem Exec.run_repeated_port_transfer_sampling :
    inputBytes.Repeats .ins .rep ∧ sampling.cpu.repeatCount inputBytes = 3 ∧
      sampling.HasRoom inputBytes 3 ∧
      accesses (inputBytes.perform 2) sampling =
        [.read 0x60 1 0xFE, .read 0x60 1 0xFF, .read 0x60 1 0x100] ∧
      ∃ t, (inputBytes.perform 2).run sampling = .ok .next t ∧ t.readLinear 0x202 .byte = 0xFE ∧
        t.readLinear 0x201 .byte = 0xFF ∧ t.readLinear 0x200 .byte = 0 ∧
        t.cpu.gprs.edi = 0x1FF ∧ t.cpu.gprs.ecx = 0 := by
  have hrepeats : inputBytes.Repeats .ins .rep := ⟨rfl, rfl, rfl⟩
  have hroom : sampling.HasRoom inputBytes 3 := ⟨by decide, by decide +kernel⟩
  obtain ⟨t, hrun, -, -, hgprs, -, hins⟩ :=
    Exec.run_repeated_port_transfer hrepeats (.inl rfl) 2 sampling
  obtain ⟨haccesses, -, hstored⟩ := hins rfl
  have hinside := (hstored hroom).inside
  refine ⟨hrepeats, rfl, hroom, haccesses.trans (by decide +kernel), t, hrun,
    (hinside 0 (by decide)).trans (by decide +kernel),
    (hinside 1 (by decide)).trans (by decide +kernel),
    (hinside 2 (by decide)).trans (by decide +kernel), hgprs .edi, hgprs .ecx⟩

end Ia32
