/-
  An instruction is its own bytes, wherever it stands.

  Two walks go over the bytes of an instruction: legacy bytes are scanned, and a disassembler reads
  the same bytes once more.  That both agree on where the opcode is follows from the instruction set
  reference, by which an opcode is no legacy byte.  Nothing behind the instruction counts for either
  of them, and its offset has an influence on near targets only, which move along with it.

  Main statements:
  - `Instruction.decode_of_take`, `Instruction.decode_moved` : other bytes behind it, and another
    offset
  - `Instruction.decode_local` : all of this about decoding
  - `Instruction.length_of_decode` : the length of an instruction that the opcode maps have
-/
import Ia32.Proofs.Readers

namespace Ia32.Instruction

open PrefixSet (leading)

variable {d : Disassembler} {R : Reference} {bs : List UInt8} {wide : Bool} {ip : UInt32}
  {i : Instruction}

/-- A decoded instruction has between one and fifteen bytes, and all of them are there. -/
theorem length_of_decodeBy (hR : R.Lawful) (hd : d.Follows R)
    (h : decodeBy d bs wide ip = .ok i) :
    0 < i.length.toNat ∧ i.length.toNat ≤ maxInstructionLength ∧ i.length.toNat ≤ bs.length := by
  obtain ⟨hmax, hle, q, hq, -⟩ := (decodeBy_eq_ok_iff hR hd).1 h
  obtain ⟨b, hb, hopcode⟩ := hR.opcode hq
  exact ⟨Nat.zero_lt_of_lt (PrefixSet.length_leading_lt hb hopcode), hmax, hle⟩

/-- Its legacy bytes are all that are found, and do not make up the whole of it. -/
theorem scan_of_decodeBy (hR : R.Lawful) (hd : d.Follows R)
    (h : decodeBy d bs wide ip = .ok i) :
    (leading bs).length < i.length.toNat ∧
      PrefixSet.scan bs = .ok (i.prefixes, bs.drop (leading bs).length) := by
  obtain ⟨hmax, hle, q, hq, hi⟩ := (decodeBy_eq_ok_iff hR hd).1 h
  obtain ⟨b, hb, hopcode⟩ := hR.opcode hq
  have hlt := PrefixSet.length_leading_lt hb hopcode
  rw [maxInstructionLength] at hmax
  exact ⟨hlt, PrefixSet.scan_eq_ok.2 ⟨by omega, by omega,
    (RawInstruction.becomes_of_convert? hi).prefixes, rfl⟩⟩

/-- It is decoded from whatever begins with its bytes. -/
theorem decode_of_take (hR : R.Lawful) (hd : d.Follows R) (h : decodeBy d bs wide ip = .ok i)
    {cs : List UInt8} (hcs : cs.take i.length.toNat = bs.take i.length.toNat) :
    decodeBy d cs wide ip = .ok i := by
  obtain ⟨hlt, -⟩ := scan_of_decodeBy hR hd h
  rw [decodeBy_eq_ok_iff hR hd] at h ⊢
  obtain ⟨hmax, hle, hq⟩ := h
  have hlength := congrArg List.length hcs
  rw [List.length_take, List.length_take] at hlength
  rw [hcs, PrefixSet.leading_eq_of_take hcs hlt]
  exact ⟨hmax, by omega, hq⟩

/-- At another offset an instruction is the same but for its target. -/
theorem decode_moved (hR : R.Lawful) (hd : d.Follows R) (h : decodeBy d bs wide ip = .ok i)
    (jp : UInt32) : decodeBy d bs wide jp = .ok (i.movedBy (jp - ip)) := by
  rw [decodeBy_eq_ok_iff hR hd] at h ⊢
  obtain ⟨hmax, hle, q, hq, hi⟩ := h
  have hlength : (i.movedBy (jp - ip)).length = i.length := by
    unfold movedBy
    split_ifs <;> rfl
  have hnext : jp + UInt32.ofNat i.length.toNat =
      ip + UInt32.ofNat i.length.toNat + (jp - ip) := by
    rw [UInt32.add_comm ip, UInt32.add_assoc, UInt32.add_comm ip, UInt32.sub_add_cancel,
      UInt32.add_comm]
  rw [hlength]
  refine ⟨hmax, hle, q, hq, ?_⟩
  rw [hnext, ← RawInstruction.relocate_relocate,
    RawInstruction.convert?_relocate ((hR.form hq).relocate _), hi]
  rfl

/-- Targets are words or doublewords. -/
theorem target_of_decodeBy (hR : R.Lawful) (hd : d.Follows R)
    (h : decodeBy d bs wide ip = .ok i) (hr : i.operation.isRelative = true) {v : UInt32}
    {w : Width} (hv : .immediate v w ∈ i.operands) : w = .word ∨ w = .dword := by
  obtain ⟨-, -, q, hq, hi⟩ := (decodeBy_eq_ok_iff hR hd).1 h
  have hbecomes := RawInstruction.becomes_of_convert? hi
  have haims := RawInstruction.aims_of_operation? ((hR.form hq).relocate _) hbecomes.operation
  rw [hr, if_pos rfl] at haims
  obtain ⟨himplied, -⟩ | ⟨-, ys, hys, htake⟩ :=
    RawInstruction.operands_of_operands? hbecomes.operands
  · rw [RawInstruction.isImplied_of_isRelative hr] at himplied
    cases himplied
  · rw [htake] at hv
    exact RawOperand.width_of_targets haims hys (List.mem_of_mem_take hv)

/-- **Decoding is local, and independent of the offset**, with any disassembler that follows the
instruction set reference.  A decoded instruction has between one and fifteen bytes, all of them
there and not all of them legacy ones.  It goes to the unit of its operation and has three operands
at most.  It is decoded from any byte string that begins with the same bytes, and at any offset,
where its target, if it has a near one, is moved by the difference modulo its size. -/
theorem decode_local (hR : R.Lawful) (hd : d.Follows R) (h : decodeBy d bs wide ip = .ok i) :
    (0 < i.length.toNat ∧ i.length.toNat ≤ maxInstructionLength ∧ i.length.toNat ≤ bs.length) ∧
    ((leading bs).length < i.length.toNat ∧
      PrefixSet.scan bs = .ok (i.prefixes, bs.drop (leading bs).length)) ∧
    (i.unit = i.operation.unit ∧ i.operands.length ≤ 3) ∧
    (∀ cs, cs.take i.length.toNat = bs.take i.length.toNat → decodeBy d cs wide ip = .ok i) ∧
    (∀ jp, decodeBy d bs wide jp = .ok (i.movedBy (jp - ip))) ∧
    (i.operation.isRelative = true → ∀ v w, .immediate v w ∈ i.operands →
      w = .word ∨ w = .dword) := by
  obtain ⟨-, -, q, -, hi⟩ := (decodeBy_eq_ok_iff hR hd).1 h
  have hbecomes := RawInstruction.becomes_of_convert? hi
  exact ⟨length_of_decodeBy hR hd h, scan_of_decodeBy hR hd h,
    ⟨hbecomes.unit, RawInstruction.length_operands? hbecomes.operands⟩,
    fun _ => decode_of_take hR hd h, decode_moved hR hd h,
    fun hr _ _ => target_of_decodeBy hR hd h hr⟩

/-- A branch to its own second byte, `jnz -2` behind a segment byte.  What follows it makes no
difference, and at the end of the offsets its target wraps around. -/
theorem decode_local_branch :
    let bs : List UInt8 := [0x2E, 0x75, 0xFE, 0x90]
    ∃ i, decode bs false 0x100 = .ok i ∧ i.length = 3 ∧
      i.operands = [.immediate 0x101 .word] ∧ i.prefixes.segment = some .cs ∧
      decode [0x2E, 0x75, 0xFE, 0x0F, 0x0F] false 0x100 = .ok i ∧
      decode bs false 0xFFFF = .ok { i with operands := [.immediate 0 .word] } := by
  have hdecode : decodeBy Encoding.disassemble [0x2E, 0x75, 0xFE, 0x90] false 0x100 = .ok
      { Instruction.ofOperands (.branch (.jcc .notEqual)) [.immediate 0x101 .word] 3 with
        prefixes := { segment := some .cs } } := by
    rfl
  obtain ⟨-, -, -, hlocal, hmoved, -⟩ :=
    decode_local Encoding.reference_lawful Encoding.disassemble_follows hdecode
  exact ⟨_, hdecode, rfl, rfl, rfl, hlocal [0x2E, 0x75, 0xFE, 0x0F, 0x0F] rfl, hmoved 0xFFFF⟩

/-- An instruction that the opcode maps have is between one and fifteen bytes long. -/
theorem length_of_decode (h : decode bs wide ip = .ok i) :
    0 < i.length.toNat ∧ i.length.toNat ≤ maxInstructionLength :=
  have hlength := length_of_decodeBy Encoding.reference_lawful Encoding.disassemble_follows h
  ⟨hlength.1, hlength.2.1⟩

end Ia32.Instruction
