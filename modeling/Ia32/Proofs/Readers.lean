/-
  What a reader uses up decides what it reads.

  A reader takes bytes off the front, and what stands behind the last byte that it takes has no
  influence on it.

  Main definitions:
  - `Reader.Reads` : some bytes are read off whatever begins with them
  - `Reader.Local` : whatever is read is read in this way
  - `reference` : what the opcode maps tell of the bytes of an instruction

  Main statements:
  - `Reader.Local.bind` : one reader after another
  - `local_readBody` : instructions are read locally
  - `disassemble_follows` : what is disassembled is what the opcode maps tell of the bytes
-/
import Ia32.Proofs.Decoding
import Ia32.Proofs.Reference

namespace Ia32.Encoding

variable {α β : Type}

/-- The bytes `used` are read as `a` from any byte string that begins with them, and used up. -/
def Reader.Reads (x : Reader α) (a : α) (used : List UInt8) : Prop :=
  ∀ rest, x.run (used ++ rest) = .ok (a, rest)

/-- What is read comes from the bytes that are used up. -/
def Reader.Local (x : Reader α) : Prop :=
  ∀ bs a rest, x.run bs = .ok (a, rest) → ∃ used, bs = used ++ rest ∧ x.Reads a used

namespace Reader.Local

theorem pure (a : α) : Local (pure a) := by
  rintro bs _ _ ⟨⟩
  exact ⟨[], rfl, fun _ => rfl⟩

theorem bind {x : Reader α} {f : α → Reader β} (hx : Local x) (hf : ∀ a, Local (f a)) :
    Local (x >>= f) := by
  intro bs b rest h
  rw [StateT.run_bind] at h
  cases e : x.run bs with
  | error d => rw [e] at h; cases h
  | ok r =>
    obtain ⟨a, middle⟩ := r
    rw [e] at h
    obtain ⟨first, rfl, hfirst⟩ := hx bs a middle e
    obtain ⟨second, rfl, hsecond⟩ := hf a middle b rest h
    refine ⟨first ++ second, (List.append_assoc _ _ _).symm, fun tail => ?_⟩
    rw [StateT.run_bind, List.append_assoc, hfirst]
    exact hsecond tail

theorem fail (d : Defect) : Local (fail d : Reader α) := by
  rintro bs a rest ⟨⟩

theorem guard (ok : Bool) : Local (guard ok) := by
  cases ok
  · exact fail _
  · exact pure ()

theorem byte : Local byte := by
  intro bs a rest h
  cases bs with
  | nil => cases h
  | cons b bs => cases h; exact ⟨[a], rfl, fun _ => rfl⟩

theorem number (n : Nat) : Local (number n) := by
  induction n with
  | zero => exact pure 0
  | succ n ih => exact byte.bind fun lo => ih.bind fun hi => pure _

theorem ofWidth (w : Width) : Local (ofWidth w) := number w.bytes

theorem skip (n : Nat) : Local (skip n) := by
  induction n with
  | zero => exact pure ()
  | succ n ih => exact byte.bind fun _ => ih

end Reader.Local

open Reader (Local)

/-! ## Operands -/

theorem local_readDisplacement (a : AddressSize) (m : ModRm) : Local (readDisplacement a m) := by
  unfold readDisplacement
  split
  · exact (Local.number 1).bind fun _ => .pure _
  · exact .ofWidth _
  · exact .pure _

theorem local_readWordAddress (m : ModRm) : Local (readWordAddress m) := by
  rw [readWordAddress]
  split_ifs
  · exact (Local.number 2).bind fun _ => .pure _
  · exact (local_readDisplacement .word m).bind fun _ => .pure _

theorem local_readScaled (m s : ModRm) : Local (readScaled m s) := by
  rw [readScaled]
  generalize (if s.reg = 4 then RegisterName.absent else registerName s.reg .dword) = i
  dsimp only
  split_ifs
  · exact (Local.number 4).bind fun _ => .pure _
  · exact (local_readDisplacement .dword m).bind fun _ => .pure _

theorem local_readAddress (a : AddressSize) (m : ModRm) : Local (readAddress a m) := by
  cases a
  case word => exact local_readWordAddress m
  case dword =>
    change Local (readDwordAddress m)
    rw [readDwordAddress]
    split_ifs
    · exact Local.byte.bind fun s => local_readScaled m _
    · exact (Local.number 4).bind fun _ => .pure _
    · exact (local_readDisplacement .dword m).bind fun _ => .pure _

theorem local_readPlace (a : AddressSize) (m : ModRm) (xs : List OperandForm) :
    Local (readPlace a m xs) := by
  rw [readPlace]
  split_ifs
  · exact (local_readAddress a m).bind fun _ => .pure _
  · exact .pure _

theorem local_readOperand (a : AddressSize) (m : ModRm) (p : Option RawPlace)
    (x : OperandForm) : Local (readOperand a m p x) := by
  cases x with
  | offset w | immediate w => exact (Local.ofWidth _).bind fun _ => .pure _
  | second => exact Local.byte.bind fun _ => .pure _
  | extended w => exact (Local.number 1).bind fun _ => .pure _
  | distance d w => exact (Local.ofWidth d).bind fun _ => .pure _
  | far w => exact (Local.ofWidth w).bind fun _ => (Local.ofWidth _).bind fun _ => .pure _
  | _ => exact .pure _

theorem local_readOperands (a : AddressSize) (m : ModRm) (p : Option RawPlace)
    (xs : List OperandForm) : Local (readOperands a m p xs) := by
  induction xs with
  | nil => exact .pure _
  | cons x xs ih => exact (local_readOperand a m p x).bind fun _ => ih.bind fun _ => .pure _

/-! ## Vector encodings -/

theorem local_readTail (a : AddressSize) (m : ModRm) (addressed : Bool) (tail : Nat) :
    Local (readTail a m addressed tail) := by
  rw [readTail]
  split_ifs
  · exact (local_readAddress a m).bind fun _ => .skip tail
  · exact .skip tail

theorem local_readIndexed (a : AddressSize) (m : ModRm) : Local (readIndexed a m) := by
  rw [readIndexed]
  split_ifs
  · exact Local.byte.bind fun _ => (local_readScaled m _).bind fun _ => .pure _
  · exact (local_readAddress a m).bind fun _ => .pure _

theorem local_readEnding (a : AddressSize) (m : ModRm) (ok : Bool) (e : Ending) :
    Local (e.read a m ok) := by
  rw [Ending.read]
  dsimp only
  split_ifs
  · exact (local_readIndexed a m).bind fun _ => (Local.skip _).bind fun _ => .guard _
  · exact (Local.pure _).bind fun _ => (Local.skip _).bind fun _ => .guard _

theorem local_readEndings (a : AddressSize) (m : ModRm) (ok : Bool) (es : List Ending) :
    Local (readEndings a m ok es) := by
  unfold readEndings
  split
  · exact local_readEnding a m ok _
  · exact local_readEnding a m ok _
  · exact .fail _

theorem local_readShort (a : AddressSize) (ok : Bool) (x : ShortFields) (extended : Bool)
    (n : Nat) : Local (readShort a ok x extended n) := by
  rw [readShort]
  split
  · exact .fail _
  · refine Local.byte.bind fun b => ?_
    dsimp only
    split_ifs
    · exact .guard _
    · exact Local.byte.bind fun _ => local_readEndings a _ ok _

theorem local_readLong (a : AddressSize) (ok : Bool) (m : ModRm) : Local (readLong a ok m) := by
  refine Local.byte.bind fun q => Local.byte.bind fun r => Local.byte.bind fun b =>
    Local.byte.bind fun n => (Local.guard _).bind fun _ => ?_
  split
  · exact local_readEndings a _ _ _
  · exact .fail _

theorem local_readVector (a : AddressSize) (ok : Bool) (kind : VectorKind) (m : ModRm) :
    Local (readVector a ok kind m) := by
  cases kind with
  | twoByte => exact local_readShort a ok (.ofByte m.byte false) false 1
  | threeByte | extended => exact Local.byte.bind fun _ => local_readShort a ok _ _ _
  | fourByte => exact local_readLong a ok m

/-! ## Instructions -/

theorem local_readForm (a : AddressSize) (p : PrefixSet) (m : ModRm) (f : Form) :
    Local (readForm a p m f) := by
  cases f with
  | known o xs lockable =>
    exact (local_readPlace a m xs).bind fun place =>
      (local_readOperands a m place xs).bind fun ys => (Local.guard _).bind fun _ => .pure _
  | foreign addressed tail lockable =>
    exact (local_readTail a m addressed tail).bind fun _ => (Local.guard _).bind fun _ => .pure _
  | refused addressed tail =>
    exact (local_readTail a m addressed tail).bind fun _ => .fail _
  | vector kind => exact (local_readVector a _ kind m).bind fun _ => .pure _

theorem local_readEntry (a : AddressSize) (p : PrefixSet) (e : Entry) :
    Local (readEntry a p e) := by
  cases e with
  | fixed f => exact local_readForm a p _ f
  | selected f => exact Local.byte.bind fun b => local_readForm a p _ _

theorem local_readPackedFloat (a : AddressSize) (p : PrefixSet) : Local (readPackedFloat a p) :=
  Local.byte.bind fun _ => (local_readTail a _ _ _).bind fun _ =>
    Local.byte.bind fun _ => local_readForm a p _ _

/-- **Instructions are read locally**, from the opcode on. -/
theorem local_readBody (s : Sizes) (p : PrefixSet) : Local (readBody s p) := by
  refine Local.byte.bind fun op => ?_
  split_ifs
  · exact local_readEntry _ p _
  · refine Local.byte.bind fun op => ?_
    split_ifs
    · exact Local.byte.bind fun _ => local_readEntry _ p _
    · exact Local.byte.bind fun _ => local_readEntry _ p _
    · exact local_readPackedFloat _ p
    · exact local_readEntry _ p _

/-- An opcode is one byte at least. -/
theorem ne_nil_of_readBody {s : Sizes} {p : PrefixSet} {r : RawInstruction} {used : List UInt8}
    (h : (readBody s p).Reads r used) : used ≠ [] := by
  rintro rfl
  cases h []

/-! ## The bytes of an instruction -/

/-- What the opcode maps tell of a byte string: legacy bytes, and an instruction from its opcode on
that uses up all others. -/
def reference : Reference := fun wide bs =>
  let p := PrefixSet.ofBytes (PrefixSet.leading bs)
  match (readBody (Sizes.ofPrefixes wide p) p).run (bs.drop (PrefixSet.leading bs).length) with
  | .ok (r, []) => some r
  | _ => none

variable {wide : Bool} {bs : List UInt8} {r : RawInstruction}

theorem reads_of_reference (h : reference wide bs = some r) :
    let p := PrefixSet.ofBytes (PrefixSet.leading bs)
    (readBody (Sizes.ofPrefixes wide p) p).Reads r (bs.drop (PrefixSet.leading bs).length) := by
  dsimp only [reference] at h
  split at h
  · rename_i q hread
    cases h
    obtain ⟨used, hused, hreads⟩ := local_readBody _ _ _ _ _ hread
    rw [List.append_nil] at hused
    rwa [hused]
  · cases h

/-- **The opcode maps are a reference**: no opcode is a legacy byte, and operands are of a form of
the mnemonic. -/
theorem reference_lawful : reference.Lawful where
  opcode {wide bs r} h := by
    obtain ⟨b, rest, hb⟩ := List.exists_cons_of_ne_nil (ne_nil_of_readBody (reads_of_reference h))
    refine ⟨b, List.mem_of_mem_drop (hb ▸ List.mem_cons_self), ?_⟩
    exact PrefixSet.not_mem_of_head_drop bs b (by rw [hb]; rfl)
  form {wide bs r} h := by
    have hread := reads_of_reference h []
    exact (readBody_yields _ _ _ _ _ hread).form

/-- **The disassembler does with the bytes what the opcode maps tell of them.** -/
theorem disassemble_follows : disassemble.Follows reference := by
  intro wide bs ip r n
  constructor
  · intro h
    obtain ⟨q, left, hbody, hn, rfl⟩ := body_of_disassemble h
    obtain ⟨used, hdrop, hused⟩ := local_readBody _ _ _ _ _ hbody
    have hlength := congrArg List.length hdrop
    have hpos := List.length_pos_of_ne_nil (ne_nil_of_readBody hused)
    rw [List.length_drop, List.length_append] at hlength
    have hlt : (PrefixSet.leading bs).length < n := by omega
    have htake : (bs.take n).drop (PrefixSet.leading bs).length = used := by
      rw [List.drop_take, hdrop, List.take_left' (by omega)]
    refine ⟨by omega, q, ?_, rfl⟩
    have hrun := hused []
    rw [List.append_nil] at hrun
    rw [reference, PrefixSet.leading_take hlt, htake, hrun]
  · rintro ⟨hn, q, hq, rfl⟩
    obtain ⟨b, hb, hopcode⟩ := reference_lawful.opcode hq
    have hlt := PrefixSet.length_leading_lt hb hopcode
    have hreads := reads_of_reference hq (bs.drop n)
    have hdrop : (bs.take n).drop (PrefixSet.leading bs).length ++ bs.drop n =
        bs.drop (PrefixSet.leading bs).length := by
      rw [← List.drop_append_of_le_length (by rw [List.length_take]; omega),
        List.take_append_drop]
    rw [PrefixSet.leading_take hlt, hdrop] at hreads
    rw [disassemble, PrefixSet.takeAll_eq, PrefixSet.empty_followedBy]
    dsimp only
    rw [StateT.run] at hreads
    rw [hreads]
    dsimp only
    rw [List.length_drop, Nat.sub_sub_self hn]

end Ia32.Encoding
