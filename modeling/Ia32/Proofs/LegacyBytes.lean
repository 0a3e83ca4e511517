/-
  The legacy bytes in front of an opcode, taken together.

  They are taken in one after the other, but what comes of them can be told from all of them at
  once: the segment and the repetition that are named last, and which of the other bytes occur.
  So their order counts among the bytes that name segments and among the repetition bytes only.

  Main definitions:
  - `PrefixSet.legacyBytes` : the bytes that may stand in front of an opcode
  - `PrefixSet.leading` : those that do
  - `PrefixSet.ofBytes` : what a number of them ask for
  - `PrefixSet.followedBy` : what is asked for by some bytes and by others behind them

  Main statements:
  - `PrefixSet.takeAll_eq`, `PrefixSet.scan_eq` : the leading bytes are taken in, and no others
  - `PrefixSet.ofBytes_of_perm`, `PrefixSet.ofBytes_twice` : bytes in another order, or twice
  - `PrefixSet.scan_leading` : all of this about the leading bytes of a byte string
-/
import Ia32.Decoder.Prefix
import Mathlib.Data.List.Basic
import Mathlib.Data.List.TakeWhile
import Mathlib.Tactic.Common

namespace Ia32.PrefixSet

/-- The bytes that may stand in front of an opcode. -/
def legacyBytes : List UInt8 :=
  [0x26, 0x2E, 0x36, 0x3E, 0x64, 0x65, 0x66, 0x67, 0xF0, 0xF2, 0xF3]

/-- The legacy bytes in front of an opcode. -/
def leading (bs : List UInt8) : List UInt8 := bs.takeWhile legacyBytes.contains

/-- The segment that a byte names, if it names one. -/
def segmentOf? (b : UInt8) : Option SegmentName :=
  [(0x26, .es), (0x2E, .cs), (0x36, .ss), (0x3E, .ds), (0x64, .fs), (0x65, .gs)].lookup b

/-- The repetition that a byte names, if it names one. -/
def repeatOf? (b : UInt8) : Option Repeat := [(0xF2, .repne), (0xF3, .rep)].lookup b

/-- What a number of legacy bytes ask for: of the segments and of the repetitions, the one that is
named last. -/
def ofBytes (bs : List UInt8) : PrefixSet where
  segment := (bs.filterMap segmentOf?).getLast?
  operandSize := bs.contains 0x66
  addressSize := bs.contains 0x67
  rep := (bs.filterMap repeatOf?).getLast?
  lock := bs.contains 0xF0

/-- What is asked for by bytes that ask for `p` and bytes behind them that ask for `q`. -/
def followedBy (p q : PrefixSet) : PrefixSet where
  segment := q.segment.or p.segment
  operandSize := q.operandSize || p.operandSize
  addressSize := q.addressSize || p.addressSize
  rep := q.rep.or p.rep
  lock := q.lock || p.lock

variable {p q : PrefixSet} {b : UInt8} {xs ys bs : List UInt8}

/-! ## One set behind another -/

theorem empty_followedBy (p : PrefixSet) : followedBy {} p = p := by
  simp [followedBy]

theorem followedBy_self (p : PrefixSet) : p.followedBy p = p := by
  simp [followedBy]

theorem followedBy_assoc (p q r : PrefixSet) :
    (p.followedBy q).followedBy r = p.followedBy (q.followedBy r) := by
  simp [followedBy, Option.or_assoc, Bool.or_assoc]

theorem ofBytes_append (xs ys : List UInt8) :
    ofBytes (xs ++ ys) = (ofBytes xs).followedBy (ofBytes ys) := by
  simp [ofBytes, followedBy, List.filterMap_append, List.getLast?_append, Bool.or_comm]

theorem ofBytes_cons (b : UInt8) (bs : List UInt8) :
    ofBytes (b :: bs) = (ofBytes [b]).followedBy (ofBytes bs) := ofBytes_append [b] bs

/-- A legacy byte that occurs twice in a row might as well occur once. -/
theorem ofBytes_twice (xs : List UInt8) (b : UInt8) (ys : List UInt8) :
    ofBytes (xs ++ b :: b :: ys) = ofBytes (xs ++ b :: ys) := by
  rw [ofBytes_append, ofBytes_append, ofBytes_cons b (b :: ys), ofBytes_cons b ys,
    ← followedBy_assoc (ofBytes [b]), followedBy_self]

/-- Names are looked for among the bytes that have one. -/
theorem filterMap_filter_isSome {α β : Type} (f : α → Option β) (xs : List α) :
    (xs.filter fun x => (f x).isSome).filterMap f = xs.filterMap f := by
  rw [List.filterMap_filter]
  refine List.filterMap_congr fun x _ => ?_
  cases h : f x <;> simp

/-- The order of the bytes counts only among those that name segments and among those that name
repetitions. -/
theorem ofBytes_of_perm (h : xs.Perm ys)
    (hsegment : (xs.filter fun b => (segmentOf? b).isSome) =
      ys.filter fun b => (segmentOf? b).isSome)
    (hrepeat : (xs.filter fun b => (repeatOf? b).isSome) =
      ys.filter fun b => (repeatOf? b).isSome) : ofBytes xs = ofBytes ys := by
  have hcontains (b : UInt8) : xs.contains b = ys.contains b := by
    rw [Bool.eq_iff_iff, List.contains_iff_mem, List.contains_iff_mem, h.mem_iff]
  unfold ofBytes
  rw [← filterMap_filter_isSome segmentOf?, ← filterMap_filter_isSome repeatOf?, hsegment, hrepeat,
    filterMap_filter_isSome, filterMap_filter_isSome]
  simp only [hcontains]

/-! ## Taking bytes in -/

/-- The legacy bytes are taken in, and no others. -/
theorem add?_eq (p : PrefixSet) (b : UInt8) :
    p.add? b = if b ∈ legacyBytes then some (p.followedBy (ofBytes [b])) else none := by
  by_cases h : b ∈ legacyBytes
  · rw [if_pos h]
    simp only [legacyBytes, List.mem_cons, List.not_mem_nil, or_false] at h
    rcases h with rfl | rfl | rfl | rfl | rfl | rfl | rfl | rfl | rfl | rfl | rfl <;> rfl
  · rw [if_neg h]
    simp only [legacyBytes, List.mem_cons, List.not_mem_nil, or_false, not_or] at h
    simp [add?, h]

theorem leading_cons_of_mem (h : b ∈ legacyBytes) (bs : List UInt8) :
    leading (b :: bs) = b :: leading bs :=
  List.takeWhile_cons_of_pos (List.contains_iff_mem.2 h)

theorem leading_cons_of_not_mem (h : b ∉ legacyBytes) (bs : List UInt8) :
    leading (b :: bs) = [] :=
  List.takeWhile_cons_of_neg fun e => h (List.contains_iff_mem.1 e)

theorem leading_append (h : ∀ b ∈ xs, b ∈ legacyBytes) (ys : List UInt8) :
    leading (xs ++ ys) = xs ++ leading ys :=
  List.takeWhile_append_of_pos fun b hb => List.contains_iff_mem.2 (h b hb)

/-- The leading bytes end at a byte that is no legacy one. -/
theorem not_mem_of_head_drop (bs : List UInt8) :
    ∀ b ∈ (bs.drop (leading bs).length).head?, b ∉ legacyBytes := by
  induction bs with
  | nil => exact nofun
  | cons b bs ih =>
    by_cases h : b ∈ legacyBytes
    · rw [leading_cons_of_mem h, List.length_cons, List.drop_succ_cons]
      exact ih
    · rw [leading_cons_of_not_mem h]
      rintro _ ⟨⟩
      exact h

theorem length_leading_le (bs : List UInt8) : (leading bs).length ≤ bs.length :=
  (List.takeWhile_sublist _).length_le

/-- Other bytes than legacy ones are not reached. -/
theorem length_leading_lt {n : Nat} (hb : b ∈ bs.take n) (h : b ∉ legacyBytes) :
    (leading bs).length < n := by
  induction n generalizing bs with
  | zero => simp at hb
  | succ n ih =>
    cases bs with
    | nil => simp at hb
    | cons c bs =>
      by_cases hc : c ∈ legacyBytes
      · rw [List.take_succ_cons, List.mem_cons] at hb
        rw [leading_cons_of_mem hc, List.length_cons]
        exact Nat.succ_lt_succ (ih (hb.resolve_left fun e => h (e ▸ hc)))
      · rw [leading_cons_of_not_mem hc]
        exact Nat.succ_pos n

/-- Nothing behind them decides which bytes are leading. -/
theorem leading_eq_of_take {n : Nat} {cs : List UInt8} (h : cs.take n = bs.take n)
    (hlt : (leading bs).length < n) : leading cs = leading bs := by
  induction n generalizing bs cs with
  | zero => exact absurd hlt (Nat.not_lt_zero _)
  | succ n ih =>
    cases bs with
    | nil =>
      rw [List.take_nil, List.take_eq_nil_iff] at h
      rw [h.resolve_left (Nat.succ_ne_zero n)]
    | cons b bs =>
      cases cs with
      | nil => cases h
      | cons c cs =>
        obtain ⟨rfl, htail⟩ := List.cons.inj h
        by_cases hc : c ∈ legacyBytes
        · rw [leading_cons_of_mem hc, List.length_cons] at hlt
          rw [leading_cons_of_mem hc, leading_cons_of_mem hc, ih htail (Nat.lt_of_succ_lt_succ hlt)]
        · rw [leading_cons_of_not_mem hc, leading_cons_of_not_mem hc]

theorem leading_take {n : Nat} (h : (leading bs).length < n) : leading (bs.take n) = leading bs :=
  leading_eq_of_take (by rw [List.take_take, Nat.min_self]) h

theorem length_sub_drop_leading (bs : List UInt8) :
    bs.length - (bs.drop (leading bs).length).length = (leading bs).length := by
  have hle := length_leading_le bs
  rw [List.length_drop]
  omega

/-- All leading bytes are taken in, and the rest is left. -/
theorem takeAll_eq (p : PrefixSet) (bs : List UInt8) :
    p.takeAll bs = (p.followedBy (ofBytes (leading bs)), bs.drop (leading bs).length) := by
  induction bs generalizing p with
  | nil => rfl
  | cons b bs ih =>
    rw [takeAll, add?_eq]
    by_cases h : b ∈ legacyBytes
    · rw [if_pos h, leading_cons_of_mem h, ofBytes_cons b (leading bs), ← followedBy_assoc]
      exact ih _
    · rw [if_neg h, leading_cons_of_not_mem h]
      rfl

/-- The leading bytes must leave room for an opcode, and there must be one. -/
theorem scan_eq (bs : List UInt8) : scan bs =
    if 15 ≤ (leading bs).length then .error .tooLong
    else if (leading bs).length = bs.length then .error .unexpectedEnd
    else .ok (ofBytes (leading bs), bs.drop (leading bs).length) := by
  have hle := length_leading_le bs
  have hempty : (bs.drop (leading bs).length).isEmpty = true ↔
      (leading bs).length = bs.length := by
    rw [List.isEmpty_iff, List.drop_eq_nil_iff]
    omega
  rw [scan, takeAll_eq, empty_followedBy]
  simp only [length_sub_drop_leading, hempty, maxInstructionLength]

/-- What is scanned are the leading bytes. -/
theorem scan_eq_ok {rest : List UInt8} : scan bs = .ok (p, rest) ↔
    (leading bs).length < 15 ∧ (leading bs).length < bs.length ∧ p = ofBytes (leading bs) ∧
      rest = bs.drop (leading bs).length := by
  have hle := length_leading_le bs
  rw [scan_eq]
  split_ifs with hlong hend
  · simp only [false_iff]
    omega
  · simp only [false_iff]
    omega
  · rw [Except.ok.injEq, Prod.mk.injEq, eq_comm, @eq_comm _ _ rest]
    constructor
    · rintro ⟨hp, hrest⟩
      exact ⟨by omega, by omega, hp, hrest⟩
    · rintro ⟨-, -, hp, hrest⟩
      exact ⟨hp, hrest⟩

/-- Legacy bytes in front of a byte string count by their number and by what they ask for. -/
theorem scan_append (h : ∀ b ∈ xs, b ∈ legacyBytes) (bs : List UInt8) : scan (xs ++ bs) =
    if 15 ≤ xs.length + (leading bs).length then .error .tooLong
    else if (leading bs).length = bs.length then .error .unexpectedEnd
    else .ok ((ofBytes xs).followedBy (ofBytes (leading bs)), bs.drop (leading bs).length) := by
  rw [scan_eq, leading_append h, ofBytes_append, List.length_append, List.length_append,
    List.drop_length_add_append]
  simp only [Nat.add_left_cancel_iff]

/-- **The leading legacy bytes, as a set.**  A byte string with fifteen of them or more is too long,
and one with nothing behind them ends too early.  Otherwise they are taken off it, and they ask for
the segment and the repetition that are named last and for whatever else occurs among them.  So it
changes nothing to put them in another order, as long as the bytes that name segments keep theirs
and the repetition bytes keep theirs, or to write one of them twice, as long as there are not too
many. -/
theorem scan_leading :
    (∀ bs, (scan bs = .error .tooLong ↔ 15 ≤ (leading bs).length) ∧
      (scan bs = .error .unexpectedEnd ↔
        (leading bs).length < 15 ∧ (leading bs).length = bs.length) ∧
      ((leading bs).length < 15 → (leading bs).length < bs.length →
        scan bs = .ok (ofBytes (leading bs), bs.drop (leading bs).length))) ∧
    (∀ xs ys bs, (∀ b ∈ xs, b ∈ legacyBytes) → xs.Perm ys →
      ((xs.filter fun b => (segmentOf? b).isSome) = ys.filter fun b => (segmentOf? b).isSome) →
      ((xs.filter fun b => (repeatOf? b).isSome) = ys.filter fun b => (repeatOf? b).isSome) →
      scan (xs ++ bs) = scan (ys ++ bs)) ∧
    (∀ xs b bs, (∀ c ∈ xs, c ∈ legacyBytes) → b ∈ legacyBytes →
      (leading (xs ++ b :: b :: bs)).length < 15 →
      scan (xs ++ b :: b :: bs) = scan (xs ++ b :: bs)) := by
  refine ⟨fun bs => ?_, fun xs ys bs hlegacy hperm hsegment hrepeat => ?_,
    fun xs b bs hlegacy hb hlt => ?_⟩
  · rw [scan_eq]
    split_ifs with hlong hend
    · simp only [reduceCtorEq, Except.error.injEq, true_iff, false_iff]
      omega
    · simp only [reduceCtorEq, Except.error.injEq, true_iff, false_iff]
      omega
    · simp only [false_iff, implies_true, and_true]
      omega
  · have hlegacy' : ∀ b ∈ ys, b ∈ legacyBytes := fun b hb => hlegacy b (hperm.mem_iff.2 hb)
    rw [scan_append hlegacy, scan_append hlegacy', hperm.length_eq,
      ofBytes_of_perm hperm hsegment hrepeat]
  · have honce : ∀ c ∈ xs ++ [b], c ∈ legacyBytes := by
      simpa [or_imp, forall_and] using ⟨hlegacy, hb⟩
    have htwice : ∀ c ∈ xs ++ [b, b], c ∈ legacyBytes := by
      simpa [or_imp, forall_and] using ⟨hlegacy, hb⟩
    have hsplit : xs ++ b :: bs = (xs ++ [b]) ++ bs := by simp
    have hsplit' : xs ++ b :: b :: bs = (xs ++ [b, b]) ++ bs := by simp
    have hset : ofBytes (xs ++ [b, b]) = ofBytes (xs ++ [b]) := ofBytes_twice xs b []
    rw [hsplit', leading_append htwice, List.length_append] at hlt
    have hlt' : (xs ++ [b]).length + (leading bs).length < 15 := by
      simp only [List.length_append, List.length_cons, List.length_nil] at hlt ⊢
      omega
    rw [hsplit, hsplit', scan_append honce, scan_append htwice, hset, if_neg (Nat.not_le.2 hlt),
      if_neg (Nat.not_le.2 hlt')]

/-- A repeated move with two segments named, the second of which counts, and an operand size. -/
theorem scan_leading_repeated_move :
    scan [0xF3, 0x26, 0x66, 0x64, 0xA5] = scan [0x66, 0x26, 0x64, 0xF3, 0xA5] ∧
    scan [0xF3, 0x26, 0x66, 0x64, 0xA5] = scan [0xF3, 0x26, 0x66, 0x66, 0x64, 0xA5] ∧
    scan [0xF3, 0x26, 0x66, 0x64, 0xA5] =
      .ok ({ segment := some .fs, operandSize := true, rep := some .rep }, [0xA5]) := by
  obtain ⟨hscan, hperm, htwice⟩ := scan_leading
  exact ⟨hperm [0xF3, 0x26, 0x66, 0x64] [0x66, 0x26, 0x64, 0xF3] [0xA5] (by simp [legacyBytes])
      (by decide +kernel) (by decide) (by decide),
    (htwice [0xF3, 0x26] 0x66 [0x64, 0xA5] (by simp [legacyBytes]) (by simp [legacyBytes])
      (by decide)).symm,
    (hscan [0xF3, 0x26, 0x66, 0x64, 0xA5]).2.2 (by decide) (by decide)⟩

end Ia32.PrefixSet
