/-
  Which selectors a segment register accepts in protected mode.

  A selector has an index into a descriptor table and a bit that asks for the local table.  There
  is no local table, yet a selector of index 0 passes for null whichever table it asks for.

  Main definitions:
  - `System.tableEntry` : the entry of the descriptor table that a selector names
  - `System.Loadable` : the entry can be loaded into a segment register

  Main statements:
  - `Cpu.entryAddress_eq_ok`, `System.segmentOf_eq_ok` : what makes a selector good
  - `Exec.setSelector_iff_of_protectedMode` : loading a segment register in protected mode
-/
import Ia32.Proofs.Entries
import Ia32.Proofs.Frame
import Mathlib.Data.Nat.Bitwise

namespace Ia32

/-! ## The fields of a selector -/

/-- The offset of a table entry, by its number. -/
theorem entryOffset_eq (selector : UInt16) :
    (selector &&& 0xFFF8).toNat = 8 * (selector.toNat / 8) := by
  have hmod := entryOffset_mod selector
  have hdiv : (selector &&& 0xFFF8).toNat / 8 = selector.toNat / 8 := by
    have hlt := selector.toNat_lt
    have hindex : selector.toNat / 8 < 2 ^ 13 := by omega
    calc (selector &&& 0xFFF8).toNat / 8 = (selector.toNat &&& 0xFFF8) / 2 ^ 3 := by
          rw [UInt16.toNat_and]; rfl
      _ = selector.toNat / 8 &&& (2 ^ 13 - 1) := Nat.and_div_two_pow
      _ = selector.toNat / 8 := by
          rw [Nat.and_two_pow_sub_one_eq_mod, Nat.mod_eq_of_lt hindex]
  omega

theorem isNullSelector_iff {selector : UInt16} :
    isNullSelector selector = true ↔ selector.toNat < 8 := by
  have h := entryOffset_eq selector
  rw [isNullSelector, beq_iff_eq, ← UInt16.toNat_inj, h, UInt16.toNat_zero]
  omega

/-- The bit that asks for the local table. -/
theorem asksLocal_iff {selector : UInt16} :
    (selector &&& 4 != 0) = true ↔ selector.toNat / 4 % 2 = 1 := by
  rw [bne_iff_ne, ne_eq, ← UInt16.toNat_inj, UInt16.toNat_and, UInt16.toNat_zero]
  change ¬ selector.toNat &&& 2 ^ 2 = 0 ↔ _
  rw [Nat.and_two_pow, Nat.testBit_eq_decide_div_mod_eq]
  by_cases h : selector.toNat / 4 % 2 = 1 <;> simp [h]

namespace Cpu

/-- A selector names an entry if it asks for the global table, and the entry lies within it. -/
theorem entryAddress_eq_ok {c : Cpu} {selector : UInt16} {a : UInt32} :
    c.entryAddress selector = .ok a ↔ selector.toNat / 4 % 2 = 0 ∧
      8 * (selector.toNat / 8) + 7 ≤ c.gdtr.limit.toNat ∧
      a = c.gdtr.base + (selector &&& 0xFFF8).toUInt32 := by
  constructor
  · intro h
    have hglobal : ¬ (selector &&& 4 != 0) = true := by
      intro hlocal
      rw [entryAddress, if_pos hlocal] at h
      cases h
    obtain ⟨ha, hlimit⟩ := entryAddress_ok h
    rw [entryOffset_eq] at hlimit
    rw [asksLocal_iff] at hglobal
    exact ⟨by omega, hlimit, ha⟩
  · rintro ⟨hglobal, hlimit, rfl⟩
    have hlocal : ¬ (selector &&& 4 != 0) = true := by rw [asksLocal_iff]; omega
    have hin : ¬ c.gdtr.limit.toUInt32 < (selector &&& 0xFFF8).toUInt32 + 7 := by
      have hend : ((selector &&& 0xFFF8).toUInt32 + 7).toNat =
          (8 * (selector.toNat / 8) + 7) % 2 ^ 32 := by
        rw [UInt32.toNat_add, UInt16.toNat_toUInt32, entryOffset_eq]
        rfl
      rw [UInt32.lt_iff_toNat_lt, hend, UInt16.toNat_toUInt32]
      omega
    rw [entryAddress, if_neg hlocal, if_neg hin]

end Cpu

/-! ## Descriptors and registers -/

theorem Descriptor.suits_of_fits {d : Descriptor} {n : SegmentName} (h : d.Fits n)
    (hp : d.present = true) : d.suits n = true := by
  have hne : d ≠ .null := by rintro rfl; cases hp
  cases n
  case cs => exact h.2
  case ss =>
    obtain ⟨-, huser, hcode, hwritable⟩ := h
    simp [suits, isStack, huser, hcode, hwritable]
  all_goals
    obtain ⟨-, huser, hreadable⟩ := h.resolve_left hne
    simp [suits, isReadable, huser, hreadable]

/-- What fits a register is code or data. -/
theorem Descriptor.user_of_suits {lo hi : UInt32} {n : SegmentName}
    (h : (Descriptor.ofEntry lo hi).suits n = true) : (Descriptor.ofEntry lo hi).user = true := by
  cases n
  case cs => exact (Bool.and_eq_true _ _ ▸ h).1
  all_goals simp_all [suits, isStack, isReadable]

namespace System

variable {δ : Type} {s : System δ} {n : SegmentName} {selector : UInt16}

/-- The entry of the descriptor table that a selector names. -/
def tableEntry (s : System δ) (selector : UInt16) : Descriptor :=
  s.descriptorAt (s.cpu.gdtr.base + (selector &&& 0xFFF8).toUInt32)

/-- A selector names an entry, other than the first, of the global table, and it is present and of
a type that register `n` can hold. -/
structure Loadable (s : System δ) (n : SegmentName) (selector : UInt16) : Prop where
  table : selector.toNat / 4 % 2 = 0
  index : selector.toNat / 8 ≠ 0
  limit : 8 * (selector.toNat / 8) + 7 ≤ s.cpu.gdtr.limit.toNat
  present : (s.tableEntry selector).present = true
  type : (s.tableEntry selector).Fits n

/-- Loading an entry marks it as accessed, which decides nothing about its type. -/
theorem present_cachedAt (s : System δ) (a : UInt32) :
    (s.cachedAt a).present = (s.descriptorAt a).present := by
  unfold cachedAt
  dsimp only
  split_ifs <;> rfl

theorem suits_cachedAt (s : System δ) (a : UInt32) (n : SegmentName) :
    (s.cachedAt a).suits n = (s.descriptorAt a).suits n := by
  unfold cachedAt
  dsimp only
  split_ifs
  · cases n <;> rfl
  · rfl

theorem cachedAt_of_suits {a : UInt32} (hs : (s.descriptorAt a).suits n = true)
    (hp : (s.descriptorAt a).present = true) :
    s.cachedAt a = { s.descriptorAt a with accessed := true } := by
  have huser : (s.descriptorAt a).user = true := Descriptor.user_of_suits hs
  unfold cachedAt
  generalize s.descriptorAt a = d at *
  cases haccessed : d.accessed with
  | false => simp [huser, hp, haccessed]
  | true =>
    have hd : d = { d with accessed := true } := by rw [← haccessed]
    dsimp only
    rw [← hd, ite_self]

/-- In protected mode a data segment register takes a selector of the first entry for null, and
any other must be loadable. -/
theorem segmentOf_eq_ok {g : Segment} : s.segmentOf n selector = .ok g ↔
    (selector.toNat < 8 ∧ n ≠ .cs ∧ n ≠ .ss ∧ g = ⟨selector, .null⟩) ∨
      (s.Loadable n selector ∧ g = ⟨selector, { s.tableEntry selector with accessed := true }⟩) := by
  unfold segmentOf
  cases hnull : isNullSelector selector with
  | true =>
    have hlt := isNullSelector_iff.1 hnull
    have hnot : ¬ s.Loadable n selector := fun h => h.index (by omega)
    cases n <;> simp [hlt, hnot, eq_comm]
  | false =>
    have hge : ¬ selector.toNat < 8 := by simp [← isNullSelector_iff, hnull]
    simp only [hge, false_and, false_or, Bool.false_eq_true, ↓reduceIte]
    constructor
    · intro h
      cases ha : s.cpu.entryAddress selector with
      | error f => simp [descriptorOf, ha, Except.map] at h
      | ok a =>
        obtain ⟨htable, hlimit, rfl⟩ := Cpu.entryAddress_eq_ok.1 ha
        simp only [descriptorOf, ha, Except.map] at h
        split_ifs at h with hsuits hpresent
        cases h
        rw [Bool.not_eq_true', Bool.not_eq_false, suits_cachedAt] at hsuits
        rw [Bool.not_eq_true', Bool.not_eq_false, present_cachedAt] at hpresent
        have hfits := Descriptor.fits_of_suits hsuits hpresent
        refine ⟨⟨htable, by omega, hlimit, hpresent, hfits⟩, ?_⟩
        rw [cachedAt_of_suits hsuits hpresent]
        rfl
    · rintro ⟨h, rfl⟩
      have ha := Cpu.entryAddress_eq_ok.2 ⟨h.table, h.limit, rfl⟩
      have hcached := cachedAt_of_suits (Descriptor.suits_of_fits h.type h.present) h.present
      have hsuits := (suits_cachedAt s _ n).trans (Descriptor.suits_of_fits h.type h.present)
      have hpresent := (present_cachedAt s _).trans h.present
      simp only [descriptorOf, ha, Except.map, hsuits, hpresent, Bool.not_true,
        Bool.false_eq_true, ↓reduceIte]
      rw [hcached]
      rfl

end System

namespace Exec

variable {δ : Type} {s : System δ}

/-- **Which selectors are accepted in protected mode**: data segment registers accept null
selectors, and any register an entry of the global table that fits it.  Selectors of index 0 that
ask for the local table pass for null as well; no other selector of that table is accepted.  What
is accepted is loaded, with a descriptor that counts as accessed, and a refusal changes no
register. -/
theorem setSelector_iff_of_protectedMode (h : s.cpu.protectedMode = true) (n : SegmentName)
    (selector : UInt16) :
    ((∃ t, (setSelector n selector).run s = .ok () t) ↔
      (selector.toNat ≤ 3 ∧ n ≠ .cs ∧ n ≠ .ss) ∨ s.Loadable n selector ∨
        (4 ≤ selector.toNat ∧ selector.toNat ≤ 7 ∧ n ≠ .cs ∧ n ≠ .ss)) ∧
    (∀ t, (setSelector n selector).run s = .ok () t → t.cpu = s.cpu.setSegment n ⟨selector,
      if selector.toNat ≤ 7 then .null else { s.tableEntry selector with accessed := true }⟩) ∧
    ∀ f t, (setSelector n selector).run s = .error f t → t.cpu = s.cpu := by
  have hsegment : s.segmentFor n selector = s.segmentOf n selector := if_pos h
  rw [run_setSelector, hsegment]
  cases hg : s.segmentOf n selector with
  | error f =>
    refine ⟨⟨fun ⟨t, ht⟩ => (nomatch ht), fun hok => ?_⟩, fun t ht => (nomatch ht), ?_⟩
    · have hrefused (g : Segment) : ¬ s.segmentOf n selector = .ok g := by rw [hg]; exact nofun
      rcases hok with ⟨hnull, hn⟩ | hload | ⟨-, hlocal, hn⟩
      · exact absurd (System.segmentOf_eq_ok.2 (.inl ⟨by omega, hn.1, hn.2, rfl⟩)) (hrefused _)
      · exact absurd (System.segmentOf_eq_ok.2 (.inr ⟨hload, rfl⟩)) (hrefused _)
      · exact absurd (System.segmentOf_eq_ok.2 (.inl ⟨by omega, hn.1, hn.2, rfl⟩)) (hrefused _)
    · rintro _ _ ⟨⟩
      exact s.cpu_consulted selector
  | ok g =>
    have hcpu : ((s.consulted selector).modifyCpu (·.setSegment n g)).cpu =
        s.cpu.setSegment n g := by
      rw [System.cpu_modifyCpu, System.cpu_consulted]
    refine ⟨⟨fun _ => ?_, fun _ => ⟨_, rfl⟩⟩, ?_, fun _ _ ht => (nomatch ht)⟩
    · rcases System.segmentOf_eq_ok.1 hg with ⟨hindex, hcs, hss, -⟩ | ⟨hload, -⟩
      · by_cases hnull : selector.toNat ≤ 3
        · exact .inl ⟨hnull, hcs, hss⟩
        · exact .inr (.inr ⟨by omega, by omega, hcs, hss⟩)
      · exact .inr (.inl hload)
    · rintro _ ⟨⟩
      rw [hcpu]
      rcases System.segmentOf_eq_ok.1 hg with ⟨hindex, -, -, rfl⟩ | ⟨hload, rfl⟩
      · rw [if_pos (by omega)]
      · have hindex := hload.index
        rw [if_neg (by omega)]

/-- A system in protected mode.  Entry 1 of its table is a data segment that has not been accessed
yet, and the table ends there. -/
def oneSegment : System Unit where
  cpu := { Cpu.reset.setCr0 1 with gdtr := ⟨0, 0xF⟩, protectedMode := true }
  ram := (Ram.zeroed 0x10).writeBytes 8 [0xFF, 0xFF, 0, 0, 0, 0x92, 0, 0]
  io := Io.init ()

/-- A selector of the local table is accepted: there is none, and the entry is not loadable. -/
theorem setSelector_local : oneSegment.cpu.protectedMode = true ∧ (4 : UInt16).toNat / 4 % 2 = 1 ∧
    ¬ oneSegment.Loadable .ds 4 ∧ ∃ t, (setSelector .ds 4).run oneSegment = .ok () t ∧
      t.cpu.segment .ds = ⟨4, .null⟩ := by
  refine ⟨rfl, rfl, fun h => h.index rfl, ?_⟩
  exact ⟨_, run_of_answer (by decide +kernel), by decide +kernel⟩

/-- The one segment is loaded. -/
theorem setSelector_oneSegment :
    let s := oneSegment
    s.cpu.protectedMode = true ∧ s.Loadable .ds 8 ∧
      ∃ t, (setSelector .ds 8).run s = .ok () t ∧
        t.cpu = s.cpu.setSegment .ds ⟨8, { s.tableEntry 8 with accessed := true }⟩ := by
  have hload : oneSegment.Loadable .ds 8 := ⟨rfl, by decide, by decide, by decide +kernel,
    .inr ⟨by decide +kernel, by decide +kernel, .inl (by decide +kernel)⟩⟩
  obtain ⟨haccepts, hloaded, -⟩ := setSelector_iff_of_protectedMode (s := oneSegment) rfl .ds 8
  obtain ⟨t, ht⟩ := haccepts.2 (.inr (.inl hload))
  exact ⟨rfl, hload, t, ht, hloaded t ht⟩

end Exec

end Ia32
