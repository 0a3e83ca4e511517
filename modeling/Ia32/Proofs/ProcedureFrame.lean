/-
  Frames of procedures, opened by ENTER and closed by LEAVE.

  A frame begins with the saved frame pointer.  At a nesting depth, links to the frames of the
  enclosing procedures follow, which are copied from the frame before, and a link to the frame
  itself.  The two frames may overlap, so a link is read after those in front of it have been
  pushed.

  Main definitions:
  - `Instruction.Opens`, `Instruction.Closes` : the two instructions
  - `Cpu.framePointer`, `Cpu.below` : the beginning of a frame that is opened, and the offsets from
    there on
  - `System.frameElements` : what ENTER pushes
  - `System.Opened` : a frame has been opened

  Main statements:
  - `System.enterFrame_eq` : ENTER as a list of elements that are pushed
  - `Cpu.unwound_opened` : the stack that LEAVE goes back to
  - `Exec.leave_of_enter` : ENTER, and LEAVE after it
-/
import Ia32.Processor
import Ia32.Proofs.Operands
import Ia32.Proofs.StackElements

namespace Ia32

variable {δ : Type}

open StackElement

namespace Width

theorem truncate_sub (w : Width) (x y : UInt32) :
    w.truncate (w.truncate x - y) = w.truncate (x - y) := by
  rw [UInt32.sub_eq_add_neg, truncate_add, ← UInt32.sub_eq_add_neg]

/-- A low end is part of any wider one. -/
theorem truncate_truncate_of_le {v w : Width} (h : v.bytes ≤ w.bytes) (x : UInt32) :
    v.truncate (w.truncate x) = v.truncate x := by
  have hdvd : v.modulus ∣ w.modulus := by
    revert h
    cases v <;> cases w <;> decide
  apply UInt32.toNat_inj.1
  rw [toNat_truncate, toNat_truncate, toNat_truncate, Nat.mod_mod_of_dvd _ hdvd]

theorem truncate_truncate_of_ge {v w : Width} (h : v.bytes ≤ w.bytes) (x : UInt32) :
    w.truncate (v.truncate x) = v.truncate x := by
  have hle : v.modulus ≤ w.modulus := by
    revert h
    cases v <;> cases w <;> decide
  apply UInt32.toNat_inj.1
  rw [toNat_truncate, toNat_truncate]
  exact Nat.mod_eq_of_lt (Nat.lt_of_lt_of_le (Nat.mod_lt _ v.modulus_pos) hle)

theorem truncate_merge_of_le {v w : Width} (h : v.bytes ≤ w.bytes) (x y : UInt32) :
    v.truncate (w.merge x y) = v.truncate y := by
  rw [← truncate_truncate_of_le h, truncate_merge, truncate_truncate_of_le h]

end Width

/-! ## Offsets -/

namespace Cpu

/-- The offset `k` elements of width `w` below another one. -/
def below (c : Cpu) (w : Width) (x : UInt32) (k : Nat) : UInt32 :=
  c.stackWidth.truncate (x - UInt32.ofNat (k * w.bytes))

/-- Where a frame begins that is opened now, with the saved frame pointer. -/
def framePointer (c : Cpu) (w : Width) : UInt32 := c.below w c.stackTop 1

variable {c : Cpu} {w : Width}

theorem below_below (c : Cpu) (w : Width) (x : UInt32) (m n : Nat) :
    c.below w (c.below w x m) n = c.below w x (m + n) := by
  have hsum : x - UInt32.ofNat (m * w.bytes) - UInt32.ofNat (n * w.bytes) =
      x - UInt32.ofNat ((m + n) * w.bytes) := by
    rw [Nat.add_mul, UInt32.ofNat_add]
    grind
  rw [below, below, below, Width.truncate_sub, hsum]

theorem below_low (c : Cpu) (w : Width) (r : Gpr) (k : Nat) :
    c.below w (c.low r c.stackWidth) k = c.below w (c.gprs.get r) k :=
  Width.truncate_sub _ _ _

/-- The elements of the frame are the elements that are pushed. -/
theorem linear_below_framePointer (c : Cpu) (w : Width) (k : Nat) :
    c.linear .ss (c.below w (c.framePointer w) k) =
      c.slot (-UInt32.ofNat ((k + 1) * w.bytes)) := by
  rw [framePointer, below_below, Nat.add_comm 1, below, UInt32.sub_eq_add_neg]
  rfl

theorem stackTop_lowered (c : Cpu) (w : Width) (k : Nat) :
    (c.lowered (k * w.bytes)).stackTop = c.below w c.stackTop k := by
  rw [lowered, stackTop_adjustStack, below, UInt32.sub_eq_add_neg]

end Cpu

/-! ## What is pushed -/

namespace System

variable {s : System δ} {w : Width}

/-- The elements that are pushed as `n` links are copied from below `outer`. -/
def links (w : Width) : Nat → UInt32 → System δ → List StackElement
  | 0, _, _ => []
  | n + 1, outer, s =>
    let outer := s.cpu.below w outer 1
    let v := s.read .ss outer w
    ⟨w, v⟩ :: (s.push w v).links w n outer

theorem pushLinks_eq (s : System δ) (w : Width) (n : Nat) (outer : UInt32) :
    s.pushLinks w n outer = s.pushes (s.links w n outer) := by
  induction n generalizing s outer with
  | zero => rfl
  | succ n ih =>
    have houter : s.cpu.stackWidth.truncate (outer - w.stride) = s.cpu.below w outer 1 := by
      rw [Cpu.below, Nat.one_mul, Width.stride_eq]
    rw [pushLinks, houter, ih]
    rfl

theorem length_links (s : System δ) (w : Width) (n : Nat) (outer : UInt32) :
    (s.links w n outer).length = n := by
  induction n generalizing s outer with
  | zero => rfl
  | succ n ih => rw [links, List.length_cons, ih]

theorem uniform_links (s : System δ) (w : Width) (n : Nat) (outer : UInt32) :
    Uniform w (s.links w n outer) := by
  induction n generalizing s outer with
  | zero => exact fun x hx => nomatch hx
  | succ n ih =>
    intro x hx
    rcases List.mem_cons.1 hx with rfl | hx
    · rfl
    · exact ih _ _ x hx

/-- A link is what is found on the way down, once the links in front of it have been pushed. -/
theorem getElem?_links {n k : Nat} (hk : k < n) (s : System δ) (w : Width) (outer : UInt32) :
    (s.links w n outer)[k]? = some ⟨w, (s.pushes ((s.links w n outer).take k)).read .ss
      (s.cpu.below w outer (k + 1)) w⟩ := by
  induction n generalizing s outer k with
  | zero => exact absurd hk (Nat.not_lt_zero k)
  | succ n ih =>
    cases k with
    | zero => rfl
    | succ k =>
      have hbelow : s.cpu.below w (s.cpu.below w outer 1) (k + 1) =
          s.cpu.below w outer (k + 1 + 1) := by
        rw [Cpu.below_below, Nat.add_comm 1]
      rw [← hbelow]
      exact ih (Nat.lt_of_succ_lt_succ hk) _ _

/-- The elements of a frame at nesting depth `depth`. -/
def frameElements (s : System δ) (w : Width) (depth : Nat) : List StackElement :=
  let v := s.cpu.low .ebp w
  ⟨w, v⟩ :: match depth with
    | 0 => []
    | n + 1 => (s.push w v).links w n (s.cpu.low .ebp s.cpu.stackWidth) ++
        [⟨w, s.cpu.framePointer w⟩]

theorem enterFrame_eq (s : System δ) (w : Width) (space : UInt32) (depth : Nat) :
    s.enterFrame w space depth = (s.pushes (s.frameElements w depth)).modifyCpu fun c =>
      (c.setLow .ebp w (s.cpu.framePointer w)).adjustStack (-space) := by
  have hframe : (s.push w (s.cpu.low .ebp w)).cpu.stackTop = s.cpu.framePointer w := by
    rw [cpu_push, ← Nat.one_mul w.bytes, Cpu.stackTop_lowered]
    rfl
  unfold enterFrame
  dsimp only
  rw [hframe]
  cases depth with
  | zero => rfl
  | succ n =>
    dsimp only
    rw [pushLinks_eq, frameElements, pushes_cons, pushes_append]
    rfl

theorem length_frameElements (s : System δ) (w : Width) (depth : Nat) :
    (s.frameElements w depth).length = depth + 1 := by
  cases depth with
  | zero => rfl
  | succ n => rw [frameElements, List.length_cons, List.length_append, length_links]; rfl

theorem uniform_frameElements (s : System δ) (w : Width) (depth : Nat) :
    Uniform w (s.frameElements w depth) := by
  intro x hx
  rcases List.mem_cons.1 hx with rfl | hx
  · rfl
  cases depth with
  | zero => cases hx
  | succ n =>
    rcases List.mem_append.1 hx with hx | hx
    · exact uniform_links _ _ _ _ x hx
    · cases List.mem_singleton.1 hx
      rfl

/-- The last element is a link to the frame itself. -/
theorem getElem?_frameElements_last {depth : Nat} (h : 0 < depth) (s : System δ) (w : Width) :
    (s.frameElements w depth)[depth]? = some ⟨w, s.cpu.framePointer w⟩ := by
  cases depth with
  | zero => exact absurd h (Nat.lt_irrefl 0)
  | succ n =>
    have hlast := List.getElem?_concat_length (a := (⟨w, s.cpu.framePointer w⟩ : StackElement))
      (l := (s.push w (s.cpu.low .ebp w)).links w n (s.cpu.low .ebp s.cpu.stackWidth))
    rw [length_links] at hlast
    exact hlast

/-- The elements in between are links. -/
theorem getElem?_frameElements_link {k depth : Nat} (hk : 0 < k) (hdepth : k < depth)
    (s : System δ) (w : Width) :
    (s.frameElements w depth)[k]? = some ⟨w, (s.pushes ((s.frameElements w depth).take k)).read .ss
      (s.cpu.below w s.cpu.gprs.ebp k) w⟩ := by
  cases k with
  | zero => exact absurd hk (Nat.lt_irrefl 0)
  | succ k =>
    cases depth with
    | zero => exact absurd hdepth (Nat.not_lt_zero _)
    | succ n =>
      let t := s.push w (s.cpu.low .ebp w)
      let links := t.links w n (s.cpu.low .ebp s.cpu.stackWidth)
      have hlt : k < n := Nat.lt_of_succ_lt_succ hdepth
      have hlength : k < links.length := (t.length_links w n _).symm ▸ hlt
      have htake : (s.frameElements w (n + 1)).take (k + 1) =
          ⟨w, s.cpu.low .ebp w⟩ :: links.take k :=
        congrArg _ (List.take_append_of_le_length (Nat.le_of_lt hlength))
      have hbelow : t.cpu.below w (s.cpu.low .ebp s.cpu.stackWidth) (k + 1) =
          s.cpu.below w s.cpu.gprs.ebp (k + 1) := s.cpu.below_low w .ebp (k + 1)
      rw [htake, pushes_cons, ← hbelow, ← getElem?_links hlt]
      exact List.getElem?_append_left hlength

end System

/-! ## The registers -/

namespace Cpu

variable {c : Cpu} {w : Width}

/-- The registers after a frame has been opened. -/
def opened (c : Cpu) (w : Width) (space : UInt32) (depth : Nat) : Cpu :=
  ((c.lowered ((depth + 1) * w.bytes)).setLow .ebp w (c.framePointer w)).adjustStack (-space)

/-- The stack pointer goes back to the frame pointer. -/
def unwound (c : Cpu) : Cpu := c.setLow .esp c.stackWidth (c.low .ebp c.stackWidth)

theorem stackTop_unwound (c : Cpu) : c.unwound.stackTop = c.low .ebp c.stackWidth := by
  have htop : c.unwound.stackTop = c.stackWidth.truncate (c.low .ebp c.stackWidth) :=
    Gprs.low_setLow c.gprs .esp c.stackWidth _
  exact htop.trans (Width.truncate_truncate _ _)

theorem setLow_adjustStack (c : Cpu) (v d : UInt32) :
    (c.setLow .ebp w v).adjustStack d = (c.adjustStack d).setLow .ebp w v := rfl

/-- Where the stack pointer was before is forgotten. -/
theorem setLow_esp_adjustStack (c : Cpu) (d v : UInt32) :
    (c.adjustStack d).setLow .esp c.stackWidth v = c.setLow .esp c.stackWidth v := by
  have hgprs : ((c.adjustStack d).setLow .esp c.stackWidth v).gprs =
      (c.setLow .esp c.stackWidth v).gprs :=
    c.gprs.setLow_setLow .esp c.stackWidth _ v
  exact congrArg (fun g => { c with gprs := g }) hgprs

theorem lowered_eq_setLow (c : Cpu) (w : Width) :
    c.lowered w.bytes = c.setLow .esp c.stackWidth (c.framePointer w) := by
  have htop : c.stackWidth.truncate (c.stackTop + -UInt32.ofNat w.bytes) =
      c.stackWidth.truncate (c.framePointer w) := by
    rw [framePointer, below, Width.truncate_truncate, Nat.one_mul, UInt32.sub_eq_add_neg]
  have hgprs : (c.lowered w.bytes).gprs =
      (c.setLow .esp c.stackWidth (c.framePointer w)).gprs := c.gprs.setLow_congr .esp htop
  exact congrArg (fun g => { c with gprs := g }) hgprs

theorem stackTop_opened (c : Cpu) (w : Width) (space : UInt32) (depth : Nat) :
    (c.opened w space depth).stackTop = c.stackWidth.truncate
      (c.framePointer w - UInt32.ofNat (depth * w.bytes) - space) := by
  have htop : ((c.lowered ((depth + 1) * w.bytes)).setLow .ebp w (c.framePointer w)).stackTop =
      (c.lowered ((depth + 1) * w.bytes)).stackTop := rfl
  have hbelow : c.below w c.stackTop (depth + 1) = c.below w (c.framePointer w) depth := by
    rw [framePointer, below_below, Nat.add_comm]
  rw [opened, stackTop_adjustStack, htop, stackTop_lowered, hbelow, ← UInt32.sub_eq_add_neg]
  exact Width.truncate_sub _ _ _

/-- Whatever has been pushed, the frame pointer leads back to where the frame begins; for that it
has to be as wide as the stack pointer, at least. -/
theorem unwound_opened (hw : c.stackWidth.bytes ≤ w.bytes) (space : UInt32) (depth : Nat) :
    (c.opened w space depth).unwound =
      (c.lowered w.bytes).setLow .ebp w (c.framePointer w) := by
  let d := c.adjustStack (-UInt32.ofNat ((depth + 1) * w.bytes) + -space)
  have hopened : c.opened w space depth = d.setLow .ebp w (c.framePointer w) := by
    rw [opened, setLow_adjustStack, lowered, adjustStack_adjustStack]
  have hlow : (d.setLow .ebp w (c.framePointer w)).low .ebp c.stackWidth = c.framePointer w := by
    change c.stackWidth.truncate (w.merge _ _) = _
    rw [Width.truncate_merge_of_le hw]
    exact Width.truncate_truncate _ _
  calc (c.opened w space depth).unwound
    _ = (d.setLow .ebp w (c.framePointer w)).setLow .esp c.stackWidth
        ((d.setLow .ebp w (c.framePointer w)).low .ebp c.stackWidth) := by rw [hopened]; rfl
    _ = (d.setLow .esp c.stackWidth (c.framePointer w)).setLow .ebp w (c.framePointer w) := by
        rw [hlow]; rfl
    _ = (c.lowered w.bytes).setLow .ebp w (c.framePointer w) := by
        rw [setLow_esp_adjustStack, lowered_eq_setLow]

/-- The registers that come back. -/
theorem closed_opened (hw : c.stackWidth.bytes ≤ w.bytes) (space : UInt32) (depth : Nat) :
    ((c.opened w space depth).unwound.adjustStack w.stride).setLow .ebp w (c.low .ebp w) = c := by
  have hgprs : ((c.setLow .ebp w (c.framePointer w)).setLow .ebp w (c.low .ebp w)).gprs =
      c.gprs :=
    (c.gprs.setLow_setLow .ebp w _ _).trans (c.gprs.setLow_low .ebp w)
  rw [unwound_opened hw, setLow_adjustStack, adjustStack_lowered_bytes]
  exact congrArg (fun g => { c with gprs := g }) hgprs

end Cpu

/-! ## Both instructions -/

/-- The instruction opens a frame with `space` bytes at nesting depth `depth`. -/
structure Instruction.Opens (i : Instruction) (space : UInt32) (depth : Nat) : Prop where
  unit : i.unit = .branch
  operation : i.operation = .branch .enter
  operands : i.operands = [.immediate space .word, .immediate (UInt32.ofNat depth) .byte]
  space_le : space ≤ 0xFFFF
  depth_lt : depth < 32

/-- The instruction closes a frame. -/
structure Instruction.Closes (i : Instruction) : Prop where
  unit : i.unit = .branch
  operation : i.operation = .branch .leave

namespace System

variable {s t : System δ} {w : Width} {space : UInt32} {depth : Nat}

/-- A frame that is opened at nesting depth `depth` has its place in memory. -/
def HasFrame (s : System δ) (w : Width) (depth : Nat) : Prop :=
  ∀ k ≤ depth, (s.cpu.linear .ss (s.cpu.below w (s.cpu.framePointer w) k)).toNat + w.bytes ≤
    s.ram.size

/-- System `t` is system `s` after a frame has been opened.  A link comes from the frame before, if
it is not one of the elements that the new frame has overwritten by then. -/
structure Opened (s : System δ) (w : Width) (space : UInt32) (depth : Nat) (t : System δ) :
    Prop where
  pointer : t.cpu.low .ebp w = s.cpu.framePointer w
  top : t.cpu.stackTop = s.cpu.stackWidth.truncate
    (s.cpu.framePointer w - UInt32.ofNat (depth * w.bytes) - space)
  saved : t.read .ss (s.cpu.framePointer w) w = s.cpu.low .ebp w
  self : 0 < depth →
    t.read .ss (s.cpu.below w (s.cpu.framePointer w) depth) w = s.cpu.framePointer w
  link : ∀ k, 0 < k → k < depth →
    (∀ j, w.Covers (s.cpu.linear .ss (s.cpu.below w s.cpu.gprs.ebp k)) j →
      ∀ m < k, ¬ w.Covers (s.cpu.linear .ss (s.cpu.below w (s.cpu.framePointer w) m)) j) →
    t.read .ss (s.cpu.below w (s.cpu.framePointer w) k) w =
      s.read .ss (s.cpu.below w s.cpu.gprs.ebp k) w
  outside : ∀ j,
    (∀ k ≤ depth, ¬ w.Covers (s.cpu.linear .ss (s.cpu.below w (s.cpu.framePointer w) k)) j) →
    t.ram.byte j = s.ram.byte j

theorem cpu_enterFrame (s : System δ) (w : Width) (space : UInt32) (depth : Nat) :
    (s.enterFrame w space depth).cpu = s.cpu.opened w space depth := by
  rw [enterFrame_eq, cpu_modifyCpu, cpu_pushes, (s.uniform_frameElements w depth).extent,
    length_frameElements]
  rfl

theorem ram_enterFrame (s : System δ) (w : Width) (space : UInt32) (depth : Nat) :
    (s.enterFrame w space depth).ram = (s.pushes (s.frameElements w depth)).ram := by
  rw [enterFrame_eq, ram_modifyCpu]

theorem leaveFrame_eq (s : System δ) (w : Width) : s.leaveFrame w = s.modifyCpu fun c =>
    (c.unwound.adjustStack w.stride).setLow .ebp w
      (s.read .ss (s.cpu.low .ebp s.cpu.stackWidth) w) := by
  have htop : (s.modifyCpu Cpu.unwound).cpu.stackTop = s.cpu.low .ebp s.cpu.stackWidth :=
    s.cpu.stackTop_unwound
  have hleave : s.leaveFrame w = ((s.modifyCpu Cpu.unwound).modifyCpu
      (·.adjustStack w.stride)).modifyCpu (·.setLow .ebp w ((s.modifyCpu Cpu.unwound).read .ss
        (s.modifyCpu Cpu.unwound).cpu.stackTop w)) := rfl
  rw [hleave, htop]
  rfl

/-- The bytes of the first elements of a frame. -/
theorem occupied_frameElements {n j : Nat} (hn : n ≤ depth + 1) :
    s.cpu.Occupied ((s.frameElements w depth).take n) j ↔
      ∃ k < n, w.Covers (s.cpu.linear .ss (s.cpu.below w (s.cpu.framePointer w) k)) j := by
  have hlength : ((s.frameElements w depth).take n).length = n := by
    rw [List.length_take, length_frameElements, Nat.min_eq_left hn]
  have huniform : Uniform w ((s.frameElements w depth).take n) := fun x hx =>
    s.uniform_frameElements w depth x (List.mem_of_mem_take hx)
  rw [Cpu.occupied_iff huniform, hlength]
  simp only [Cpu.linear_below_framePointer]

/-- What has been pushed is found in the frame. -/
theorem read_enterFrame (hdepth : depth < 32) (hs : s.HasFrame w depth) {k : Nat}
    {x : StackElement} (hx : (s.frameElements w depth)[k]? = some x) :
    (s.enterFrame w space depth).read .ss (s.cpu.below w (s.cpu.framePointer w) k) w =
      x.content := by
  have huniform := s.uniform_frameElements w depth
  have hextent : extent (s.frameElements w depth) ≤ s.cpu.stackWidth.modulus := by
    rw [huniform.extent, length_frameElements]
    refine s.cpu.le_modulus_stackWidth ?_
    cases w <;> simp only [Width.bytes] <;> omega
  have hram : s.ram.Backs (s.cpu.placed (s.frameElements w depth)) := by
    intro p hp
    obtain ⟨k, hk, e⟩ := (Cpu.mem_placed_iff huniform).1 hp
    obtain ⟨hlt, hp⟩ := List.getElem?_eq_some_iff.1 hk
    rw [length_frameElements] at hlt
    rw [e, ← Cpu.linear_below_framePointer, huniform p.1 (hp ▸ List.getElem_mem _)]
    exact hs k (Nat.le_of_lt_succ hlt)
  have hholds := holds_pushes hextent hram (x, _) ((Cpu.mem_placed_iff huniform).2 ⟨k, hx, rfl⟩)
  have hlinear (offset : UInt32) : (s.enterFrame w space depth).cpu.linear .ss offset =
      s.cpu.linear .ss offset := by
    rw [cpu_enterFrame]
    rfl
  obtain rfl : x.width = w := huniform x (List.mem_of_getElem? hx)
  rw [read, readLinear, hlinear, ram_enterFrame, Cpu.linear_below_framePointer]
  exact hholds

theorem opened_enterFrame (hw : s.cpu.stackWidth.bytes ≤ w.bytes) (hdepth : depth < 32)
    (hs : s.HasFrame w depth) (space : UInt32) :
    s.Opened w space depth (s.enterFrame w space depth) where
  pointer := by
    have hpointer : (s.cpu.opened w space depth).low .ebp w =
        w.truncate (s.cpu.framePointer w) :=
      Gprs.low_setLow (s.cpu.lowered ((depth + 1) * w.bytes)).gprs .ebp w _
    rw [cpu_enterFrame, hpointer]
    exact Width.truncate_truncate_of_ge hw _
  top := by
    rw [cpu_enterFrame]
    exact Cpu.stackTop_opened ..
  saved := by
    have hzero : s.cpu.below w (s.cpu.framePointer w) 0 = s.cpu.framePointer w :=
      s.cpu.below_below w s.cpu.stackTop 1 0
    have hfirst : (s.frameElements w depth)[0]? = some ⟨w, s.cpu.low .ebp w⟩ := rfl
    rw [← hzero, read_enterFrame hdepth hs hfirst]
    exact Width.truncate_truncate _ _
  self h := by
    rw [read_enterFrame hdepth hs (getElem?_frameElements_last h s w)]
    exact Width.truncate_truncate_of_ge hw _
  link k hk hlt hapart := by
    have hkept : (s.pushes ((s.frameElements w depth).take k)).read .ss
        (s.cpu.below w s.cpu.gprs.ebp k) w = s.read .ss (s.cpu.below w s.cpu.gprs.ebp k) w := by
      have hlinear : (s.pushes ((s.frameElements w depth).take k)).cpu.linear .ss
          (s.cpu.below w s.cpu.gprs.ebp k) = s.cpu.linear .ss (s.cpu.below w s.cpu.gprs.ebp k) := by
        rw [cpu_pushes]
        rfl
      rw [read, readLinear, hlinear]
      refine Ram.read_congr fun j hj => byte_pushes fun h => ?_
      obtain ⟨m, hm, hcovers⟩ := (occupied_frameElements (Nat.le_succ_of_le (Nat.le_of_lt hlt))).1 h
      exact hapart j hj m hm hcovers
    rw [read_enterFrame hdepth hs (getElem?_frameElements_link hk hlt s w), hkept]
    exact Ram.truncate_read _ _ _
  outside j hj := by
    have hall : (s.frameElements w depth).take (depth + 1) = s.frameElements w depth :=
      List.take_of_length_le (Nat.le_of_eq (s.length_frameElements w depth))
    rw [ram_enterFrame]
    refine byte_pushes fun h => ?_
    rw [← hall, occupied_frameElements (Nat.le_refl _)] at h
    obtain ⟨k, hk, hcovers⟩ := h
    exact hj k (Nat.le_of_lt_succ hk) hcovers

/-- The frame pointer is found even if no more of it is looked at than the stack pointer has. -/
theorem Opened.low_pointer (h : s.Opened w space depth t)
    (hw : s.cpu.stackWidth.bytes ≤ w.bytes) :
    t.cpu.low .ebp s.cpu.stackWidth = s.cpu.framePointer w := by
  have hlow : t.cpu.low .ebp s.cpu.stackWidth = s.cpu.stackWidth.truncate (t.cpu.low .ebp w) :=
    (Width.truncate_truncate_of_le hw _).symm
  rw [hlow, h.pointer]
  exact Width.truncate_truncate _ _

/-- EIP is not part of it. -/
theorem Opened.jump (h : s.Opened w space depth t) (next : UInt32) :
    s.Opened w space depth (t.modifyCpu fun c => { c with eip := next }) :=
  ⟨h.pointer, h.top, h.saved, h.self, h.link, h.outside⟩

end System

namespace Exec

variable {i j : Instruction} {s t : System δ} {space : UInt32} {depth : Nat}

theorem run_perform_enter (hi : i.Opens space depth) (next : UInt32) (s : System δ) :
    (i.perform next).run s = .ok .next (s.enterFrame i.operandWidth space depth) := by
  have hspace : i.operands[0]? = some (.immediate space .word) := by rw [hi.operands]; rfl
  have hdepth : i.operands[1]? = some (.immediate (UInt32.ofNat depth) .byte) := by
    rw [hi.operands]; rfl
  have hmask : Width.truncate .word space &&& 0xFFFF = space :=
    (Width.truncate_truncate .word space).trans (Width.truncate_word_of_le hi.space_le)
  have hlevel : ∀ d < 32, (Width.truncate .byte (UInt32.ofNat d) &&& 0x1F).toNat = d := by decide
  have hrun : (BranchOp.enter.perform i next).run s = .ok .next (s.enterFrame i.operandWidth
      (Width.truncate .word space &&& 0xFFFF)
      (Width.truncate .byte (UInt32.ofNat depth) &&& 0x1F).toNat) := by
    rw [BranchOp.perform, readOperand_eq hspace, readOperand_eq hdepth, run_gets_bind,
      run_gets_bind]
    rfl
  rw [Instruction.perform_branch hi.unit hi.operation, hrun, hmask, hlevel depth hi.depth_lt]

theorem run_perform_leave (hj : j.Closes) (next : UInt32) (s : System δ) :
    (j.perform next).run s = .ok .next (s.leaveFrame j.operandWidth) := by
  rw [Instruction.perform_branch hj.unit hj.operation]
  rfl

/-- **LEAVE takes back what ENTER has done**, if operands are not narrower than the stack pointer.
ENTER builds the frame that its operands ask for, whatever pointers wrap around on the way; LEAVE
brings back all registers, however deep the frame is and however much space it has, and leaves
memory alone. -/
theorem leave_of_enter (hi : i.Opens space depth) (hj : j.Closes)
    (hw : j.operandWidth = i.operandWidth)
    (hstack : s.cpu.stackWidth.bytes ≤ i.operandWidth.bytes)
    (hs : s.HasFrame i.operandWidth depth) :
    ∃ t r, (execute i).run s = .ok .retired t ∧ s.Opened i.operandWidth space depth t ∧
      (execute j).run t = .ok .retired r ∧
      r.cpu = { s.cpu with eip := t.cpu.nextOffset j.length } ∧
      r.ram = t.ram ∧ t.io = s.io ∧ r.io = s.io := by
  let w := i.operandWidth
  let t := (s.enterFrame w space depth).modifyCpu fun c =>
    { c with eip := s.cpu.nextOffset i.length }
  have hopened : s.Opened w space depth t :=
    (System.opened_enterFrame hstack hi.depth_lt hs space).jump (s.cpu.nextOffset i.length)
  have hcpu : t.cpu = { s.cpu.opened w space depth with eip := s.cpu.nextOffset i.length } := by
    rw [System.cpu_modifyCpu, System.cpu_enterFrame]
  have hio : t.io = s.io := by
    rw [System.io_modifyCpu, System.enterFrame_eq, System.io_modifyCpu, System.io_pushes]
  have hsaved : t.read .ss (t.cpu.low .ebp t.cpu.stackWidth) w = s.cpu.low .ebp w := by
    have hwidth : t.cpu.stackWidth = s.cpu.stackWidth := by
      rw [hcpu]
      rfl
    rw [hwidth, hopened.low_pointer hstack, hopened.saved]
  have hleave := run_execute_of_next (run_perform_leave hj (t.cpu.nextOffset j.length) t)
  rw [hw, System.leaveFrame_eq, hsaved] at hleave
  have hback (next : UInt32) :
      { (t.cpu.unwound.adjustStack w.stride).setLow .ebp w (s.cpu.low .ebp w) with eip := next } =
        { s.cpu with eip := next } := by
    rw [hcpu]
    exact congrArg (fun c => { c with eip := next }) (s.cpu.closed_opened hstack space depth)
  have henter : (execute i).run s = .ok .retired t :=
    run_execute_of_next (run_perform_enter hi _ s)
  refine ⟨t, _, henter, hopened, hleave, hback _, ?_, hio, ?_⟩
  · rw [System.ram_modifyCpu, System.ram_modifyCpu]
  · rw [System.io_modifyCpu, System.io_modifyCpu, hio]

/-- ENTER with a doubleword frame: 16 bytes at depth 3. -/
def enterNested : Instruction :=
  { Instruction.ofOperands (.branch .enter) [.immediate 0x10 .word, .immediate 3 .byte] 5 with
    prefixes := { operandSize := true }
    operandWidth := .dword }

/-- LEAVE from a doubleword frame. -/
def leaveNested : Instruction :=
  { Instruction.ofOperands (.branch .leave) [] 2 with
    prefixes := { operandSize := true }
    operandWidth := .dword
    dataWidth := .dword }

/-- A system with two links in front of the frame, and a 16-bit stack on which a new frame comes
around. -/
def nested : System Unit where
  cpu := { Cpu.reset with gprs := { esp := 0xABCD0003, ebp := 0x12340180 } }
  ram := (Ram.zeroed 0x20000).writeBytes 0x178 [0x22, 0x22, 0, 0, 0x11, 0x11, 0, 0]
  io := Io.init ()

theorem hasFrame_nested : nested.HasFrame .dword 3 := by
  have hsize : nested.ram.size = 0x20000 := by simp [nested]
  unfold System.HasFrame
  rw [hsize]
  decide +kernel

/-- The links lie in front of the new frame. -/
theorem apart_nested {k m j : Nat} (hk : k < 3) (hm : m < k)
    (hj : Width.dword.Covers
      (nested.cpu.linear .ss (nested.cpu.below .dword nested.cpu.gprs.ebp k)) j) :
    ¬ Width.dword.Covers (nested.cpu.linear .ss
      (nested.cpu.below .dword (nested.cpu.framePointer .dword) m)) j := by
  have hlink : ∀ k < 3, (nested.cpu.linear .ss
      (nested.cpu.below .dword nested.cpu.gprs.ebp k)).toNat ≤ 0x180 := by decide +kernel
  have hplace : ∀ m < 3, 0x200 ≤ (nested.cpu.linear .ss
      (nested.cpu.below .dword (nested.cpu.framePointer .dword) m)).toNat := by decide +kernel
  have hlow := hlink k hk
  have hhigh := hplace m (Nat.lt_trans hm hk)
  unfold Width.Covers at *
  simp only [Width.bytes] at *
  omega

/-- The links are copied, and the registers come back. -/
theorem leave_of_enter_nested :
    let i := enterNested
    let j := leaveNested
    let s := nested
    Instruction.decode [0x66, 0xC8, 0x10, 0, 3] false 0 = .ok i ∧
      Instruction.decode [0x66, 0xC9] false 5 = .ok j ∧
      s.cpu.stackWidth.bytes ≤ i.operandWidth.bytes ∧ s.HasFrame i.operandWidth 3 ∧
      ∃ t r, (execute i).run s = .ok .retired t ∧ (execute j).run t = .ok .retired r ∧
        t.cpu.low .ebp .dword = 0xFFFF ∧ t.cpu.stackTop = 0xFFE3 ∧
        t.read .ss 0xFFFF .dword = 0x12340180 ∧ t.read .ss 0xFFFB .dword = 0x1111 ∧
        t.read .ss 0xFFF7 .dword = 0x2222 ∧ t.read .ss 0xFFF3 .dword = 0xFFFF ∧
        r.cpu = { s.cpu with eip := t.cpu.nextOffset j.length } := by
  intro i j s
  have hi : i.Opens 0x10 3 := ⟨rfl, rfl, rfl, by decide, by decide⟩
  have hj : j.Closes := ⟨rfl, rfl⟩
  have hstack : s.cpu.stackWidth.bytes ≤ i.operandWidth.bytes := by decide
  obtain ⟨t, r, ht, ho, hr, hcpu, -⟩ := leave_of_enter hi hj rfl hstack hasFrame_nested
  have hframe : s.cpu.framePointer .dword = 0xFFFF := by decide +kernel
  have hbelow : s.cpu.below .dword 0xFFFF 1 = 0xFFFB ∧ s.cpu.below .dword 0xFFFF 2 = 0xFFF7 ∧
      s.cpu.below .dword 0xFFFF 3 = 0xFFF3 := by decide +kernel
  have hlinks : s.read .ss (s.cpu.below .dword s.cpu.gprs.ebp 1) .dword = 0x1111 ∧
      s.read .ss (s.cpu.below .dword s.cpu.gprs.ebp 2) .dword = 0x2222 := by decide +kernel
  have hlink (k : Nat) (hk : 0 < k) (hlt : k < 3) :
      t.read .ss (s.cpu.below .dword 0xFFFF k) .dword =
        s.read .ss (s.cpu.below .dword s.cpu.gprs.ebp k) .dword := by
    rw [← hframe]
    exact ho.link k hk hlt fun j hj m hm => apart_nested hlt hm hj
  have hpointer : t.cpu.low .ebp .dword = 0xFFFF := ho.pointer.trans hframe
  have htop : t.cpu.stackTop = 0xFFE3 := ho.top.trans (by decide +kernel)
  have hsaved : t.read .ss 0xFFFF .dword = 0x12340180 := by
    have hold : s.cpu.low .ebp .dword = 0x12340180 := by decide +kernel
    rw [← hframe]
    exact ho.saved.trans hold
  have hself : t.read .ss 0xFFF3 .dword = 0xFFFF := by
    rw [← hbelow.2.2, ← hframe]
    exact ho.self (by decide)
  refine ⟨by decide +kernel, by decide +kernel, hstack, hasFrame_nested, t, r, ht, hr, hpointer,
    htop, hsaved, ?_, ?_, hself, hcpu⟩
  · rw [← hbelow.1, hlink 1 (by decide) (by decide), hlinks.1]
  · rw [← hbelow.2.1, hlink 2 (by decide) (by decide), hlinks.2]

end Exec

end Ia32
