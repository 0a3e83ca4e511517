/-
  Who answers at a port.

  Ports are claimed and given up in any order, and a device may hold many of them.  The history of
  claims says who holds a port: the last event that concerns it.  What reaches a device is found out
  by letting each device keep a log of its own.

  Main definitions:
  - `PortRequest`, `PortEvent` : an access, and all that can happen to ports
  - `Io.history` : the ports after a number of events
  - `PortEvent.owner`, `PortEvent.recipient` : who holds a port, and who is to have an access
  - `PortEvent.seenBy` : the accesses that a device is to have, by the history
  - `Device.logging` : a device that keeps a log

  Main statements:
  - `Io.ports_history` : the port map is the history of claims
  - `Io.ask_history` : an access goes to the recipient, and to nobody else
  - `Io.logged_eq` : logs are kept on the side
  - `Io.history_routes` : who gets which accesses
-/
import Ia32.Io
import Mathlib.Data.List.Basic
import Mathlib.Data.List.Induction
import Mathlib.Logic.Function.Basic
import Mathlib.Tactic.Common

namespace Ia32

variable {δ κ : Type}

/-- An access to a port, with its size in bytes. -/
inductive PortRequest
  | read (port : UInt16) (size : UInt8)
  | write (port : UInt16) (size : UInt8) (value : UInt32)
  deriving DecidableEq, Repr

namespace PortRequest

def port : PortRequest → UInt16
  | read p _ | write p _ _ => p

def size : PortRequest → UInt8
  | read _ n | write _ n _ => n

/-- What a read gives if no device answers; nothing is given back by a write. -/
def unanswered : PortRequest → Option UInt32
  | read _ n => some (if n = 1 then 0xFF else 0xFFFF)
  | write _ _ _ => none

end PortRequest

/-- What happens to ports; devices have names. -/
inductive PortEvent (κ : Type)
  | claim (ports : List UInt16) (k : κ)
  | release (port : UInt16)
  | access (r : PortRequest)
  deriving DecidableEq, Repr

/-! ## Accesses and events -/

/-- What a device does with an access. -/
def Device.ask (d : Device δ) (r : PortRequest) (latch : Latch) (s : δ) :
    Option UInt32 × Reply δ :=
  match r with
  | .read p n => let (v, y) := d.read p n latch s; (some v, y)
  | .write p n v => (none, d.write p n v latch s)

namespace Io

/-- An access through the port map. -/
def ask (io : Io δ) : PortRequest → Option UInt32 × Io δ
  | .read p n => let (v, io) := io.read p n; (some v, io)
  | .write p n v => (none, io.write p n v)

/-- The ports after an event. -/
def step (d : κ → Device δ) (io : Io δ) : PortEvent κ → Io δ
  | .claim ports k => io.register ports (d k)
  | .release p => io.unregister p
  | .access r => (io.ask r).2

/-- The ports after a number of events; none is claimed at first. -/
def history (d : κ → Device δ) (s : δ) (es : List (PortEvent κ)) : Io δ :=
  es.foldl (step d) (init s)

theorem history_append (d : κ → Device δ) (s : δ) (es : List (PortEvent κ)) (e : PortEvent κ) :
    history d s (es ++ [e]) = (history d s es).step d e := by
  rw [history, List.foldl_append]
  rfl

theorem isAccessSize_iff (n : UInt8) : isAccessSize n = true ↔ n = 1 ∨ n = 2 ∨ n = 4 := by
  rw [isAccessSize, Bool.or_eq_true, Bool.or_eq_true, beq_iff_eq, beq_iff_eq, beq_iff_eq, or_assoc]

/-- An access goes to the device in the port map. -/
theorem ask_of_mapped {io : Io δ} {r : PortRequest} {d : Device δ}
    (hsize : isAccessSize r.size = true) (hd : io.ports[r.port]? = some d) :
    io.ask r =
      ((d.ask r io.latch io.devices).1, io.accept (d.ask r io.latch io.devices).2) := by
  cases r with
  | read p n =>
    change isAccessSize n = true at hsize
    change io.ports[p]? = some d at hd
    rw [ask, read, if_pos hsize, hd]
    rfl
  | write p n v =>
    change isAccessSize n = true at hsize
    change io.ports[p]? = some d at hd
    rw [ask, write, if_pos hsize, hd]
    rfl

/-- Accesses to ports that nobody holds go nowhere, and so do accesses of other sizes. -/
theorem ask_of_unmapped {io : Io δ} {r : PortRequest}
    (h : isAccessSize r.size = true → io.ports[r.port]? = none) :
    io.ask r = (r.unanswered, io) := by
  have hbus (n : UInt8) : openBus n = if n = 1 then 0xFF else 0xFFFF := by
    unfold openBus
    simp only [beq_iff_eq]
  cases r with
  | read p n =>
    change isAccessSize n = true → io.ports[p]? = none at h
    by_cases hsize : isAccessSize n = true
    · rw [ask, read, if_pos hsize, h hsize, PortRequest.unanswered, ← hbus]
    · have hone : n ≠ 1 := fun e => hsize ((isAccessSize_iff n).2 (.inl e))
      rw [ask, read, if_neg hsize, PortRequest.unanswered, if_neg hone]
      rfl
  | write p n v =>
    change isAccessSize n = true → io.ports[p]? = none at h
    by_cases hsize : isAccessSize n = true
    · rw [ask, write, if_pos hsize, h hsize, PortRequest.unanswered]
    · rw [ask, write, if_neg hsize, PortRequest.unanswered]

end Io

/-! ## Who is to have an access -/

namespace PortEvent

/-- What an event says about the owner of a port, if it concerns the port. -/
def assigns (p : UInt16) : PortEvent κ → Option (Option κ)
  | claim ports k => if p ∈ ports then some (some k) else none
  | release q => if p = q then some none else none
  | access _ => none

/-- The owner of a port: the last event that concerns the port says who it is. -/
def owner (es : List (PortEvent κ)) (p : UInt16) : Option κ :=
  (es.reverse.findSome? (assigns p)).join

/-- The device that is to have an access, if there is one. -/
def recipient (es : List (PortEvent κ)) (r : PortRequest) : Option κ :=
  if r.size = 1 ∨ r.size = 2 ∨ r.size = 4 then owner es r.port else none

/-- The accesses to ports that `k` held at the time. -/
def seenBy [DecidableEq κ] (k : κ) (es : List (PortEvent κ)) : List PortRequest :=
  (List.range es.length).filterMap fun i =>
    match es[i]? with
    | some (access r) => if recipient (es.take i) r = some k then some r else none
    | _ => none

theorem owner_append (es : List (PortEvent κ)) (e : PortEvent κ) (p : UInt16) :
    owner (es ++ [e]) p = match e.assigns p with
      | some o => o
      | none => owner es p := by
  rw [owner, List.reverse_append, List.reverse_singleton, List.singleton_append,
    List.findSome?_cons]
  cases e.assigns p with
  | some o => rfl
  | none => rfl

/-- The last event adds what it brings to the device. -/
theorem seenBy_append [DecidableEq κ] (k : κ) (es : List (PortEvent κ)) (e : PortEvent κ) :
    seenBy k (es ++ [e]) = seenBy k es ++ match e with
      | access r => if recipient es r = some k then [r] else []
      | _ => [] := by
  have hold : ∀ i ∈ List.range es.length,
      (es ++ [e])[i]? = es[i]? ∧ (es ++ [e]).take i = es.take i := by
    intro i hi
    have hlt := List.mem_range.1 hi
    exact ⟨List.getElem?_append_left hlt, List.take_append_of_le_length (Nat.le_of_lt hlt)⟩
  have hlast : (es ++ [e])[es.length]? = some e := List.getElem?_concat_length
  have htake : (es ++ [e]).take es.length = es := List.take_left' rfl
  rw [seenBy, List.length_append, List.length_singleton, List.range_succ, List.filterMap_append,
    List.filterMap_congr fun i hi => by rw [(hold i hi).1, (hold i hi).2]]
  congr 1
  rw [List.filterMap_cons, List.filterMap_nil, hlast, htake]
  cases e with
  | claim ports q => rfl
  | release p => rfl
  | access r =>
    dsimp only
    split_ifs <;> rfl

end PortEvent

/-! ## The port map -/

namespace Io

open PortEvent

variable {d : κ → Device δ} {s : δ} {es : List (PortEvent κ)}

theorem ports_ask (io : Io δ) (r : PortRequest) : (io.ask r).2.ports = io.ports := by
  by_cases h : isAccessSize r.size = true → io.ports[r.port]? = none
  · rw [ask_of_unmapped h]
  · obtain ⟨hsize, hmapped⟩ := Classical.not_imp.1 h
    obtain ⟨d, hd⟩ := Option.ne_none_iff_exists'.1 hmapped
    rw [ask_of_mapped hsize hd]
    rfl

theorem ports_step (d : κ → Device δ) (io : Io δ) (e : PortEvent κ) (p : UInt16) :
    (io.step d e).ports[p]? = match e.assigns p with
      | some o => o.map d
      | none => io.ports[p]? := by
  cases e with
  | claim ports k =>
    have hports := getElem?_foldl_insert io.ports ports (d k) p
    rw [step, register, hports, assigns]
    by_cases hp : p ∈ ports
    · rw [if_pos hp, if_pos hp]
      rfl
    · rw [if_neg hp, if_neg hp]
  | release q =>
    rw [step, unregister, Std.TreeMap.getElem?_erase, assigns]
    by_cases hp : p = q
    · rw [if_pos hp, hp, if_pos Std.ReflCmp.compare_self]
      rfl
    · have hcompare : compare q p ≠ .eq := fun h => hp (Std.LawfulEqCmp.eq_of_compare h).symm
      rw [if_neg hp, if_neg hcompare]
  | access r => rw [step, ports_ask, assigns]

/-- A port is mapped to the device that holds it, by the history of claims. -/
theorem ports_history (d : κ → Device δ) (s : δ) (es : List (PortEvent κ)) (p : UInt16) :
    (history d s es).ports[p]? = (owner es p).map d := by
  induction es using List.reverseRecOn with
  | nil => exact Std.TreeMap.getElem?_emptyc
  | append_singleton es e ih =>
    rw [history_append, ports_step, owner_append, ih]
    cases e.assigns p with
    | some o => rfl
    | none => rfl

/-- An access goes to the recipient, by the history of claims. -/
theorem ask_history (d : κ → Device δ) (s : δ) (es : List (PortEvent κ)) (r : PortRequest) :
    (history d s es).ask r = match recipient es r with
      | some k => (((d k).ask r (history d s es).latch (history d s es).devices).1,
          (history d s es).accept
            ((d k).ask r (history d s es).latch (history d s es).devices).2)
      | none => (r.unanswered, history d s es) := by
  have hports := ports_history d s es r.port
  unfold recipient
  by_cases hsize : r.size = 1 ∨ r.size = 2 ∨ r.size = 4
  · have hvalid := (isAccessSize_iff r.size).2 hsize
    rw [if_pos hsize]
    cases howner : owner es r.port with
    | none =>
      rw [howner] at hports
      exact ask_of_unmapped fun _ => hports
    | some k =>
      rw [howner] at hports
      exact ask_of_mapped hvalid hports
  · rw [if_neg hsize]
    exact ask_of_unmapped fun h => absurd ((isAccessSize_iff r.size).1 h) hsize

end Io

/-! ## Logs -/

/-- A device that does what `d` does, and adds each access to log `k`. -/
def Device.logging [DecidableEq κ] (d : Device δ) (k : κ) :
    Device (δ × (κ → List PortRequest)) where
  read p n latch s :=
    let (v, y) := d.read p n latch s.1
    (v, ⟨(y.state, Function.update s.2 k (s.2 k ++ [.read p n])), y.request⟩)
  write p n v latch s :=
    let y := d.write p n v latch s.1
    ⟨(y.state, Function.update s.2 k (s.2 k ++ [.write p n v])), y.request⟩
  reset s := (d.reset s.1, s.2)

theorem Device.ask_logging [DecidableEq κ] (d : Device δ) (k : κ) (r : PortRequest)
    (latch : Latch) (s : δ) (logs : κ → List PortRequest) :
    (d.logging k).ask r latch (s, logs) = ((d.ask r latch s).1,
      ⟨((d.ask r latch s).2.state, Function.update logs k (logs k ++ [r])),
        (d.ask r latch s).2.request⟩) := by
  cases r <;> rfl

namespace Io

open PortEvent

variable [DecidableEq κ]

/-- The ports with devices that keep logs, which are empty at first. -/
def logged (d : κ → Device δ) (s : δ) (es : List (PortEvent κ)) :
    Io (δ × (κ → List PortRequest)) :=
  history (fun k => (d k).logging k) (s, fun _ => []) es

/-- One access, by the recipient: it is answered as without logs, and noted down by the device that
answers. -/
theorem ask_logged {d : κ → Device δ} {s : δ} {es : List (PortEvent κ)}
    (hdevices : (logged d s es).devices = ((history d s es).devices, fun k => seenBy k es))
    (hlatch : (logged d s es).latch = (history d s es).latch) (r : PortRequest) :
    ((logged d s es).ask r).1 = ((history d s es).ask r).1 ∧
      ((logged d s es).ask r).2.devices = (((history d s es).ask r).2.devices,
        fun k => seenBy k es ++ if recipient es r = some k then [r] else []) ∧
      ((logged d s es).ask r).2.latch = ((history d s es).ask r).2.latch := by
  have hplain := ask_history d s es r
  have hlogged : (logged d s es).ask r = _ :=
    ask_history (fun k => (d k).logging k) (s, fun _ => []) es r
  cases hr : recipient es r with
  | none =>
    rw [hr] at hplain hlogged
    rw [hplain, hlogged]
    have hnobody : (fun k => seenBy k es ++ if none = some k then [r] else []) =
        fun k => seenBy k es := by
      funext k
      rw [if_neg (by simp), List.append_nil]
    rw [hnobody]
    exact ⟨rfl, hdevices, hlatch⟩
  | some q =>
    rw [hr] at hplain hlogged
    change _ = ((((d q).logging q).ask r (logged d s es).latch (logged d s es).devices).1,
      (logged d s es).accept
        (((d q).logging q).ask r (logged d s es).latch (logged d s es).devices).2) at hlogged
    rw [hdevices, hlatch, Device.ask_logging] at hlogged
    have hnoted : Function.update (fun k => seenBy k es) q (seenBy q es ++ [r]) =
        fun k => seenBy k es ++ if some q = some k then [r] else [] := by
      funext k
      by_cases hk : k = q
      · subst hk
        rw [Function.update_self, if_pos rfl]
      · rw [Function.update_of_ne hk, if_neg fun h => hk (Option.some_inj.1 h).symm,
          List.append_nil]
    rw [hplain, hlogged, ← hnoted]
    exact ⟨rfl, rfl, congrArg (Option.or _) hlatch⟩

/-- Logs are kept on the side, and the log of a device has the accesses to ports that it held. -/
theorem logged_eq (d : κ → Device δ) (s : δ) (es : List (PortEvent κ)) :
    (logged d s es).devices = ((history d s es).devices, fun k => seenBy k es) ∧
      (logged d s es).latch = (history d s es).latch := by
  induction es using List.reverseRecOn with
  | nil => exact ⟨rfl, rfl⟩
  | append_singleton es e ih =>
    obtain ⟨hdevices, hlatch⟩ := ih
    have hlogged : logged d s (es ++ [e]) =
        (logged d s es).step (fun k => (d k).logging k) e := history_append _ _ _ _
    rw [hlogged, history_append]
    simp only [seenBy_append]
    cases e with
    | claim ports k => simpa [step, register] using ⟨hdevices, hlatch⟩
    | release p => simpa [step, unregister] using ⟨hdevices, hlatch⟩
    | access r => exact (ask_logged hdevices hlatch r).2

/-- **Ports have one owner at a time.**  Whatever has happened to ports before, an access of one, two
or four bytes goes to the device that claimed the port last and has not been replaced or given up
there since; it gets the port, the size and the value as they are, and what it answers is the
answer.  Any other access goes nowhere.  Claiming ports and giving them up changes the owner of
these ports and nothing else, so that a device goes on with the state it had at the ports that it
keeps.  Logs of their own show that devices get the accesses to ports they held at the time, in
order, and no others. -/
theorem history_routes (d : κ → Device δ) (s : δ) (es : List (PortEvent κ)) :
    let io := history d s es
    (∀ r, io.ask r = match recipient es r with
      | some k => (((d k).ask r io.latch io.devices).1,
          io.accept ((d k).ask r io.latch io.devices).2)
      | none => (r.unanswered, io)) ∧
    (∀ ports k, (io.register ports (d k)).devices = io.devices ∧
      (io.register ports (d k)).latch = io.latch ∧
      ∀ p, owner (es ++ [.claim ports k]) p = if p ∈ ports then some k else owner es p) ∧
    (∀ q, (io.unregister q).devices = io.devices ∧ (io.unregister q).latch = io.latch ∧
      ∀ p, owner (es ++ [.release q]) p = if p = q then none else owner es p) ∧
    (∀ r p, owner (es ++ [.access r]) p = owner es p) ∧
    (logged d s es).devices = (io.devices, fun k => seenBy k es) ∧
    ∀ r, ((logged d s es).ask r).1 = (io.ask r).1 := by
  intro io
  obtain ⟨hdevices, hlatch⟩ := logged_eq d s es
  refine ⟨ask_history d s es, fun ports k => ⟨rfl, rfl, fun p => ?_⟩,
    fun q => ⟨rfl, rfl, fun p => ?_⟩, fun r p => owner_append .., hdevices,
    fun r => (ask_logged hdevices hlatch r).1⟩
  · rw [owner_append, assigns]
    split_ifs <;> rfl
  · rw [owner_append, assigns]
    split_ifs <;> rfl

end Io

end Ia32
