/-
  Reading unsigned numbers: digits of a radix, with an optional plus sign in front.

  Main definitions:
  - `Text.digit?` : the value of a digit
  - `Text.number?` : the number that a text stands for, below a bound
-/

namespace Ia32.Text

/-- The value of a digit in radix `radix`; letters count in either case. -/
def digit? (radix : Nat) (c : Char) : Option Nat :=
  let n :=
    if '0' ≤ c ∧ c ≤ '9' then c.toNat - 48
    else if 'a' ≤ c ∧ c ≤ 'z' then c.toNat - 87
    else if 'A' ≤ c ∧ c ≤ 'Z' then c.toNat - 55
    else radix
  if n < radix then some n else none

/-- The number that a list of digits stands for, the first digit being the highest. -/
def digits? (radix : Nat) (cs : List Char) : Option Nat :=
  cs.foldlM (fun n c => (digit? radix c).map (n * radix + ·)) 0

/-- The number that a text stands for, if it is less than `bound`.  At least one digit must be
there. -/
def number? (radix bound : Nat) (s : String) : Option Nat :=
  let cs := match s.toList with
    | '+' :: cs => cs
    | cs => cs
  if cs.isEmpty then none else (digits? radix cs).filter (· < bound)

end Ia32.Text
