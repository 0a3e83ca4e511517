/-
  Numbers in hexadecimal, lower case, with at least a given number of digits.
-/

namespace Ia32.Text

/-- `n` in lower-case hexadecimal, zeros in front up to `digits` digits. -/
def hex (n : Nat) (digits : Nat) : String :=
  let s := String.ofList (Nat.toDigits 16 n)
  String.ofList (List.replicate (digits - s.length) '0') ++ s

/-- `n` in hexadecimal after `0x`, with at least `digits` digits. -/
def hex0x (n : Nat) (digits : Nat) : String := "0x" ++ hex n digits

end Ia32.Text
