/-
  SassImports/Text/Hexadecimal.lean
  =================================
  Numbers in hexadecimal digits of either case.
-/
import SassImports.Text

namespace SassImports.Text

def hexDigit? (c : Char) : Option Nat :=
  if c.isDigit then some (c.toNat - '0'.toNat)
  else if 'a' ≤ c ∧ c ≤ 'f' then some (c.toNat - 'a'.toNat + 10)
  else if 'A' ≤ c ∧ c ≤ 'F' then some (c.toNat - 'A'.toNat + 10)
  else none

/-- The value of a run of hexadecimal digits, continued from `n`. -/
def hexadecimal? (n : Nat) : Text → Option Nat
  | [] => some n
  | c :: rest => (hexDigit? c).bind fun d => hexadecimal? (16 * n + d) rest

end SassImports.Text
