/-
  OpenApiTs.Text.Hex

  Hexadecimal digits: their values in either case, and their small forms.
-/

namespace OpenApiTs.Text

/-- The value of a hexadecimal digit of either case. -/
def hexValue? (c : Char) : Option Nat :=
  if c.isDigit then some (c.toNat - 48)
  else if 'a' ≤ c ∧ c ≤ 'f' then some (c.toNat - 87)
  else if 'A' ≤ c ∧ c ≤ 'F' then some (c.toNat - 55)
  else none

/-- The digit of a number below 16, in lower case. -/
def hexDigit (n : Nat) : Char := if n < 10 then Char.ofNat (48 + n) else Char.ofNat (87 + n)

/-- A digit below 16 reads back. -/
theorem hexValue?_hexDigit (n : Nat) (h_small : n < 16) : hexValue? (hexDigit n) = some n := by
  revert n
  decide

end OpenApiTs.Text
