/-!
# Hexadecimal text

Digits of a natural number in base sixteen, padded on the left to a width.
-/

namespace Lanewise.Text

/-- Lower-case digits, at least `width` of them. -/
def hex (width n : Nat) : String :=
  let digits := Nat.toDigits 16 n
  String.ofList (List.replicate (width - digits.length) '0' ++ digits)

/-- Upper-case digits, at least `width` of them. -/
def hexUpper (width n : Nat) : String :=
  (hex width n).toUpper

/-- The value of a hexadecimal digit of either case. -/
def hexValue? (c : Char) : Option Nat :=
  if '0' ≤ c ∧ c ≤ '9' then some (c.toNat - '0'.toNat)
  else if 'a' ≤ c ∧ c ≤ 'f' then some (c.toNat - 'a'.toNat + 10)
  else if 'A' ≤ c ∧ c ≤ 'F' then some (c.toNat - 'A'.toNat + 10)
  else none

end Lanewise.Text
