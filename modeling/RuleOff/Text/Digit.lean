import RuleOff.Text.Basic

/-!
# Digits

The values of decimal and hexadecimal digits, and the digits of values.

## Main statements

* `Text.hexDigit?_upperHexDigit`: an upper-case hexadecimal digit reads back as its value.
-/

namespace RuleOff.Text

/-- The value of a decimal digit. -/
def digit? (c : Char) : Option Nat :=
  if c.isDigit then some (c.toNat - '0'.toNat) else none

/-- The value of a hexadecimal digit, in either case. -/
def hexDigit? (c : Char) : Option Nat :=
  if c.isDigit then some (c.toNat - '0'.toNat)
  else if 'a' ≤ c ∧ c ≤ 'f' then some (c.toNat - 'a'.toNat + 10)
  else if 'A' ≤ c ∧ c ≤ 'F' then some (c.toNat - 'A'.toNat + 10)
  else none

/-- The hexadecimal digit of a number below sixteen, in upper case. -/
def upperHexDigit (n : Nat) : Char :=
  if n < 10 then Char.ofNat ('0'.toNat + n) else Char.ofNat ('A'.toNat + (n - 10))

/-- The numeral of a natural number in base sixteen, with lower-case digits. -/
def hex (n : Nat) : Text := Nat.toDigits 16 n

theorem hexDigit?_upperHexDigit {n : Nat} (h : n < 16) :
    hexDigit? (upperHexDigit n) = some n := by
  have all : ∀ i : Fin 16, hexDigit? (upperHexDigit i.val) = some i.val := by decide
  exact all ⟨n, h⟩

end RuleOff.Text
