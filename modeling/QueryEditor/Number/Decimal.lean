import QueryEditor.Text.Basic

/-!
# Decimal digits and their values

* `digitValue`, `decimalValue`: the value of a digit and of digits;
* `hexValue?`, `isDigitOf`, `valueIn`: digits of a base up to sixteen;
* `padded`: a number written to a width.
-/

namespace QueryEditor

def digitValue (c : Char) : Nat := c.toNat - '0'.toNat

def decimalValue (digits : Text) : Nat := digits.foldl (fun n c => n * 10 + digitValue c) 0

def hexValue? (c : Char) : Option Nat :=
  if c.isDigit then some (digitValue c)
  else if 'a' ≤ c ∧ c ≤ 'f' then some (c.toNat - 'a'.toNat + 10)
  else if 'A' ≤ c ∧ c ≤ 'F' then some (c.toNat - 'A'.toNat + 10)
  else none

/-- The character is a digit of the base, which is at most sixteen. -/
def isDigitOf (base : Nat) (c : Char) : Bool := (hexValue? c).any (· < base)

/-- The value of digits in a base. -/
def valueIn (base : Nat) (digits : Text) : Nat :=
  digits.foldl (fun n c => n * base + (hexValue? c).getD 0) 0

/-- A number in decimal digits, with zeros in front of it to a width. -/
def padded (width n : Nat) : Text := (Nat.repr n).toList.leftpad width '0'

end QueryEditor
