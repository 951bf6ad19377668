import QueryEditor.Json.Value
import QueryEditor.Number.Decimal
import QueryEditor.Number.Round

/-!
# The range of JSON numbers

A number is kept as an integer of 64 bits while it has no point and no exponent and its digits fit;
otherwise its leading digits make an integer of 64 bits that is scaled by a power of ten, both in
double precision. A number is out of range when that product is infinite.

* `Numeral.scaled`: the leading digits and the power of ten;
* `overflows`: the product rounds to infinity;
* **`Numeral.inRange`**: the test on a number as written.
-/

namespace QueryEditor.Json

def wordMax : Nat := Nat.pow 2 64 - 1

/-- Digits added to a number as long as the result fits, and the digits that are left. -/
def gather (n : Nat) : Text → Nat × Text
  | [] => (n, [])
  | c :: r =>
    let next := n * 10 + digitValue c
    if next ≤ wordMax then gather next r else (n, c :: r)

namespace Numeral

/-- The number is written without point and exponent. -/
def isInteger (n : Numeral) : Bool := n.fraction.isEmpty && n.exponent.isNone

/-- The power of ten that the exponent gives. -/
def power (n : Numeral) : Int :=
  match n.exponent with
  | none => 0
  | some (negative, digits) => if negative then -decimalValue digits else decimalValue digits

/-- The leading digits of the number, and the power of ten that scales them. -/
def scaled (n : Numeral) : Nat × Int :=
  let (whole, left) := gather 0 n.whole
  let (digits, rest) := gather whole n.fraction
  (digits, left.length - (n.fraction.length - rest.length) + n.power)

end Numeral

/-- `digits` scaled by a power of ten is infinite in double precision, whose numbers have 53 binary
digits and stay below 2 to the 1024th. -/
def overflows (digits : Nat) (power : Int) : Bool :=
  let double (n : Nat) : Nat := (significant 53 n).1 * Nat.pow 2 (significant 53 n).2
  if digits = 0 ∨ power < 0 then false
  else if 308 < power then true
  else decide (Nat.pow 2 1024 ≤ double (double digits * double (Nat.pow 10 power.toNat)))

/-- The number can be kept. -/
def Numeral.inRange (n : Numeral) : Bool :=
  (n.isInteger && (gather 0 n.whole).2.isEmpty) || !overflows n.scaled.1 n.scaled.2

end QueryEditor.Json
