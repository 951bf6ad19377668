/-!
# Character classes as ranges

A class of characters is given by a table of code point ranges, both ends included.

* `Ranges`, `Ranges.has`;
* **`Ranges.has_iff`**: a character is in the class when some range holds its code point.
-/

namespace QueryEditor.Unicode

/-- Ranges of code points, both ends included. -/
abbrev Ranges : Type := List (Nat × Nat)

def Ranges.has (table : Ranges) (c : Char) : Bool :=
  table.any fun r => decide (r.1 ≤ c.toNat) && decide (c.toNat ≤ r.2)

theorem Ranges.has_iff (table : Ranges) (c : Char) :
    table.has c = true ↔ ∃ r ∈ table, r.1 ≤ c.toNat ∧ c.toNat ≤ r.2 := by
  simp [Ranges.has]

end QueryEditor.Unicode
