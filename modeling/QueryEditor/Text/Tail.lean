import QueryEditor.Text.Basic

/-!
# Reading from the front of a text

A reader takes something from the front of a text and gives back what is left, which is shorter.
Readers therefore end, however they call each other.

* `Tail`: a shorter rest, `Tail.within`: a rest of a rest;
* `skipWhile?`: the next character outside a class, with what follows it;
* `takeRun`: the characters of a class at the front, with what follows them.
-/

namespace QueryEditor

/-- What is left of a text once something has been read. -/
abbrev Tail (s : Text) : Type := { t : Text // t.length < s.length }

/-- A rest of a rest is a rest. -/
def Tail.within {s : Text} (t : Tail s) (u : Tail t.1) : Tail s := ⟨u.1, Nat.lt_trans u.2 t.2⟩

theorem length_dropWhile_le (p : Char → Bool) (s : Text) : (s.dropWhile p).length ≤ s.length :=
  (List.dropWhile_sublist p).length_le

/-- The first character that is not in a class, and what follows it. -/
def skipWhile? (p : Char → Bool) (s : Text) : Option (Char × Tail s) :=
  match h : s.dropWhile p with
  | [] => none
  | c :: r => some (c, ⟨r, by
      have := length_dropWhile_le p s
      rw [h, List.length_cons] at this
      omega⟩)

/-- The characters of a class at the front, and what follows them. -/
def takeRun (p : Char → Bool) (s : Text) : Text × { t : Text // t.length ≤ s.length } :=
  (s.takeWhile p, ⟨s.dropWhile p, length_dropWhile_le p s⟩)

end QueryEditor
