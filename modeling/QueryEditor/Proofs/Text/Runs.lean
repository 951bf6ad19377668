import QueryEditor.Text.Basic

/-!
# Runs of characters

A run is what stands at the front of a text as far as a class of characters goes. Put in front of a
text that does not go on with the class, it is cut off again as it was.

* **`takeWhile_append`**, **`dropWhile_append`**: a run in front of a text;
* `take_length_takeWhile`, `drop_length_takeWhile`: a text cut by the length of its run;
* `toNat_of_isDigit`, `toNat_of_isAlpha`: the ranges of digits and letters.
-/

namespace QueryEditor

section Run

variable {p : Char → Bool} {g s : Text}

theorem dropWhile_append (hg : g.all p = true) (hs : ∀ c ∈ s.head?, p c = false) :
    (g ++ s).dropWhile p = s := by
  rw [List.dropWhile_append_of_pos (List.all_eq_true.1 hg)]
  cases s with
  | nil => rfl
  | cons c s => rw [List.dropWhile_cons_of_neg (by simp [hs c rfl])]

theorem takeWhile_append (hg : g.all p = true) (hs : ∀ c ∈ s.head?, p c = false) :
    (g ++ s).takeWhile p = g := by
  rw [List.takeWhile_append_of_pos (List.all_eq_true.1 hg)]
  cases s with
  | nil => simp
  | cons c s => rw [List.takeWhile_cons_of_neg (by simp [hs c rfl]), List.append_nil]

theorem take_length_takeWhile (p : Char → Bool) (t : Text) :
    t.take (t.takeWhile p).length = t.takeWhile p :=
  (List.prefix_iff_eq_take.1 (List.takeWhile_prefix p)).symm

theorem drop_length_takeWhile (p : Char → Bool) (t : Text) :
    t.drop (t.takeWhile p).length = t.dropWhile p := by
  have hcut := List.prefix_iff_eq_append.1 (List.takeWhile_prefix p (l := t))
  exact List.append_cancel_left (hcut.trans List.takeWhile_append_dropWhile.symm)

theorem not_of_head?_dropWhile {t : Text} {c : Char} (h : (t.dropWhile p).head? = some c) :
    p c = false := by
  have hnot := List.head?_dropWhile_not p t
  rwa [h] at hnot

end Run

section Character

variable {c : Char}

theorem toNat_of_isDigit (h : c.isDigit = true) : 48 ≤ c.toNat ∧ c.toNat ≤ 57 := by
  simpa [Char.isDigit, UInt32.le_iff_toNat_le] using h

theorem toNat_of_isAlpha (h : c.isAlpha = true) :
    65 ≤ c.toNat ∧ c.toNat ≤ 90 ∨ 97 ≤ c.toNat ∧ c.toNat ≤ 122 := by
  rcases Bool.or_eq_true_iff.1 h with hupper | hlower
  · have hrange : 'A'.val ≤ c.val ∧ c.val ≤ 'Z'.val := of_decide_eq_true hupper
    exact .inl ⟨UInt32.le_iff_toNat_le.1 hrange.1, UInt32.le_iff_toNat_le.1 hrange.2⟩
  · obtain ⟨hlow, hhigh⟩ := Bool.and_eq_true_iff.1 hlower
    exact .inr ⟨UInt32.le_iff_toNat_le.1 (of_decide_eq_true hlow),
      UInt32.le_iff_toNat_le.1 (of_decide_eq_true hhigh)⟩

end Character

end QueryEditor
