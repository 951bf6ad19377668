import QueryEditor.Text.Basic

/-!
# Punctuation of queries

The query language is written in ASCII. The ten full-width forms that an input method offers in
place of its punctuation are replaced by the plain forms; full-width letters and other symbols stay,
since they may be part of a quoted value.

* `halfWidth`, `normalize`;
* `length_normalize`: the number of characters stays;
* **`normalize_normalize`**: normalizing twice is normalizing once.
-/

namespace QueryEditor

/-- Each full-width form with its plain form. -/
def fullWidthForms : List (Char × Char) :=
  [('＜', '<'), ('＞', '>'), ('＝', '='), ('，', ','), ('（', '('), ('）', ')'), ('［', '['), ('］', ']'),
   ('：', ':'), ('；', ';')]

/-- The plain form of a character; any other character is its own. -/
def halfWidth (c : Char) : Char := (fullWidthForms.lookup c).getD c

/-- The text with plain punctuation. -/
def normalize (t : Text) : Text := t.map halfWidth

theorem halfWidth_halfWidth (c : Char) : halfWidth (halfWidth c) = halfWidth c := by
  have plain : ∀ p ∈ fullWidthForms, halfWidth p.2 = p.2 := by decide
  unfold halfWidth
  cases h : fullWidthForms.lookup c with
  | none => simp [h]
  | some b =>
    obtain ⟨_, _, hp, -⟩ := List.lookup_eq_some_iff.1 h
    exact plain (c, b) (by rw [hp]; simp)

/-- **Normalizing once is enough.** -/
theorem normalize_normalize (t : Text) : normalize (normalize t) = normalize t := by
  simp [normalize, halfWidth_halfWidth]

theorem length_normalize (t : Text) : (normalize t).length = t.length := by simp [normalize]

end QueryEditor
