import QueryEditor.Language.Punctuation

/-!
# Texts in plain punctuation

No full-width form and no plain form is white space, and none of them is a dot or a line break. So
normalizing and trimming may be done in either order, and a text has its dots and its line breaks
where it had them.

* `halfWidth_eq_iff`: the characters that only they themselves are turned into;
* **`trim_normalize`**, `isBlank_normalize`: normalizing and trimming.
-/

namespace QueryEditor

open Unicode

theorem halfWidth_cases (c : Char) : halfWidth c = c ∨ (c, halfWidth c) ∈ fullWidthForms := by
  unfold halfWidth
  cases h : fullWidthForms.lookup c with
  | none => exact .inl rfl
  | some b =>
    obtain ⟨_, _, hforms, -⟩ := List.lookup_eq_some_iff.1 h
    exact .inr (by rw [hforms]; simp)

theorem halfWidth_eq_iff {d : Char} (hd : ∀ p ∈ fullWidthForms, p.1 ≠ d ∧ p.2 ≠ d) (c : Char) :
    halfWidth c = d ↔ c = d := by
  rcases halfWidth_cases c with hsame | hform
  · rw [hsame]
  · exact iff_of_false (hd _ hform).2 (hd _ hform).1

theorem mem_normalize_iff {d : Char} (hd : ∀ p ∈ fullWidthForms, p.1 ≠ d ∧ p.2 ≠ d) (t : Text) :
    d ∈ normalize t ↔ d ∈ t := by
  simp only [normalize, List.mem_map, halfWidth_eq_iff hd, exists_eq_right]

theorem head?_normalize_eq_some_iff {d : Char} (hd : ∀ p ∈ fullWidthForms, p.1 ≠ d ∧ p.2 ≠ d)
    (t : Text) : (normalize t).head? = some d ↔ t.head? = some d := by
  cases t with
  | nil => exact Iff.rfl
  | cons c t => simp only [normalize, List.map_cons, List.head?_cons, Option.some.injEq,
      halfWidth_eq_iff hd]

theorem isWhite_halfWidth (c : Char) : isWhite (halfWidth c) = isWhite c := by
  have hforms : ∀ p ∈ fullWidthForms, isWhite p.2 = isWhite p.1 := by decide
  rcases halfWidth_cases c with hsame | hform
  · rw [hsame]
  · exact hforms _ hform

theorem isBlank_normalize (t : Text) : (normalize t).isBlank = t.isBlank := by
  simp only [Text.isBlank, normalize, List.all_map, Function.comp_def, isWhite_halfWidth]

/-- **Trimming first or normalizing first** makes no difference. -/
theorem trim_normalize (t : Text) : (normalize t).trim = normalize t.trim := by
  have hwhite : isWhite ∘ halfWidth = isWhite := funext isWhite_halfWidth
  simp only [Text.trim, Text.trimEnd, Text.trimStart, normalize, List.dropWhile_map,
    ← List.map_reverse, hwhite]

end QueryEditor
