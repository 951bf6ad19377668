import QueryEditor.Proofs.Edit.Positions

/-!
# Changes of separate parts

Two changes were made to one text, each without the other, and one lies behind the other with at
least a character between them. Either may be made first, if the ends of the other are then mapped
as positions are: the text is the same, and so is every position. The change in front stays as it
is, the one behind moves by as much as the text in front of it grows or shrinks.

* `Change.after`: a change with its ends mapped by another one;
* `Change.after_front`, `Change.after_behind`: what becomes of the two changes;
* **`Change.mapPos_after`**: positions mapped in both orders;
* `Document.replace_front`, `Document.replace_behind`: a change of one of two texts put together;
* **`Document.replace_apart`**: both orders, for the text and for all positions.
-/

namespace QueryEditor

namespace Change

/-- The change as it is to be made behind another one: its ends are mapped by it. -/
def after (c earlier : Change) : Change :=
  ⟨earlier.mapPos c.start, earlier.mapPos c.stop, c.new⟩

variable {c₁ c₂ : Change} {p : Nat}

theorem after_front (h₁ : c₁.start ≤ c₁.stop) (h : c₁.stop < c₂.start) : c₁.after c₂ = c₁ := by
  rw [after, mapPos_of_lt h, mapPos_of_lt (Nat.lt_of_le_of_lt h₁ h)]

theorem after_behind (h₁ : c₁.start ≤ c₁.stop) (h : c₁.stop ≤ c₂.start) (h₂ : c₂.start ≤ c₂.stop) :
    c₂.after c₁ = ⟨c₁.start + c₁.newLength + (c₂.start - c₁.stop),
      c₁.start + c₁.newLength + (c₂.stop - c₁.stop), c₂.new⟩ := by
  rw [after, mapPos_of_le h₁ h, mapPos_of_le h₁ (Nat.le_trans h h₂)]

/-- **A position comes to the same place in both orders**, wherever it is. -/
theorem mapPos_after (h₁ : c₁.start ≤ c₁.stop) (h : c₁.stop < c₂.start) (h₂ : c₂.start ≤ c₂.stop)
    (p : Nat) : (c₂.after c₁).mapPos (c₁.mapPos p) = (c₁.after c₂).mapPos (c₂.mapPos p) := by
  have hafter := after_behind h₁ (Nat.le_of_lt h) h₂
  rw [after_front h₁ h]
  rcases Nat.lt_or_ge p c₂.start with hlt | hge
  · -- in front of the second change only the first one moves the position
    have hfirst : c₁.mapPos p < (c₂.after c₁).start := by
      have := mapPos_cases h₁ p
      rw [hafter]
      simp only
      omega
    rw [mapPos_of_lt hlt, mapPos_of_lt hfirst]
  · have hbehind : c₁.stop ≤ p := Nat.le_trans (Nat.le_of_lt h) hge
    have hordered : (c₂.after c₁).start ≤ (c₂.after c₁).stop := by
      rw [hafter]
      simp only
      omega
    have hleft := mapPos_cases hordered (c₁.mapPos p)
    have hmapped := mapPos_cases h₂ p
    have hright := mapPos_of_le h₁ (Nat.le_trans (Nat.le_of_lt h) (start_le_mapPos h₂ hge))
    rw [hright]
    rw [mapPos_of_le h₁ hbehind, hafter] at hleft ⊢
    simp only [newLength] at hleft hmapped ⊢
    omega

end Change

namespace Document

/-! ## A change of one of two texts -/

section Parts

variable (x y : Text) {c : Change}

theorem replace_front (h : c.Inside x.length) :
    replace ⟨x ++ y⟩ c = ⟨x.splice c.start c.stop c.new ++ y⟩ := by
  have hinside : c.Inside (x ++ y).length := ⟨h.1, by rw [List.length_append]; have := h.2; omega⟩
  rw [replace_eq hinside, Text.splice, Text.splice,
    List.take_append_of_le_length (Nat.le_trans h.1 h.2), List.drop_append_of_le_length h.2,
    ← List.append_assoc]

theorem replace_behind (hx : x.length ≤ c.start) (h : c.Inside (x ++ y).length) :
    replace ⟨x ++ y⟩ c = ⟨x ++ y.splice (c.start - x.length) (c.stop - x.length) c.new⟩ := by
  have hstart : (x ++ y).take c.start = x ++ y.take (c.start - x.length) := by
    rw [← List.take_length_add_append, Nat.add_sub_cancel' hx]
  have hstop : (x ++ y).drop c.stop = y.drop (c.stop - x.length) := by
    rw [← List.drop_length_add_append (c.stop - x.length),
      Nat.add_sub_cancel' (Nat.le_trans hx h.1)]
  rw [replace_eq h, Text.splice, hstart, hstop, Text.splice, List.append_assoc, List.append_assoc,
    List.append_assoc]

end Parts

/-! ## Both orders -/

variable {d : Document} {c₁ c₂ : Change}

theorem after_inside (h₁ : c₁.Inside d.length) (h₂ : c₂.Inside d.length) :
    (c₂.after c₁).Inside (d.replace c₁).length := by
  rw [← mapPos_length h₁]
  exact ⟨Change.mapPos_mono h₁.1 h₂.1, Change.mapPos_mono h₁.1 h₂.2⟩

/-- Two changes of a text cut where the first one stops, in both orders: each is made in its own
part. -/
theorem replace_replace_after {x y : Text} (h₁ : c₁.start ≤ c₁.stop) (hx : c₁.stop = x.length)
    (h : c₁.stop ≤ c₂.start) (h₂ : c₂.Inside (x ++ y).length) :
    (replace ⟨x ++ y⟩ c₁).replace (c₂.after c₁) = (replace ⟨x ++ y⟩ c₂).replace c₁ := by
  have hfirst : c₁.Inside x.length := ⟨h₁, Nat.le_of_eq hx⟩
  have hwhole : c₁.Inside (length ⟨x ++ y⟩) := ⟨h₁, Nat.le_trans h (Nat.le_trans h₂.1 h₂.2)⟩
  have hlength : (x.splice c₁.start c₁.stop c₁.new).length = c₁.start + c₁.newLength := by
    rw [Text.length_splice _ _ (hx ▸ h₁), hx, Nat.sub_self]
    rfl
  have hmoved := after_inside hwhole h₂
  have hafter := Change.after_behind h₁ h h₂.1
  rw [replace_front x y hfirst] at hmoved ⊢
  rw [hafter] at hmoved ⊢
  rw [replace_behind _ y (by rw [hlength]; exact Nat.le_add_right _ _) hmoved, hlength,
    Nat.add_sub_cancel_left, Nat.add_sub_cancel_left, replace_behind x y (hx ▸ h) h₂,
    replace_front x _ hfirst, hx]

/-- **Changes of separate parts commute.** The second change lies behind the first one, with at
least a character between them. Made in either order, the later one with its ends mapped by the
earlier one, they leave the same text and send every position to the same place. -/
theorem replace_apart (d : Document) {c₁ c₂ : Change} (h₁ : c₁.start ≤ c₁.stop)
    (h : c₁.stop < c₂.start) (h₂ : c₂.Inside d.length) :
    (d.replace c₁).replace (c₂.after c₁) = (d.replace c₂).replace (c₁.after c₂) ∧
      c₁.after c₂ = c₁ ∧
      ∀ p, (c₂.after c₁).mapPos (c₁.mapPos p) = (c₁.after c₂).mapPos (c₂.mapPos p) := by
  have hkept : c₁.after c₂ = c₁ := Change.after_front h₁ h
  refine ⟨?_, hkept, Change.mapPos_after h₁ h h₂.1⟩
  have hstop : c₁.stop ≤ d.length := Nat.le_trans (Nat.le_of_lt h) (Nat.le_trans h₂.1 h₂.2)
  have hparts : d = ⟨d.text.take c₁.stop ++ d.text.drop c₁.stop⟩ := by rw [List.take_append_drop]
  rw [hkept, hparts]
  refine replace_replace_after h₁ (List.length_take_of_le hstop).symm (Nat.le_of_lt h) ?_
  rw [List.take_append_drop]
  exact h₂

/-- An insertion in front of a replacement. -/
theorem replace_apart_insertion :
    let d : Document := ⟨"R <X> S".toList⟩
    let c₁ : Change := .insertion 1 "2".toList
    let c₂ : Change := ⟨2, 5, "->".toList⟩
    (c₁.start ≤ c₁.stop ∧ c₁.stop < c₂.start ∧ c₂.Inside d.length) ∧
      ((d.replace c₁).replace (c₂.after c₁)).text = "R2 -> S".toList ∧
      (d.replace c₁).replace (c₂.after c₁) = (d.replace c₂).replace (c₁.after c₂) ∧
      c₁.after c₂ = c₁ ∧
      ∀ p, (c₂.after c₁).mapPos (c₁.mapPos p) = (c₁.after c₂).mapPos (c₂.mapPos p) :=
  ⟨⟨by decide, by decide, by decide, by decide⟩, by decide,
    replace_apart _ (by decide) (by decide) ⟨by decide, by decide⟩⟩

end Document

end QueryEditor
