import QueryEditor.Proofs.Line.Joined

/-!
# Lines of a document after a change

A change that lies inside the text leaves the lines in front of the line where it starts, and the
lines behind the line where it stops, with the texts that they had. Nothing else is said of the
line breaks at the ends of the change, which may be made, lost, cut in two or joined by it.

* `Change.Inside`: the change lies inside a text, its ends in order;
* `Document.exists_parts`: the three parts of a text at such a change;
* **`Document.take_lineTexts_replace`**: the lines in front of the change;
* **`Document.drop_lineTexts_replace`**: the lines behind the change.
-/

namespace QueryEditor

/-- The ends of the change are in order and inside a text of the given length. -/
def Change.Inside (c : Change) (length : Nat) : Prop := c.start ≤ c.stop ∧ c.stop ≤ length

theorem Change.clamp_inside (c : Change) (length : Nat) : (c.clamp length).Inside length := by
  simp only [Inside, clamp]
  omega

theorem Change.clamp_of_inside {c : Change} {length : Nat} (h : c.Inside length) :
    c.clamp length = c := by
  obtain ⟨start, stop, new⟩ := c
  simp only [Inside] at h
  simp only [clamp, mk.injEq, and_true]
  omega

namespace Document

theorem replace_eq {d : Document} {c : Change} (h : c.Inside d.length) :
    d.replace c = ⟨d.text.splice c.start c.stop c.new⟩ := by rw [replace, Change.clamp_of_inside h]

theorem exists_parts {d : Document} {c : Change} (h : c.Inside d.length) : ∃ front out rest : Text,
    d = ⟨front ++ out ++ rest⟩ ∧ d.replace c = ⟨front ++ c.new ++ rest⟩ ∧
      c.start = front.length ∧ c.stop = (front ++ out).length := by
  have hfront : d.text.take c.start = (d.text.take c.stop).take c.start := by
    rw [List.take_take, Nat.min_eq_left h.1]
  have hparts : d.text.take c.start ++ d.text.cut c.start c.stop = d.text.take c.stop := by
    rw [hfront, Text.cut, List.take_append_drop]
  refine ⟨d.text.take c.start, d.text.cut c.start c.stop, d.text.drop c.stop, ?_, ?_, ?_, ?_⟩
  · rw [hparts, List.take_append_drop]
  · rw [replace_eq h, Text.splice]
  · exact (List.length_take_of_le (Nat.le_trans h.1 h.2)).symm
  · rw [hparts]
    exact (List.length_take_of_le h.2).symm

theorem lineOf_append (x s : Text) :
    lineOf ⟨x ++ s⟩ x.length = lineAt (linesOf (x ++ s)) x.length := by
  have hle : x.length ≤ (x ++ s).length := by simp
  rw [lineOf, length, Nat.min_eq_left hle, lines]

theorem take_lineTexts_append (x s s' : Text) {n : Nat} (h : n ≤ (closedLines x).length) :
    (lineTexts ⟨x ++ s⟩).take n = (lineTexts ⟨x ++ s'⟩).take n := by
  have hn : ∀ u : Text, (lineTexts ⟨x ++ u⟩).take n = ((closedLines x).map Line.text).take n := by
    intro u
    rw [← take_texts_append x u, List.take_take, Nat.min_eq_left h]
    rfl
  rw [hn s, hn s']

theorem drop_lineTexts_append (x s : Text) :
    (lineTexts ⟨x ++ s⟩).drop (lineOf ⟨x ++ s⟩ x.length + 1) =
      ((linesOf s).drop 1).map Line.text := by
  rw [lineOf_append, lineTexts, lines, ← List.map_drop, drop_lineAt_append]

variable {d : Document} {c : Change}

/-- **The lines in front of a change keep their texts.** -/
theorem take_lineTexts_replace (h : c.Inside d.length) :
    (d.replace c).lineTexts.take (d.lineOf c.start) = d.lineTexts.take (d.lineOf c.start) := by
  obtain ⟨front, out, rest, hd, hd', hstart, -⟩ := exists_parts h
  have hline : d.lineOf c.start ≤ (closedLines front).length := by
    rw [hd, hstart, List.append_assoc, lineOf_append]
    exact lineAt_length_le front (out ++ rest)
  rw [hd', hd, List.append_assoc, List.append_assoc]
  rw [hd, List.append_assoc] at hline
  exact take_lineTexts_append front _ _ hline

/-- **The lines behind a change keep their texts.** -/
theorem drop_lineTexts_replace (h : c.Inside d.length) :
    (d.replace c).lineTexts.drop ((d.replace c).lineOf (c.start + c.newLength) + 1) =
      d.lineTexts.drop (d.lineOf c.stop + 1) := by
  obtain ⟨front, out, rest, hd, hd', hstart, hstop⟩ := exists_parts h
  have hnew : c.start + c.newLength = (front ++ c.new).length := by
    rw [hstart, List.length_append]
    rfl
  rw [hd', hd, hnew, hstop, drop_lineTexts_append, drop_lineTexts_append]

end Document

end QueryEditor
