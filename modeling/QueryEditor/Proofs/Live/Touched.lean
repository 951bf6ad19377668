import QueryEditor.Proofs.Line.Places
import QueryEditor.Proofs.View.Step

/-!
# The lines that an answer names

The answer to an operation that applied a change names the lines from the first one touched to the
last one, before and after. All of them exist, the lines in front and behind keep their texts, and
the counts of lines differ by as much as the last lines do. The first line can lie behind the last
one in one case alone: the change takes out what stood between a carriage return and a line feed,
so that the two become one break and the touched line disappears in the line in front of it.

* `length_closedLines_le_append`, `lineAt_length_of_splits`: how many lines a text closes;
* `Document.lineOf_start_le`, `Document.lt_lineOf_start_iff`: the first line against the last one;
* `Applied.Describes`: an answer against the lines before and after;
* **`LiveDocument.describes_step`**: the answer to every operation.
-/

namespace QueryEditor

/-! ## Closed lines -/

theorem length_linesOf (t : Text) : (linesOf t).length = (closedLines t).length + 1 := by
  rw [linesOf_eq_append, List.length_append, List.length_singleton]

theorem length_closedLines_concat (x : Text) :
    (closedLines (x ++ ['\r'])).length = (closedLines x).length + 1 := by
  rw [closedLines_carriageReturn]
  simp

theorem length_closedLines_le_append (x s : Text) :
    (closedLines x).length ≤ (closedLines (x ++ s)).length := by
  have hlines := length_linesOf (x ++ s)
  by_cases h : Splits x s
  · obtain ⟨y, r, rfl, rfl⟩ := splits_iff.1 h
    have hr := length_linesOf r
    rw [List.append_assoc, List.singleton_append, linesOf_append_splits, List.length_append,
      List.length_cons] at hlines
    rw [length_closedLines_concat, List.append_assoc, List.singleton_append]
    omega
  · have hs := length_linesOf s
    obtain ⟨l, ls, hcons⟩ := List.exists_cons_of_ne_nil (linesOf_ne_nil s)
    rw [linesOf_append h, hcons, pushAll_cons, List.length_append, List.length_cons] at hlines
    omega

theorem lineAt_length_of_splits {x s : Text} (h : Splits x s) :
    Document.lineAt (linesOf (x ++ s)) x.length + 1 = (closedLines x).length := by
  obtain ⟨y, r, rfl, rfl⟩ := splits_iff.1 h
  rw [List.append_assoc, List.singleton_append, List.length_append, List.length_singleton,
    lineAt_length_splits, length_closedLines_concat]

/-! ## The first and the last line of a change -/

/-- The change puts nothing in and takes out what stood between a carriage return and a line feed,
which were no break before. -/
def Change.Joins (c : Change) (t : Text) : Prop :=
  c.new = [] ∧ Splits (t.take c.start) (t.drop c.stop) ∧
    ¬ Splits (t.take c.start) (t.drop c.start)

namespace Document

section Parts

variable (front out new rest : Text)

theorem lineOf_front_le : lineOf ⟨front ++ out ++ rest⟩ front.length ≤
    lineOf ⟨front ++ new ++ rest⟩ (front ++ new).length + 1 := by
  rw [List.append_assoc front out, lineOf_append, lineOf_append]
  have hfront := lineAt_length_le front (out ++ rest)
  have hmono := length_closedLines_le_append front new
  by_cases h : Splits (front ++ new) rest
  · have := lineAt_length_of_splits h
    omega
  · have := lineAt_length h
    omega

/-- The first line lies behind the last one just when nothing is put in and the two sides make one
break. -/
theorem lt_lineOf_front_iff : lineOf ⟨front ++ new ++ rest⟩ (front ++ new).length <
      lineOf ⟨front ++ out ++ rest⟩ front.length ↔
    new = [] ∧ Splits front rest ∧ ¬ Splits front (out ++ rest) := by
  rw [List.append_assoc front out, lineOf_append, lineOf_append]
  have hfront := lineAt_length_le front (out ++ rest)
  have hmono := length_closedLines_le_append front new
  constructor
  · intro hlt
    by_cases h : Splits (front ++ new) rest
    · have hlast := lineAt_length_of_splits h
      rcases List.eq_nil_or_concat new with rfl | ⟨w, c, rfl⟩
      · rw [List.append_nil] at h hlast hlt
        refine ⟨rfl, h, fun hsplits => ?_⟩
        have := lineAt_length_of_splits hsplits
        omega
      · -- a carriage return that is put in closes the line that the change starts in
        rw [List.concat_eq_append, ← List.append_assoc] at h hlast
        have hend : c = '\r' := by
          rw [← Option.some.injEq, ← h.1, List.getLast?_concat]
        subst hend
        rw [length_closedLines_concat] at hlast
        have := length_closedLines_le_append front w
        rw [List.concat_eq_append, ← List.append_assoc] at hlt
        omega
    · have := lineAt_length h
      omega
  · rintro ⟨rfl, hjoined, happart⟩
    have hfirst := lineAt_length happart
    have hlast := lineAt_length_of_splits hjoined
    rw [List.append_nil]
    omega

end Parts

variable {d : Document} {c : Change}

theorem lineOf_start_le (h : c.Inside d.length) :
    d.lineOf c.start ≤ (d.replace c).lineOf (c.start + c.newLength) + 1 := by
  obtain ⟨front, out, rest, hd, hd', hstart, -⟩ := exists_parts h
  have hnew : c.start + c.newLength = (front ++ c.new).length := by
    rw [hstart, List.length_append]
    rfl
  rw [hd', hnew, hd, hstart]
  exact lineOf_front_le front out c.new rest

/-- **The first line lies behind the last one** just when the change joins a carriage return and a
line feed. -/
theorem lt_lineOf_start_iff (h : c.Inside d.length) :
    (d.replace c).lineOf (c.start + c.newLength) < d.lineOf c.start ↔ c.Joins d.text := by
  obtain ⟨front, out, rest, hd, hd', hstart, hstop⟩ := exists_parts h
  have hnew : c.start + c.newLength = (front ++ c.new).length := by
    rw [hstart, List.length_append]
    rfl
  have htake : (front ++ out ++ rest).take c.start = front := by
    rw [hstart, List.append_assoc, List.take_left]
  have hdrop : (front ++ out ++ rest).drop c.start = out ++ rest := by
    rw [hstart, List.append_assoc, List.drop_left]
  have hrest : (front ++ out ++ rest).drop c.stop = rest := by rw [hstop, List.drop_left]
  rw [hd', hnew, hd, Change.Joins, htake, hdrop, hrest, hstart]
  exact lt_lineOf_front_iff front out c.new rest

end Document

/-! ## What an answer says -/

/-- The answer tells the truth about the lines before and after: the lines that it names exist, and
those in front of the first and behind the last one are the same. -/
structure Applied.Describes (a : Applied) (before after : List Text) : Prop where
  first_le_old : a.firstLine ≤ a.oldLastLine
  old_lt : a.oldLastLine < before.length
  new_lt : a.newLastLine < after.length
  first_le_new : a.firstLine ≤ a.newLastLine + 1
  length : after.length + a.oldLastLine = before.length + a.newLastLine
  front : after.take a.firstLine = before.take a.firstLine
  behind : after.drop (a.newLastLine + 1) = before.drop (a.oldLastLine + 1)

theorem Document.length_lineTexts (d : Document) : d.lineTexts.length = d.lineCount := by
  rw [lineTexts, List.length_map, lineCount]

namespace LiveDocument

variable {d : LiveDocument} {origin : Origin} {c : Change} {r : LiveDocument × Outcome}

theorem Applies.describes (h : d.Applies origin c r) {a : Applied} (ha : r.2.applied = some a) :
    a.Describes d.doc.lineTexts r.1.doc.lineTexts := by
  have hnamed := h.applied
  rw [ha, Option.some.injEq] at hnamed
  have hfront := Document.take_lineTexts_replace h.inside
  have hbehind := Document.drop_lineTexts_replace h.inside
  have hold := d.doc.lineOf_lt c.stop
  have hnew := (d.doc.replace c).lineOf_lt (c.start + c.newLength)
  -- the counts differ as they do behind the change, where the lines are the same
  have hcounts := congrArg List.length hbehind
  rw [List.length_drop, List.length_drop, Document.length_lineTexts, Document.length_lineTexts]
    at hcounts
  rw [hnamed, h.doc]
  exact
    { first_le_old := d.doc.lineOf_mono h.inside.1
      old_lt := by rw [Document.length_lineTexts]; exact hold
      new_lt := by rw [Document.length_lineTexts]; exact hnew
      first_le_new := Document.lineOf_start_le h.inside
      length := by
        rw [Document.length_lineTexts, Document.length_lineTexts]
        simp only
        omega
      front := hfront
      behind := hbehind }

/-- **Answers tell the truth.** Whatever state a live document is in, an operation that answers with
a change has applied one, the lines that the answer names are the ones that it touched, and the
first of them lies behind the last one just when the change joined a carriage return and a line feed
from its two sides. -/
theorem describes_step (d : LiveDocument) (e : Edit) {a : Applied}
    (h : (d.step e).2.applied = some a) :
    a.Describes d.doc.lineTexts (d.step e).1.doc.lineTexts ∧
      ∃ c, d.Applies a.origin c (d.step e) ∧
        (a.newLastLine < a.firstLine ↔ c.Joins d.text) := by
  rcases d.step_cases e with hkeep | ⟨origin, c, happly⟩
  · rw [hkeep.outcome] at h
    cases h
  · have hnamed := happly.applied
    rw [h, Option.some.injEq] at hnamed
    refine ⟨happly.describes h, c, ?_, ?_⟩
    · rw [hnamed]
      exact happly
    · rw [hnamed]
      exact Document.lt_lineOf_start_iff happly.inside

/-- Deleting the letter between a carriage return and a line feed leaves one line in place of two,
and the first line named is behind the last one. -/
theorem describes_step_joining :
    let d := ofText ['a', '\r', 'x', '\n', 'b']
    let e := Edit.change (.deletion 2 3)
    let a : Applied := ⟨.localEdit, 1, 1, 0, 1⟩
    (d.step e).2.applied = some a ∧
      a.Describes d.doc.lineTexts (d.step e).1.doc.lineTexts ∧
      ∃ c, d.Applies a.origin c (d.step e) ∧
        (a.newLastLine < a.firstLine ↔ c.Joins d.text) :=
  ⟨by decide, describes_step _ _ (by decide)⟩

end LiveDocument

end QueryEditor
