import QueryEditor.Proofs.View.Step

/-!
# Highlights follow the document

After every action the highlights of a view are those of its present document, as if all lines had
been read anew. A change reads again the lines between the one where it starts and the last one
that it reaches. That is enough, whatever it does to the breaks at its ends: the lines in front
keep their texts, and so do those behind. Where the line in front is joined with the first one
that was touched, the line numbers do not fit and everything is read.

* `View.Coherent`: the highlights are those of the present document;
* **`Highlights.edit_of`**: highlights renewed after a change;
* `View.coherent_ofText`, `View.coherent_act`;
* **`View.highlights_run`**: after every run each line has its entry, and it is the right one.
-/

namespace QueryEditor

theorem Highlights.edit_of_outside (d d' : Document) (first oldLast newLast : Nat)
    (front : d'.lineTexts.take first = d.lineTexts.take first)
    (back : d'.lineTexts.drop (newLast + 1) = d.lineTexts.drop (oldLast + 1)) :
    ((of d).edit d' first oldLast newLast).1 = of d' := by
  unfold edit
  split
  · rfl
  · rename_i fits
    have := misfit_eq_false_iff.1 (Bool.eq_false_iff.2 fits)
    have hmiddle : newLast + 1 = first + (newLast - first + 1) := by omega
    have hparts : d'.lineTexts = d'.lineTexts.take first ++
        ((d'.lineTexts.drop first).take (newLast - first + 1) ++
          d'.lineTexts.drop (newLast + 1)) := by
      rw [hmiddle, ← List.drop_drop, List.take_append_drop, List.take_append_drop]
    calc (of d).take first ++ fresh d' first newLast ++ (of d).drop (oldLast + 1)
      _ = (d.lineTexts.take first ++ ((d'.lineTexts.drop first).take (newLast - first + 1) ++
            d.lineTexts.drop (oldLast + 1))).map highlight := by
        simp only [of, fresh, List.map_append, List.map_take, List.map_drop, List.append_assoc]
      _ = of d' := by rw [← front, ← back, ← hparts, of]

/-- **Reading the touched lines again is enough**, for every change that lies inside the text. -/
theorem Highlights.edit_of (d : Document) {c : Change} (h : c.Inside d.length) :
    ((of d).edit (d.replace c) (d.lineOf c.start) (d.lineOf c.stop)
      ((d.replace c).lineOf (c.start + c.newLength))).1 = of (d.replace c) :=
  edit_of_outside d _ _ _ _ (Document.take_lineTexts_replace h) (Document.drop_lineTexts_replace h)

namespace View

/-- The highlights are those of the present document. -/
def Coherent (v : View) : Prop := v.highlights = .of v.doc

theorem coherent_ofText (settings : Settings) (value : Text) (listener : Option Listener) :
    (ofText settings value listener).Coherent := rfl

theorem coherent_edit {v : View} (h : v.Coherent) (e : Edit) : (v.edit e).1.Coherent := by
  unfold Coherent at h
  rcases v.edit_cases e with ⟨hkeep, hview⟩ | ⟨origin, c, happly, hview⟩
  · rw [hview]
    simp only [Coherent, doc, hkeep.doc]
    exact h
  · rw [hview]
    simp only [Coherent, doc, happly.doc]
    rw [h]
    exact Highlights.edit_of v.doc happly.inside

theorem coherent_act {v : View} (h : v.Coherent) (a : Action) : (v.act a).1.Coherent := by
  cases a with
  | edit e => exact coherent_edit h e
  | toggleFold line => exact h
  | foldAll => exact h
  | toggleNumbers => exact h

theorem coherent_run {v : View} (h : v.Coherent) (actions : List Action) :
    (v.run actions).1.Coherent :=
  run_induction (P := Coherent) (fun _ a h => coherent_act h a) h actions

/-- **Highlights never go stale**: after every run of actions there is one entry for each line of
the document, and it is the entry that reading the line anew gives. -/
theorem highlights_run (settings : Settings) (value : Text) (listener : Option Listener)
    (actions : List Action) :
    let v := ((ofText settings value listener).run actions).1
    v.highlights = .of v.doc ∧ v.highlights.length = v.doc.lineCount ∧
      ∀ line, v.highlights[line]? = (v.doc.line? line).map highlight := by
  intro v
  have h : v.highlights = .of v.doc :=
    coherent_run (coherent_ofText settings value listener) actions
  refine ⟨h, ?_, fun line => ?_⟩
  · rw [h, Highlights.length_of]
  · rw [h, Highlights.of, Document.lineTexts, Document.line?, List.getElem?_map, List.getElem?_map]

end View

end QueryEditor
