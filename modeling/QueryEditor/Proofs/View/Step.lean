import QueryEditor.Display.View
import QueryEditor.Proofs.Line.Replaced

/-!
# What an operation on a live document does

An operation either applies one change that lies inside the text, or it leaves the text, the
revision and the listener as they are and reports nothing.

* `LiveDocument.Applies`: an operation applied a change, `LiveDocument.Keeps`: it applied none;
* **`LiveDocument.step_cases`**: every operation does one of the two;
* `View.edit_cases`: what it does to a view;
* **`View.run_induction`**: what every action keeps, a run of actions keeps.
-/

namespace QueryEditor

namespace LiveDocument

/-- The answer `r` to an operation on `d` that applied the change `c`. -/
structure Applies (d : LiveDocument) (origin : Origin) (c : Change)
    (r : LiveDocument × Outcome) : Prop where
  inside : c.Inside d.doc.length
  not_empty : c.isEmpty = false
  doc : r.1.doc = d.doc.replace c
  revision : r.1.revision = d.revision + 1
  listener : r.1.listener = d.listener
  applied : r.2.applied = some
    { origin
      firstLine := d.doc.lineOf c.start
      oldLastLine := d.doc.lineOf c.stop
      newLastLine := (d.doc.replace c).lineOf (c.start + c.newLength)
      revision := d.revision + 1 }
  notices : r.2.notices = (d.listener.map (·.notice origin (d.doc.replace c).text)).toList

/-- The answer `r` to an operation on `d` that applied no change. -/
structure Keeps (d : LiveDocument) (r : LiveDocument × Outcome) : Prop where
  doc : r.1.doc = d.doc
  revision : r.1.revision = d.revision
  listener : r.1.listener = d.listener
  outcome : r.2 = .unchanged

theorem keeps_self (d : LiveDocument) : Keeps d (d, .unchanged) := ⟨rfl, rfl, rfl, rfl⟩

theorem apply_cases (d : LiveDocument) (origin : Origin) (c : Change) :
    Keeps d (d.apply origin c) ∨
      Applies d origin (c.clamp d.doc.length) (d.apply origin c) := by
  unfold apply
  by_cases h : (c.clamp d.doc.length).isEmpty = true
  · left
    simp only [h, if_true]
    exact keeps_self d
  · right
    simp only [h]
    exact
      { inside := c.clamp_inside d.doc.length
        not_empty := by simpa using h
        doc := rfl
        revision := rfl
        listener := rfl
        applied := rfl
        notices := rfl }

/-- **Every operation applies one change or none.** -/
theorem step_cases (d : LiveDocument) (e : Edit) :
    Keeps d (d.step e) ∨ ∃ origin c, Applies d origin c (d.step e) := by
  have dispatch : ∀ c, Keeps d (d.dispatch c) ∨ ∃ origin c', Applies d origin c' (d.dispatch c) :=
    fun c => (apply_cases d .localEdit c).imp_right fun h => ⟨_, _, h⟩
  cases e with
  | change c => exact dispatch c
  | push value =>
    simp only [step, push]
    split
    · exact .inl (keeps_self d)
    · exact (apply_cases d .external _).imp_right fun h => ⟨_, _, h⟩
  | insert new =>
    -- the cursor is put behind what was typed, which is no part of what is kept
    have moved : ∀ r : LiveDocument × Outcome, ∀ pos,
        (Keeps d r → Keeps d (r.1.moveTo pos, r.2)) ∧
        (∀ origin c, Applies d origin c r → Applies d origin c (r.1.moveTo pos, r.2)) :=
      fun r pos => ⟨fun h => ⟨h.doc, h.revision, h.listener, h.outcome⟩,
        fun origin c h => ⟨h.inside, h.not_empty, h.doc, h.revision, h.listener,
          h.applied, h.notices⟩⟩
    simp only [step, insertText]
    split
    · rcases dispatch ⟨d.selection.range.1, d.selection.range.2, new⟩ with h | ⟨origin, c, h⟩
      · exact .inl ((moved _ _).1 h)
      · exact .inr ⟨origin, c, (moved _ _).2 origin c h⟩
    · exact dispatch _
  | backspace =>
    simp only [step, deleteBackward]
    split
    · exact dispatch _
    · split
      · exact .inl (keeps_self d)
      · exact dispatch _
  | select s => exact .inl ⟨rfl, rfl, rfl, rfl⟩

end LiveDocument

namespace View

theorem live_edit (v : View) (e : Edit) : (v.edit e).1.live = (v.live.step e).1 := by
  simp only [edit]
  split <;> rfl

theorem outcome_edit (v : View) (e : Edit) : (v.edit e).2 = (v.live.step e).2 := by
  simp only [edit]
  split <;> rfl

/-- What an operation does to a view: when it applies no change only the selection may be another;
when it applies one, the lines touched are read again and all folds are forgotten. -/
theorem edit_cases (v : View) (e : Edit) :
    (v.live.Keeps (v.live.step e) ∧ (v.edit e).1 = { v with live := (v.live.step e).1 }) ∨
    ∃ origin c, v.live.Applies origin c (v.live.step e) ∧
      (v.edit e).1 =
        { v with
          live := (v.live.step e).1
          highlights := (v.highlights.edit (v.doc.replace c) (v.doc.lineOf c.start)
            (v.doc.lineOf c.stop) ((v.doc.replace c).lineOf (c.start + c.newLength))).1
          folds := [] } := by
  rcases v.live.step_cases e with hkeep | ⟨origin, c, happly⟩
  · have hnone : (v.live.step e).2.applied = none := by rw [hkeep.outcome]; rfl
    exact .inl ⟨hkeep, by simp only [edit, hnone]⟩
  · refine .inr ⟨origin, c, happly, ?_⟩
    simp only [edit, happly.applied, happly.doc, doc]

theorem run_induction {P : View → Prop} (step : ∀ v a, P v → P (v.act a).1) {v : View}
    (h : P v) (actions : List Action) : P (v.run actions).1 := by
  induction actions generalizing v with
  | nil => exact h
  | cons a actions ih => exact ih (step v a h)

end View

end QueryEditor
