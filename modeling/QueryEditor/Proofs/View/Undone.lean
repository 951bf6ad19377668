import Mathlib.Data.List.Induction
import QueryEditor.Proofs.Live.Selected
import QueryEditor.Proofs.View.Highlights

/-!
# Backspaces undo typing

After typing, the cursor stands right behind what was typed. Each backspace takes out the character
in front of the cursor and leaves the cursor in front of it, so as many backspaces as characters
were typed take out just these, from the last one to the first. It makes no difference which
characters they are, or whether they made or joined line breaks on the way. What was selected when
typing started is gone.

* `LiveDocument.backspaces`: a number of backspaces, and the answers to them;
* **`LiveDocument.erases_backspaces`**: backspaces behind a typed text;
* `LiveDocument.Undone`: a live document after typing and as many backspaces;
* **`View.undone_run`**: every live document and every view after a run.
-/

namespace QueryEditor

namespace LiveDocument

variable {d : LiveDocument} {front rest : Text}

/-- A number of backspaces, and the answers to them in order. -/
def backspaces (d : LiveDocument) (count : Nat) : LiveDocument × List Outcome :=
  d.run (List.replicate count (.edit .backspace))

theorem backspaces_succ (d : LiveDocument) (count : Nat) : d.backspaces (count + 1) =
    ((d.deleteBackward.1.backspaces count).1,
      d.deleteBackward.2 :: (d.deleteBackward.1.backspaces count).2) := rfl

/-- The answers `r` to `count` operations on `d`, each of which took a character out, so that a
plain cursor is left between `front` and `rest`. -/
structure Erases (d : LiveDocument) (front rest : Text) (count : Nat)
    (r : LiveDocument × List Outcome) : Prop where
  text : r.1.text = front ++ rest
  selection : r.1.selection = .cursor front.length
  revision : r.1.revision = d.revision + count
  length : r.2.length = count
  applied : ∀ outcome ∈ r.2, outcome.applied.isSome = true

/-- **Backspaces behind a typed text** take it out, from its last character to its first. -/
theorem erases_backspaces (typed : Text) (h : d.Selects (front ++ typed) [] rest) :
    d.Erases front rest typed.length (d.backspaces typed.length) := by
  -- the first backspace takes out the last character that was typed
  induction typed using List.reverseRecOn generalizing d with
  | nil =>
    rw [List.append_nil] at h
    exact
      { text := by rw [← List.append_nil front]; exact h.text
        selection := h.selection_eq
        revision := rfl
        length := rfl
        applied := fun _ ho => absurd ho List.not_mem_nil }
  | append_singleton typed x ih =>
    rw [← List.append_assoc] at h
    have hfirst := deleteBackward_cursor h
    have hselects := hfirst.selects
    rw [List.append_nil] at hselects
    have hothers := ih hselects
    rw [List.length_append, List.length_singleton, backspaces_succ]
    exact
      { text := hothers.text
        selection := hothers.selection
        revision := by
          rw [hothers.revision, hfirst.revision]
          omega
        length := by rw [List.length_cons, hothers.length]
        applied := List.forall_mem_cons.2 ⟨hfirst.applied, hothers.applied⟩ }

/-- What typing on `d` and the answers `r` to as many backspaces come to: what was selected is gone
and so is what was typed. Only the revisions still count the changes. -/
structure Undone (d : LiveDocument) (typed : Text) (r : LiveDocument × List Outcome) : Prop where
  text : r.1.text = d.text.take d.selection.range.1 ++ d.text.drop d.selection.range.2
  plain : d.selection.isEmpty = true → r.1.text = d.text
  selection : r.1.selection = .cursor d.selection.range.1
  length : r.2.length = typed.length
  applied : ∀ outcome ∈ r.2, outcome.applied.isSome = true
  revision : r.1.revision = d.revision + typed.length +
    if typed ≠ [] ∨ d.selection.range.1 < d.selection.range.2 then 1 else 0

theorem cut_of_isEmpty (h : d.selection.isEmpty = true) :
    d.text.take d.selection.range.1 ++ d.text.drop d.selection.range.2 = d.text := by
  have hends : d.selection.anchor = d.selection.head := eq_of_beq h
  have hrange : d.selection.range.2 = d.selection.range.1 := by
    simp only [Selection.range, hends, Nat.max_self, Nat.min_self]
  rw [hrange, List.take_append_drop]

theorem undone_of_selects {out : Text} (h : d.Selects front out rest) (typed : Text) :
    d.Undone typed ((d.insertText typed).1.backspaces typed.length) := by
  have hkept : front ++ rest =
      d.text.take d.selection.range.1 ++ d.text.drop d.selection.range.2 := by
    rw [h.take, h.drop]
  by_cases hne : typed ≠ [] ∨ out ≠ []
  · have hwrites := insertText_writes h hne.symm
    have herases := erases_backspaces typed hwrites.selects
    exact
      { text := herases.text.trans hkept
        plain := fun hempty => (herases.text.trans hkept).trans (cut_of_isEmpty hempty)
        selection := by rw [herases.selection, h.start_eq]
        length := herases.length
        applied := herases.applied
        revision := by
          rw [herases.revision, hwrites.revision, if_pos (hne.imp_right h.lt_iff.2)]
          omega }
  · have hnothing : ¬ (typed ≠ [] ∨ d.selection.range.1 < d.selection.range.2) :=
      fun h' => hne (h'.imp_right h.lt_iff.1)
    simp only [not_or, ne_eq, Decidable.not_not] at hne
    obtain ⟨rfl, rfl⟩ := hne
    have hsame : d.text = front ++ rest := by rw [h.text, List.append_nil]
    -- there was nothing to type and nothing to delete
    rw [insertText_nil h]
    exact
      { text := hsame.trans hkept
        plain := fun _ => rfl
        selection := by rw [h.start_eq]; exact h.selection_eq
        length := rfl
        applied := fun _ ho => absurd ho List.not_mem_nil
        revision := by
          rw [if_neg hnothing]
          rfl }

end LiveDocument

namespace View

theorem live_run (v : View) (edits : List Edit) :
    (v.run (edits.map .edit)).1.live = (v.live.run (edits.map .edit)).1 := by
  induction edits generalizing v with
  | nil => rfl
  | cons e edits ih =>
    change ((v.edit e).1.run (edits.map .edit)).1.live = ((v.live.step e).1.run (edits.map .edit)).1
    rw [ih, live_edit]

theorem inBounds_act {v : View} (h : v.live.InBounds) (a : Action) : (v.act a).1.live.InBounds := by
  cases a with
  | edit e =>
    change (v.edit e).1.live.InBounds
    rw [live_edit]
    exact LiveDocument.inBounds_step h e
  | toggleFold line => exact h
  | foldAll => exact h
  | toggleNumbers => exact h

/-- **Backspaces undo typing.** After any run of a live document or of a view, a text is typed and
then as many backspaces are made as it has characters. Every backspace applies a change, what is
left is the text without what was selected, with a plain cursor where the selection started, and
each change made a revision. With nothing selected it is the text from before; a view then has the
highlights from before. -/
theorem undone_run :
    (∀ (first : Text) (listener : Option Listener) (events : List LiveDocument.Event)
      (typed : Text),
      let d := (((LiveDocument.ofText first).listen listener).run events).1
      d.Undone typed ((d.insertText typed).1.backspaces typed.length)) ∧
    ∀ (settings : Settings) (value : Text) (listener : Option Listener) (actions : List Action)
      (typed : Text),
      let v := ((ofText settings value listener).run actions).1
      let after := ((v.edit (.insert typed)).1.run
        (List.replicate typed.length (.edit .backspace))).1
      let undone := (v.live.insertText typed).1.backspaces typed.length
      v.live.Undone typed undone ∧ after.live = undone.1 ∧ after.highlights = .of after.doc ∧
        (v.live.selection.isEmpty = true → after.highlights = v.highlights) := by
  refine ⟨fun first listener events typed => ?_, fun settings value listener actions typed => ?_⟩
  · have hbounds := LiveDocument.inBounds_run (LiveDocument.inBounds_ofText first listener) events
    exact LiveDocument.undone_of_selects hbounds.selects typed
  · intro v after undone
    have hbounds : v.live.InBounds := run_induction (P := fun v => v.live.InBounds)
      (fun _ a h => inBounds_act h a) (LiveDocument.inBounds_ofText value listener) actions
    have hundone : v.live.Undone typed undone :=
      LiveDocument.undone_of_selects hbounds.selects typed
    have hlive : after.live = undone.1 := by
      have hrun := (v.edit (.insert typed)).1.live_run (List.replicate typed.length .backspace)
      rw [List.map_replicate, List.map_replicate, live_edit] at hrun
      exact hrun
    have hbefore : v.Coherent := coherent_run (coherent_ofText settings value listener) actions
    have hafter : after.Coherent := coherent_run (coherent_edit hbefore _) _
    refine ⟨hundone, hlive, hafter, fun hempty => ?_⟩
    have hdoc : after.doc = v.doc := by
      change Document.mk after.live.text = Document.mk v.live.text
      rw [hlive, hundone.plain hempty]
    rw [hafter, hdoc, hbefore]

/-- A carriage return typed in front of a line feed makes one break of the two; the backspace takes
it apart again. -/
theorem undone_run_joining :
    let v := ((ofText {} "a\nb".toList none).run [.edit (.select (.cursor 1))]).1
    let typed := (v.edit (.insert ['x', '\r'])).1
    let after := (typed.run (List.replicate 2 (.edit .backspace))).1
    v.live.selection.isEmpty = true ∧ typed.text = "ax\r\nb".toList ∧ typed.doc.lineCount = 2 ∧
      after.highlights = v.highlights := by
  have h := (undone_run.2 {} "a\nb".toList none [.edit (.select (.cursor 1))] ['x', '\r']).2.2.2
  exact ⟨by decide, by decide, by decide, h (by decide)⟩

end View

end QueryEditor
