import QueryEditor.Proofs.View.Step

/-!
# What is told of a live document

A live document with a listener tells its whole text once for each change that it applies, and
nothing besides. Each change makes one revision, so the revisions count what was told, and what was
told last is the text. An operation that answers with no change has left everything as it was.

* `Edit.origin`, `Edit.isAnswered`: who makes a change, and whether an operation answers;
* `LiveDocument.apply_applied_eq_none_iff`, `push_of_ne`: when a change is applied;
* `LiveDocument.Accounted`: one operation and what is told of it;
* `LiveDocument.InAccount`: the revision and the text against what was told so far;
* **`LiveDocument.run_accounts`**: every operation of every run.
-/

namespace QueryEditor

namespace Edit

def origin : Edit → Origin
  | .push _ => .external
  | .change _ | .insert _ | .backspace | .select _ => .localEdit

/-- The operation answers with the change that it applied; selecting has no answer. -/
def isAnswered : Edit → Bool
  | .select _ => false
  | .change _ | .push _ | .insert _ | .backspace => true

end Edit

theorem Listener.text_notice (l : Listener) (origin : Origin) (text : Text) :
    (l.notice origin text).text = text := by cases l <;> rfl

namespace LiveDocument

variable {d : LiveDocument} {e : Edit} {l : Listener} {first : Text} {told : List Notice}

/-! ## When a change is applied -/

theorem apply_of_isEmpty {c : Change} (h : (c.clamp d.doc.length).isEmpty = true)
    (origin : Origin) : d.apply origin c = (d, .unchanged) := by
  simp only [apply, h, if_true]

theorem apply_applied_eq_none_iff (d : LiveDocument) (origin : Origin) (c : Change) :
    (d.apply origin c).2.applied = none ↔ (c.clamp d.doc.length).isEmpty = true := by
  by_cases h : (c.clamp d.doc.length).isEmpty = true
  · refine iff_of_true ?_ h
    rw [apply_of_isEmpty h]
    rfl
  · refine iff_of_false ?_ h
    simp [apply, h]

theorem apply_eq_self {origin : Origin} {c : Change} (h : (d.apply origin c).2.applied = none) :
    d.apply origin c = (d, .unchanged) :=
  apply_of_isEmpty ((apply_applied_eq_none_iff d origin c).1 h) origin

theorem origin_apply (d : LiveDocument) (origin : Origin) (c : Change) :
    ∀ a ∈ (d.apply origin c).2.applied, a.origin = origin := by
  intro a ha
  rcases apply_cases d origin c with hkeep | happly
  · rw [hkeep.outcome] at ha
    cases ha
  · rw [happly.applied] at ha
    obtain rfl := Option.some.inj ha
    rfl

theorem insertText_snd (d : LiveDocument) (new : Text) : (d.insertText new).2 =
    (d.dispatch ⟨d.selection.range.1, d.selection.range.2, new⟩).2 := by
  simp only [insertText]
  split <;> rfl

theorem replace_all (d : Document) (new : Text) : d.replace ⟨0, d.length, new⟩ = ⟨new⟩ := by
  simp [Document.replace, Change.clamp, Document.length, Text.splice]

/-- **A push of another text** replaces the whole text. -/
theorem push_of_ne {value : Text} (h : d.text ≠ value) :
    Applies d .external ⟨0, d.doc.length, value⟩ (d.push value) := by
  have hclamp : (Change.mk 0 d.doc.length value).clamp d.doc.length = ⟨0, d.doc.length, value⟩ :=
    Change.clamp_of_inside ⟨Nat.zero_le _, Nat.le_refl _⟩
  have hcases := apply_cases d .external ⟨0, d.doc.length, value⟩
  rw [hclamp] at hcases
  rw [push, if_neg h]
  refine hcases.resolve_left fun hkeep => h ?_
  -- the change could be empty only if both texts were
  have hnone : (d.apply .external ⟨0, d.doc.length, value⟩).2.applied = none := by
    rw [hkeep.outcome]
    rfl
  have hempty := (apply_applied_eq_none_iff d .external _).1 hnone
  rw [hclamp, Change.isEmpty, Bool.and_eq_true, decide_eq_true_eq] at hempty
  have htext : d.text = [] := List.length_eq_zero_iff.1 (Nat.le_zero.1 hempty.1)
  exact htext.trans (List.isEmpty_iff.1 hempty.2).symm

theorem text_push (d : LiveDocument) (value : Text) : (d.push value).1.text = value := by
  by_cases h : d.text = value
  · rw [push, if_pos h, h]
  · rw [text, (push_of_ne h).doc, replace_all]

theorem push_applied_eq_none_iff (d : LiveDocument) (value : Text) :
    (d.push value).2.applied = none ↔ value = d.text := by
  by_cases h : d.text = value
  · subst h
    refine iff_of_true ?_ rfl
    rw [push_self]
    rfl
  · refine iff_of_false ?_ (Ne.symm h)
    rw [(push_of_ne h).applied]
    exact Option.some_ne_none _

/-! ## One operation -/

theorem origin_step (d : LiveDocument) (e : Edit) :
    ∀ a ∈ (d.step e).2.applied, a.origin = e.origin := by
  cases e with
  | change c => exact origin_apply d .localEdit c
  | push value =>
    simp only [step, push]
    split
    · exact fun _ ha => by cases ha
    · exact origin_apply d .external _
  | insert new =>
    simp only [step, insertText_snd]
    exact origin_apply d .localEdit _
  | backspace =>
    simp only [step, deleteBackward]
    split
    · exact origin_apply d .localEdit _
    · split
      · exact fun _ ha => by cases ha
      · exact origin_apply d .localEdit _
  | select s => exact fun _ ha => by cases ha

theorem step_eq_self (he : e.isAnswered = true) (h : (d.step e).2.applied = none) :
    d.step e = (d, .unchanged) := by
  cases e with
  | change c => exact apply_eq_self h
  | push value =>
    obtain rfl := (push_applied_eq_none_iff d value).1 h
    exact push_self d
  | insert new =>
    have hnone := h
    simp only [step, insertText_snd] at hnone
    simp only [step, insertText, hnone]
    exact apply_eq_self hnone
  | backspace =>
    simp only [step, deleteBackward] at h ⊢
    split
    · rename_i hrange
      rw [if_pos hrange] at h
      exact apply_eq_self h
    · rename_i hrange
      rw [if_neg hrange] at h
      split
      · rfl
      · rename_i hstart
        rw [if_neg hstart] at h
        exact apply_eq_self h
  | select s => cases he

/-- What is told of an operation is what it did. It answers with a change exactly when it makes a
revision and tells the text once, and with none exactly when it changes and tells nothing. -/
structure Accounted (l : Listener) (d : LiveDocument) (e : Edit) : Prop where
  applied_iff : (d.step e).2.applied.isSome = true ↔
    (d.step e).1.revision = d.revision + 1 ∧
      (d.step e).2.notices = [l.notice e.origin (d.step e).1.text]
  answer : ∀ a ∈ (d.step e).2.applied,
    a.revision = (d.step e).1.revision ∧ a.origin = e.origin
  none_iff : (d.step e).2.applied = none ↔
    (d.step e).1.text = d.text ∧ (d.step e).1.revision = d.revision ∧
      (d.step e).2.notices = [] ∧
      (e.isAnswered = true → (d.step e).1.selection = d.selection)

theorem accounted (hl : d.listener = some l) (e : Edit) : Accounted l d e := by
  rcases d.step_cases e with hkeep | ⟨origin, c, happly⟩
  · have hnone : (d.step e).2.applied = none := by rw [hkeep.outcome]; rfl
    exact
      { applied_iff := by simp [hnone, hkeep.revision]
        answer := fun a ha => by rw [hnone] at ha; cases ha
        none_iff := by
          refine iff_of_true hnone ⟨by rw [text, text, hkeep.doc], hkeep.revision, ?_, ?_⟩
          · rw [hkeep.outcome]
            rfl
          · intro he
            rw [step_eq_self he hnone] }
  · have horigin : origin = e.origin := origin_step d e _ happly.applied
    have hnotices : (d.step e).2.notices = [l.notice e.origin (d.step e).1.text] := by
      rw [happly.notices, hl, text, happly.doc, horigin]
      rfl
    exact
      { applied_iff := by
          refine iff_of_true ?_ ⟨happly.revision, hnotices⟩
          rw [happly.applied]
          rfl
        answer := by
          intro a ha
          refine ⟨?_, origin_step d e a ha⟩
          rw [happly.applied] at ha
          obtain rfl := Option.some.inj ha
          exact happly.revision.symm
        none_iff := by simp [happly.applied, hnotices] }

/-! ## Runs -/

/-- What happens to a live document that is listened to: an operation, or a listener that takes
over from the one before it. -/
inductive Event where
  | edit (e : Edit)
  | listen (l : Listener)
  deriving DecidableEq, Repr

/-- The live document after an event, and the answer. -/
def occur (d : LiveDocument) : Event → LiveDocument × Outcome
  | .edit e => d.step e
  | .listen l => (d.listen (some l), .unchanged)

/-- The live document after a run of events, and the answers in order. -/
def run (d : LiveDocument) : List Event → LiveDocument × List Outcome
  | [] => (d, [])
  | e :: es =>
    let (d, outcome) := d.occur e
    let (d, outcomes) := run d es
    (d, outcome :: outcomes)

/-- There is a listener, the revision is the number of notices, and the text is the one of the last
notice, or the first text if there was none. -/
structure InAccount (first : Text) (told : List Notice) (d : LiveDocument) : Prop where
  listens : ∃ l, d.listener = some l
  revision : d.revision = told.length
  last : (told.getLast?.map Notice.text).getD first = d.text

theorem inAccount_step (h : InAccount first told d) (e : Edit) :
    InAccount first (told ++ (d.step e).2.notices) (d.step e).1 := by
  obtain ⟨l, hl⟩ := h.listens
  rcases d.step_cases e with hkeep | ⟨origin, c, happly⟩
  · have hnotices : (d.step e).2.notices = [] := by rw [hkeep.outcome]; rfl
    rw [hnotices, List.append_nil]
    exact
      { listens := ⟨l, by rw [hkeep.listener, hl]⟩
        revision := by rw [hkeep.revision, h.revision]
        last := by rw [h.last, text, text, hkeep.doc] }
  · have hnotices : (d.step e).2.notices = [l.notice origin (d.step e).1.text] := by
      rw [happly.notices, hl, text, happly.doc]
      rfl
    rw [hnotices]
    exact
      { listens := ⟨l, by rw [happly.listener, hl]⟩
        revision := by rw [happly.revision, h.revision, List.length_append, List.length_singleton]
        last := by simp [l.text_notice] }

theorem inAccount_occur (h : InAccount first told d) (e : Event) :
    InAccount first (told ++ (d.occur e).2.notices) (d.occur e).1 := by
  cases e with
  | edit e => exact inAccount_step h e
  | listen l =>
    have hnotices : told ++ (d.occur (.listen l)).2.notices = told := List.append_nil told
    rw [hnotices]
    exact ⟨⟨l, rfl⟩, h.revision, h.last⟩

theorem inAccount_run (h : InAccount first told d) (events : List Event) :
    InAccount first (told ++ (d.run events).2.flatMap Outcome.notices) (d.run events).1 := by
  induction events generalizing d told with
  | nil => simpa [run] using h
  | cons e events ih =>
    -- what the first event tells is part of the account of the others
    have hrest := ih (inAccount_occur h e)
    rw [List.append_assoc] at hrest
    exact hrest

/-- **Every change is told once.** After any run of a live document with a listener, the revision is
the number of notices and the text is the one told last. Every further operation is accounted for; a
change made in the editor is applied unless it is empty once its ends are inside the text, and a
pushed text unless it is the present one, which it is afterwards. -/
theorem run_accounts (first : Text) (listener : Listener) (before : List Event) :
    let ran := ((ofText first).listen (some listener)).run before
    let d := ran.1
    let told := ran.2.flatMap Outcome.notices
    (d.revision = told.length ∧ (told.getLast?.map Notice.text).getD first = d.text) ∧
    (∃ l, d.listener = some l ∧ ∀ e, Accounted l d e) ∧
    (∀ c, (d.dispatch c).2.applied = none ↔
      min c.stop d.doc.length ≤ min c.start d.doc.length ∧ c.new = []) ∧
    (∀ value, ((d.push value).2.applied = none ↔ value = d.text) ∧
      (d.push value).1.text = value) := by
  intro ran d told
  have hstart : InAccount first [] ((ofText first).listen (some listener)) :=
    ⟨⟨listener, rfl⟩, rfl, rfl⟩
  have haccount : InAccount first told d := inAccount_run hstart before
  obtain ⟨l, hl⟩ := haccount.listens
  refine ⟨⟨haccount.revision, haccount.last⟩, ⟨l, hl, accounted hl⟩, fun c => ?_, fun value =>
    ⟨push_applied_eq_none_iff d value, text_push d value⟩⟩
  rw [dispatch, apply_applied_eq_none_iff]
  simp only [Change.isEmpty, Change.clamp, Bool.and_eq_true, decide_eq_true_eq, List.isEmpty_iff,
    Nat.max_le, Nat.le_refl, and_true]

end LiveDocument

end QueryEditor
