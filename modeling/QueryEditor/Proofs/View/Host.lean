import QueryEditor.Proofs.View.Step

/-!
# A host that hands back what it was told

A host knows the text that its listener was told last, or the text that it opened the view on. As
every change of the document is told, what the host knows is the text shown, so it may hand it back
at any time: nothing happens and nothing is told. Left out of a run, such pushes are not missed.

* `Hosted`: a view with what its host knows, `Hosted.Event`: an action or an echo;
* `Hosted.InStep`: the host knows the text shown;
* `Hosted.step_echo`, `Hosted.inStep_act`: what an echo and an action do;
* **`Hosted.run_echoes`**: a run with echoes and the run without them.
-/

namespace QueryEditor

/-- A view with a host that knows a text. -/
structure Hosted where
  view : View
  known : Text

namespace Hosted

/-- What happens to a view: an action, or a push of the text that its host knows. -/
inductive Event where
  | action (a : View.Action)
  | echo
  deriving DecidableEq, Repr

def Event.action? : Event → Option View.Action
  | .action a => some a
  | .echo => none

def start (settings : Settings) (value : Text) (listener : Listener) : Hosted :=
  ⟨.ofText settings value (some listener), value⟩

/-- An action, after which the host knows the text of the last notice, if there was one. -/
def act (h : Hosted) (a : View.Action) : Hosted × View.Answer :=
  let (view, answer) := h.view.act a
  (⟨view, (answer.notices.getLast?.map Notice.text).getD h.known⟩, answer)

def step (h : Hosted) : Event → Hosted × View.Answer
  | .action a => h.act a
  | .echo => h.act (.edit (.push h.known))

/-- The view and its host after a run of events, and each event with its answer. -/
def run (h : Hosted) : List Event → Hosted × List (Event × View.Answer)
  | [] => (h, [])
  | e :: es =>
    let (h, answer) := h.step e
    let (h, record) := run h es
    (h, (e, answer) :: record)

/-- The answers to the events that are no echoes. -/
def ownAnswers (record : List (Event × View.Answer)) : List View.Answer :=
  record.filterMap fun p => if p.1 = .echo then none else some p.2

/-- There is a listener, and the host knows the text shown. -/
structure InStep (h : Hosted) : Prop where
  listens : ∃ listener, h.view.live.listener = some listener
  known : h.known = h.view.text

variable {h : Hosted}

theorem inStep_start (settings : Settings) (value : Text) (listener : Listener) :
    (start settings value listener).InStep := ⟨⟨listener, rfl⟩, rfl⟩

/-! ## Steps -/

theorem step_echo (hs : h.InStep) : h.step .echo = (h, .outcome .unchanged) := by
  have hpush := View.edit_push_self h.view
  rw [← hs.known] at hpush
  simp only [step, act, View.act, hpush]
  rfl

theorem inStep_edit (hs : h.InStep) (e : Edit) : (h.act (.edit e)).1.InStep := by
  obtain ⟨⟨listener, hlistener⟩, hknown⟩ := hs
  have hlive : (h.act (.edit e)).1.view.live = (h.view.live.step e).1 := View.live_edit h.view e
  have htold : (h.act (.edit e)).1.known =
      ((h.view.live.step e).2.notices.getLast?.map Notice.text).getD h.known := by
    rw [← View.outcome_edit]
    rfl
  rcases h.view.live.step_cases e with hkeep | ⟨origin, c, happly⟩
  · constructor
    · exact ⟨listener, by rw [hlive, hkeep.listener, hlistener]⟩
    · rw [htold, hkeep.outcome, hknown, View.text, View.text, LiveDocument.text,
        LiveDocument.text, hlive, hkeep.doc]
      rfl
  · have hnotice : ∀ text, (listener.notice origin text).text = text := by
      intro text
      cases listener <;> rfl
    constructor
    · exact ⟨listener, by rw [hlive, happly.listener, hlistener]⟩
    · rw [htold, happly.notices, hlistener, View.text, LiveDocument.text, hlive, happly.doc]
      exact hnotice _

/-- **The host stays in step**, whatever the action. -/
theorem inStep_act (hs : h.InStep) (a : View.Action) : (h.act a).1.InStep := by
  cases a with
  | edit e => exact inStep_edit hs e
  | toggleFold line => exact ⟨hs.listens, hs.known⟩
  | foldAll => exact ⟨hs.listens, hs.known⟩
  | toggleNumbers => exact ⟨hs.listens, hs.known⟩

/-! ## Runs -/

/-- What a run of events comes to, for a host in step: the echoes are answered by nothing, and
without them the run is the one of the view. -/
theorem run_of_inStep (hs : h.InStep) (events : List Event) :
    (h.run events).1.view = (h.view.run (events.filterMap Event.action?)).1 ∧
      ownAnswers (h.run events).2 = (h.view.run (events.filterMap Event.action?)).2 ∧
      (h.run events).2.map Prod.fst = events ∧
      ∀ answer, (.echo, answer) ∈ (h.run events).2 → answer = .outcome .unchanged := by
  induction events generalizing h with
  | nil => exact ⟨rfl, rfl, rfl, fun _ hmem => absurd hmem List.not_mem_nil⟩
  | cons e events ih =>
    cases e with
    | echo =>
      obtain ⟨hview, hanswers, hevents, hechoes⟩ := ih hs
      have hrun : h.run (.echo :: events) =
          ((h.run events).1, (.echo, .outcome .unchanged) :: (h.run events).2) := by
        rw [run, step_echo hs]
      rw [hrun]
      refine ⟨hview, hanswers, congrArg (_ :: ·) hevents, fun answer hmem => ?_⟩
      rcases List.mem_cons.1 hmem with heq | hmem
      · exact (Prod.mk.inj heq).2
      · exact hechoes answer hmem
    | action a =>
      obtain ⟨hview, hanswers, hevents, hechoes⟩ := ih (inStep_act hs a)
      have hrun : h.run (.action a :: events) =
          (((h.act a).1.run events).1,
            (.action a, (h.act a).2) :: ((h.act a).1.run events).2) := rfl
      rw [hrun]
      refine ⟨hview, congrArg (_ :: ·) hanswers, congrArg (_ :: ·) hevents, fun answer hmem => ?_⟩
      rcases List.mem_cons.1 hmem with heq | hmem
      · exact absurd (Prod.mk.inj heq).1 (by simp)
      · exact hechoes answer hmem

theorem notices_ownAnswers {record : List (Event × View.Answer)}
    (h : ∀ answer, (.echo, answer) ∈ record → answer = .outcome .unchanged) :
    (ownAnswers record).flatMap View.Answer.notices = record.flatMap fun p => p.2.notices := by
  induction record with
  | nil => rfl
  | cons p record ih =>
    obtain ⟨e, answer⟩ := p
    have hrest := ih fun a hmem => h a (List.mem_cons_of_mem _ hmem)
    cases e with
    | echo =>
      obtain rfl := h answer List.mem_cons_self
      exact hrest
    | action a => exact congrArg (answer.notices ++ ·) hrest

/-- **Echoes are invisible.** In a run of events on a view that was opened with a listener, every
push of the text that was told last, or of the first text if none was told, is answered by nothing;
the actions have the answers, the notices and the view that they have in the run without echoes. -/
theorem run_echoes (settings : Settings) (value : Text) (listener : Listener)
    (events : List Event) :
    let after := (start settings value listener).run events
    let quiet := (View.ofText settings value (some listener)).run (events.filterMap Event.action?)
    after.2.map Prod.fst = events ∧
      (∀ answer, (.echo, answer) ∈ after.2 → answer = .outcome .unchanged) ∧
      ownAnswers after.2 = quiet.2 ∧
      after.2.flatMap (fun p => p.2.notices) = quiet.2.flatMap View.Answer.notices ∧
      after.1.view = quiet.1 := by
  intro after quiet
  obtain ⟨hview, hanswers, hevents, hechoes⟩ :=
    run_of_inStep (inStep_start settings value listener) events
  have hanswers' : ownAnswers after.2 = quiet.2 := hanswers
  refine ⟨hevents, hechoes, hanswers', ?_, hview⟩
  rw [← notices_ownAnswers hechoes, hanswers']

end Hosted

end QueryEditor
