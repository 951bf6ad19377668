import QueryEditor.Display.Mount
import QueryEditor.Proofs.View.Step

/-!
# A mount among its listeners

A view holds the listener that it was opened with, and what it tells, it tells to this one. A mount
closes the view that is open before it opens another, and when it goes away; a view that is closed
lets its listener go.

* `View.listener_act`, `View.exists_listener_of_mem_run`: a view and its listener;
* `Mount.Step`, `Mount.run`: what is done with a mount;
* `Hearer`, `Attended`: a mount with the listeners that were handed to it;
* **`Attended.mount_run`**: it does what the mount does by itself.
-/

namespace QueryEditor

namespace View

theorem listener_act (v : View) (a : Action) : (v.act a).1.live.listener = v.live.listener := by
  cases a with
  | edit e =>
    change (v.edit e).1.live.listener = _
    rw [live_edit]
    rcases v.live.step_cases e with hkeep | ⟨origin, c, happly⟩
    · exact hkeep.listener
    · exact happly.listener
  | toggleFold line => rfl
  | foldAll => rfl
  | toggleNumbers => rfl

theorem exists_listener_of_mem_act {v : View} {a : Action} {n : Notice}
    (h : n ∈ (v.act a).2.notices) :
    ∃ l ∈ v.live.listener, ∃ origin text, n = l.notice origin text := by
  cases a with
  | edit e =>
    change n ∈ (v.edit e).2.notices at h
    rw [outcome_edit] at h
    rcases v.live.step_cases e with hkeep | ⟨origin, c, happly⟩
    · rw [hkeep.outcome] at h
      exact absurd h List.not_mem_nil
    · rw [happly.notices, Option.mem_toList] at h
      obtain ⟨l, hl, rfl⟩ := Option.map_eq_some_iff.1 h
      exact ⟨l, hl, origin, _, rfl⟩
  | toggleFold line => exact absurd h List.not_mem_nil
  | foldAll => exact absurd h List.not_mem_nil
  | toggleNumbers => exact absurd h List.not_mem_nil

theorem exists_listener_of_mem_run {v : View} {actions : List Action} {n : Notice}
    (h : n ∈ (v.run actions).2.flatMap Answer.notices) :
    ∃ l ∈ v.live.listener, ∃ origin text, n = l.notice origin text := by
  induction actions generalizing v with
  | nil => exact absurd h List.not_mem_nil
  | cons a actions ih =>
    rcases List.mem_append.1 h with h | h
    · exact exists_listener_of_mem_act h
    · rw [← v.listener_act a]
      exact ih h

theorem run_concat (v : View) (actions : List Action) (a : Action) :
    v.run (actions ++ [a]) =
      (((v.run actions).1.act a).1, (v.run actions).2 ++ [((v.run actions).1.act a).2]) := by
  induction actions generalizing v with
  | nil => rfl
  | cons b actions ih => simp only [List.cons_append, run, ih]

end View

/-! ## Steps of a mount -/

namespace Mount

/-- What is done with a mount. -/
inductive Step where
  | mount (settings : Settings) (value : Text) (listener : Option Listener)
  | unmount
  | act (a : View.Action)
  deriving DecidableEq, Repr

/-- The step opens a view. -/
def Step.isMount : Step → Bool
  | .mount _ _ _ => true
  | .unmount | .act _ => false

inductive Result where
  | opened
  | closed (text : Option Text)
  | acted (answer : Option View.Answer)
  deriving DecidableEq, Repr

def Result.notices : Result → List Notice
  | .acted (some answer) => answer.notices
  | _ => []

def step (m : Mount) : Step → Mount × Result
  | .mount settings value listener => (m.mount settings value listener, .opened)
  | .unmount => let (m, text) := m.unmount; (m, .closed text)
  | .act a => let (m, answer) := m.act a; (m, .acted answer)

def run (m : Mount) : List Step → Mount × List Result
  | [] => (m, [])
  | s :: steps =>
    let (m, result) := m.step s
    let (m, results) := run m steps
    (m, result :: results)

end Mount

/-! ## A mount and its listeners -/

/-- A listener that was handed to a mount: whether a view holds it, and what it was told. -/
structure Hearer where
  listener : Listener
  alive : Bool
  told : List Notice
  deriving DecidableEq, Repr

namespace Hearer

def enter (l : Listener) : Hearer := ⟨l, true, []⟩

def release (h : Hearer) : Hearer := { h with alive := false }

def tell (notices : List Notice) (h : Hearer) : Hearer := { h with told := h.told ++ notices }

end Hearer

/-- A mount with all listeners that were handed to it, in order, the place among them of the one
that the open view holds, and the texts of the views that were closed. -/
structure Attended where
  mount : Mount
  held : Option Nat
  hearers : List Hearer
  closed : List Text

namespace Attended

open Mount (Step Result)

def empty : Attended := ⟨.empty, none, [], []⟩

/-- Something happens to the listener that the open view holds, if it holds one. -/
def atHeld (x : Attended) (f : Hearer → Hearer) : Attended :=
  { x with hearers := (x.held.map fun i => x.hearers.modify i f).getD x.hearers }

/-- Close the open view, which lets its listener go; the answer is its text. -/
def unmount (x : Attended) : Attended × Option Text :=
  let (mount, text) := x.mount.unmount
  let x := x.atHeld Hearer.release
  ({ x with mount, held := none, closed := x.closed ++ text.toList }, text)

/-- Open a view once the one before is closed; it holds the listener handed in with it. -/
def remount (x : Attended) (settings : Settings) (value : Text) (listener : Option Listener) :
    Attended :=
  let x := x.unmount.1
  { x with
    mount := x.mount.mount settings value listener
    held := listener.map fun _ => x.hearers.length
    hearers := x.hearers ++ (listener.map Hearer.enter).toList }

/-- Act on the open view; what it tells, it tells to the listener that it holds. -/
def act (x : Attended) (a : View.Action) : Attended × Option View.Answer :=
  let (mount, answer) := x.mount.act a
  ({ x.atHeld (Hearer.tell (Result.acted answer).notices) with mount }, answer)

def step (x : Attended) : Step → Attended × Result
  | .mount settings value listener => (x.remount settings value listener, .opened)
  | .unmount => let (x, text) := x.unmount; (x, .closed text)
  | .act a => let (x, answer) := x.act a; (x, .acted answer)

def run (x : Attended) : List Step → Attended × List Result
  | [] => (x, [])
  | s :: steps =>
    let (x, result) := x.step s
    let (x, results) := run x steps
    (x, result :: results)

/-- The mount goes away: it closes the view that is still open. -/
def drop (x : Attended) : Attended := x.unmount.1

theorem mount_step (x : Attended) (s : Step) :
    ((x.step s).1.mount, (x.step s).2) = x.mount.step s := by cases s <;> rfl

/-- The listeners are only looked at: the mount does what it does without them. -/
theorem mount_run (x : Attended) (steps : List Step) :
    ((x.run steps).1.mount, (x.run steps).2) = x.mount.run steps := by
  induction steps generalizing x with
  | nil => rfl
  | cons s steps ih =>
    change _ = (((x.mount.step s).1.run steps).1,
      (x.mount.step s).2 :: ((x.mount.step s).1.run steps).2)
    rw [← x.mount_step s, ← ih (x.step s).1]
    rfl

end Attended

end QueryEditor
