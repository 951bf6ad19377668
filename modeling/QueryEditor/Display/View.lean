import QueryEditor.Display.Fold
import QueryEditor.Display.Highlight
import QueryEditor.Display.Slot
import QueryEditor.Edit.Live
import QueryEditor.Language.Completion
import QueryEditor.Language.Punctuation

/-!
# Views

A view shows a live document: it keeps the highlights of its lines, the folds and the policy for
line numbers. A change of the document renews the highlights of the lines it touched and opens all
folds.

* `Settings`, `View`, `View.ofText`;
* `View.edit`: an operation on the document, with the highlights and folds that follow from it;
* `toggleFold`, `foldAll`, `toggleNumbers`, `outgoing`, `View.complete`;
* `View.Action`, `View.act`, `View.run`: everything that changes a view, and runs of such actions;
* **`View.edit_push_self`**: pushing the present text leaves the view as it is.
-/

namespace QueryEditor

structure Settings where
  showLineNumbers : Bool := true
  foldGutter : Bool := true
  deriving DecidableEq, Repr

/-! ## Operations on a live document -/

/-- An operation on a live document. -/
inductive Edit where
  | change (c : Change)
  | push (value : Text)
  | insert (new : Text)
  | backspace
  | select (s : Selection)
  deriving DecidableEq, Repr

def LiveDocument.step (d : LiveDocument) : Edit → LiveDocument × Outcome
  | .change c => d.dispatch c
  | .push value => d.push value
  | .insert new => d.insertText new
  | .backspace => d.deleteBackward
  | .select s => (d.select s, .unchanged)

/-! ## Views -/

/-- A live document as it is shown. -/
structure View where
  live : LiveDocument
  highlights : Highlights
  folds : Folds
  numbers : Slot GutterPolicy
  settings : Settings
  deriving DecidableEq, Repr

namespace View

/-- The policy for line numbers that settings ask for. -/
def numberPolicy (visible : Bool) : Option GutterPolicy :=
  if visible then none else some .hideLineNumbers

/-- A view freshly opened on a text. -/
def ofText (settings : Settings) (value : Text) (listener : Option Listener) : View :=
  let live := (LiveDocument.ofText value).listen listener
  { live
    highlights := .of live.doc
    folds := []
    numbers := ⟨"line-numbers".toList, numberPolicy settings.showLineNumbers⟩
    settings }

def doc (v : View) : Document := v.live.doc

def text (v : View) : Text := v.live.text

def numbersVisible (v : View) : Bool := v.numbers.policy != some .hideLineNumbers

/-- An operation on the document: when it applied a change, the lines it touched are read again
and all folds are opened. -/
def edit (v : View) (e : Edit) : View × Outcome :=
  let (live, outcome) := v.live.step e
  match outcome.applied with
  | none => ({ v with live }, outcome)
  | some a =>
    let (highlights, _) := v.highlights.edit live.doc a.firstLine a.oldLastLine a.newLastLine
    ({ v with live, highlights, folds := [] }, outcome)

def toggleFold (v : View) (line : Nat) : View × Bool :=
  let (folds, changed) := v.folds.toggle v.doc line
  ({ v with folds }, changed)

def foldAll (v : View) : View := { v with folds := .foldAll v.doc }

/-- Show or hide the line numbers; the answer is whether they are visible then. -/
def toggleNumbers (v : View) : View × Bool :=
  let (numbers, _) := v.numbers.reconfigure (numberPolicy !v.numbersVisible)
  let after := { v with numbers }
  (after, after.numbersVisible)

def complete (v : View) (explicit : Bool) : Option Completion :=
  QueryEditor.complete v.doc v.live.cursor explicit

/-- The text as it is sent to the interpreter. -/
def outgoing (v : View) : Text := normalize v.text

/-- The text that is left when the view is closed; its listener is let go. -/
def close (v : View) : Text := v.text

/-! ## Runs -/

/-- Everything that changes a view. -/
inductive Action where
  | edit (e : Edit)
  | toggleFold (line : Nat)
  | foldAll
  | toggleNumbers
  deriving DecidableEq, Repr

inductive Answer where
  | outcome (o : Outcome)
  | flag (b : Bool)
  | done
  deriving DecidableEq, Repr

def Answer.notices : Answer → List Notice
  | .outcome o => o.notices
  | _ => []

/-- The view after an action, and the answer. -/
def act (v : View) : Action → View × Answer
  | .edit e => let (v, o) := v.edit e; (v, .outcome o)
  | .toggleFold line => let (v, b) := v.toggleFold line; (v, .flag b)
  | .foldAll => (v.foldAll, .done)
  | .toggleNumbers => let (v, b) := v.toggleNumbers; (v, .flag b)

/-- The view after a run of actions, and the answers in order. -/
def run (v : View) : List Action → View × List Answer
  | [] => (v, [])
  | a :: as =>
    let (v, answer) := v.act a
    let (v, answers) := run v as
    (v, answer :: answers)

/-- **An echo is invisible.** -/
theorem edit_push_self (v : View) : v.edit (.push v.text) = (v, .unchanged) := by
  have h := LiveDocument.push_self v.live
  simp only [edit, LiveDocument.step, text, h, Outcome.unchanged]

end View

end QueryEditor
