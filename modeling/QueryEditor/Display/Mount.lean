import QueryEditor.Display.View

/-!
# Mounts

A mount is the place of the one view that the editor has open. Opening another view closes the one
before, and so does unmounting; a closed view gives back its text and lets its listener go.

* `Mount`, `Mount.mount`, `Mount.unmount`, `Mount.act`;
* `Mount.listeners`: the number of listeners that are alive.
-/

namespace QueryEditor

/-- The view that is open, if any. -/
structure Mount where
  view : Option View
  deriving DecidableEq, Repr

namespace Mount

def empty : Mount := ⟨none⟩

/-- Open a view in place of any other. -/
def mount (_m : Mount) (settings : Settings) (value : Text) (listener : Option Listener) : Mount :=
  ⟨some (.ofText settings value listener)⟩

/-- Close the view; the answer is its text. -/
def unmount (m : Mount) : Mount × Option Text := (empty, m.view.map View.close)

/-- An action on the open view; without one there is no answer. -/
def act (m : Mount) (a : View.Action) : Mount × Option View.Answer :=
  match m.view with
  | none => (m, none)
  | some v => let (v, answer) := v.act a; (⟨some v⟩, some answer)

/-- The number of listeners that are alive. -/
def listeners (m : Mount) : Nat := if (m.view.bind (·.live.listener)).isSome then 1 else 0

end Mount

end QueryEditor
