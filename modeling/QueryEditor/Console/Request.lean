import QueryEditor.Text.Basic

/-!
# Requests

A request is one line of input for the interpreter: a dot-command as it is, or an expression with a
semicolon at its end.

* `prepare`: the request of a text, none for a blank one;
* `resetCommand`, `tablesCommand`, `loadCommand`, `addTableCommand`;
* **`prepare_eq_none_iff`**: there is no request just for a blank text.
-/

namespace QueryEditor.Request

def prepare (t : Text) : Option Text :=
  let bare := t.trim
  if bare.isEmpty then none
  else if bare.head? = some '.' ∨ bare.getLast? = some ';' then some bare
  else some (bare ++ [';'])

def resetCommand : Text := ".reset".toList

def tablesCommand : Text := ".tables".toList

def loadCommand (path : Text) : Text := ".load ".toList ++ path

def addTableCommand (name : Text) (attributes : List Text) (path : Text) : Text :=
  ".add ".toList ++ name ++ ['('] ++ Text.joinWith ", ".toList attributes ++ ") : ".toList ++ path

theorem prepare_eq_none_iff (t : Text) : prepare t = none ↔ t.isBlank = true := by
  rw [Text.isBlank_iff]
  simp only [prepare, List.isEmpty_iff]
  split
  · simp_all
  · split <;> simp_all

end QueryEditor.Request
