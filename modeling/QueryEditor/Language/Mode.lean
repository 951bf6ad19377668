import QueryEditor.Text.Basic

/-!
# Evaluation modes

A query is evaluated over sets, over bags, or as the interpreter is set up. A mode is chosen by
sending its command; the choice stands even when the command cannot be sent.

* `EvalMode`, `EvalMode.parse`, `EvalMode.command`.
-/

namespace QueryEditor

inductive EvalMode where
  | set
  | bag
  | off
  deriving DecidableEq, Repr

/-- The name, in lower case without blanks, that is not a mode's. -/
structure UnknownMode where
  name : Text
  deriving DecidableEq, Repr

/-- How the error is told. -/
def UnknownMode.message (e : UnknownMode) : Text :=
  "unknown eval mode '".toList ++ e.name ++ "'".toList

namespace EvalMode

def all : List EvalMode := [set, bag, off]

def name : EvalMode → Text
  | set => "set".toList
  | bag => "bag".toList
  | off => "off".toList

def command (m : EvalMode) : Text := ".eval ".toList ++ m.name

def label : EvalMode → Text
  | set => "Set Mode".toList
  | bag => "Bag Mode".toList
  | off => "Off Mode".toList

/-- The mode with a name; ASCII case and white space around the name do not matter. -/
def parse (t : Text) : Except UnknownMode EvalMode :=
  let name := t.trim.map Char.toLower
  match all.find? (·.name == name) with
  | some m => .ok m
  | none => .error ⟨name⟩

end EvalMode

structure ModeSelector where
  mode : EvalMode
  deriving DecidableEq, Repr

namespace ModeSelector

def start : ModeSelector := ⟨.off⟩

/-- Choose a mode, whether or not its command can be sent: the menu and the command to send. -/
def select (_selector : ModeSelector) (m : EvalMode) : ModeSelector × Text := (⟨m⟩, m.command)

end ModeSelector

end QueryEditor
