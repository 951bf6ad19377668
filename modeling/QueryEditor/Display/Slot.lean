import QueryEditor.Text.Basic

/-!
# Slots for display policies

A slot has a name and holds at most one policy. The host puts another one in by hand; putting in
what is there already is no change.

* `Slot`, `Slot.reconfigure`;
* `GutterPolicy`, and the part of the gutter that it hides.
-/

namespace QueryEditor

structure Slot (α : Type) where
  name : Text
  policy : Option α
  deriving DecidableEq, Repr

namespace Slot

variable {α : Type} [DecidableEq α]

def isEmpty (s : Slot α) : Bool := s.policy.isNone

/-- The slot with another policy, and whether that is a change. -/
def reconfigure (s : Slot α) (next : Option α) : Slot α × Bool :=
  if s.policy = next then (s, false) else ({ s with policy := next }, true)

end Slot

/-- What may be hidden beside the text. -/
inductive GutterPolicy where
  | hideLineNumbers
  deriving DecidableEq, Repr

/-- The selector of what the policy hides. -/
def GutterPolicy.selector : GutterPolicy → Text
  | .hideLineNumbers => ".cm-gutter.cm-lineNumbers".toList

end QueryEditor
