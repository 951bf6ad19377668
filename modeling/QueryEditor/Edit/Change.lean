import QueryEditor.Text.Basic

/-!
# Changes

A change replaces the characters between two positions of a text. A position next to the change
follows the text: one before the replaced part stays, one behind it moves with its character, one
inside it goes to the end of what was put in, and a cursor at a pure insertion is pushed along.

* `Change`, `Change.insertion`, `Change.deletion`;
* `Change.isEmpty`, `Change.clamp`, `Change.mapPos`.
-/

namespace QueryEditor

/-- Replace the characters from `start` up to `stop` by `new`. -/
structure Change where
  start : Nat
  stop : Nat
  new : Text
  deriving DecidableEq, Repr

namespace Change

/-- Put a text in at a position. -/
def insertion (at_ : Nat) (new : Text) : Change := ⟨at_, at_, new⟩

/-- Take the characters between two positions out. -/
def deletion (start stop : Nat) : Change := ⟨start, stop, []⟩

/-- The change takes nothing out and puts nothing in. -/
def isEmpty (c : Change) : Bool := decide (c.stop ≤ c.start) && c.new.isEmpty

def newLength (c : Change) : Nat := c.new.length

/-- The change with both ends inside a text of the given length, the end not before the start. -/
def clamp (c : Change) (length : Nat) : Change :=
  ⟨min c.start length, max (min c.stop length) (min c.start length), c.new⟩

/-- Where a position is found after the change. -/
def mapPos (c : Change) (pos : Nat) : Nat :=
  if pos < c.start ∨ (pos = c.start ∧ c.start < c.stop) then pos
  else if c.stop ≤ pos ∧ c.start < pos then pos - (c.stop - c.start) + c.newLength
  else if pos = c.start ∧ c.start = c.stop then pos + c.newLength
  else c.start + c.newLength

end Change

end QueryEditor
