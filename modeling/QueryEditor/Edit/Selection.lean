import QueryEditor.Edit.Change

/-!
# Selections

A selection has a fixed end, the anchor, and a moving end, the head, where the cursor is. A plain
cursor is a selection whose ends meet.
-/

namespace QueryEditor

/-- The two ends of a selection. -/
structure Selection where
  anchor : Nat
  head : Nat
  deriving DecidableEq, Repr

namespace Selection

def cursor (pos : Nat) : Selection := ⟨pos, pos⟩

def isEmpty (s : Selection) : Bool := s.anchor == s.head

/-- The smaller and the larger end. -/
def range (s : Selection) : Nat × Nat := (min s.anchor s.head, max s.anchor s.head)

/-- Both ends brought inside a text of the given length. -/
def clamp (s : Selection) (length : Nat) : Selection := ⟨min s.anchor length, min s.head length⟩

/-- The selection after a change of the text. -/
def map (s : Selection) (c : Change) : Selection := ⟨c.mapPos s.anchor, c.mapPos s.head⟩

end Selection

end QueryEditor
