import QueryEditor.Edit.Document
import QueryEditor.Edit.Selection

/-!
# Live documents

A live document is a document with a selection, a count of the changes applied to it and at most
one listener, which is told the whole text after every change. A host that shows the same text may
push its value in: a push of the text that is already there is no change, so that a listener may
hand back what it was told without starting a loop.

* `Origin`, `Listener`, `Notice`, `Applied`, `Outcome`;
* `LiveDocument`, `LiveDocument.apply`;
* `dispatch`, `push`, `insertText`, `deleteBackward`;
* **`LiveDocument.push_self`**: pushing the present text changes nothing and reports nothing.
-/

namespace QueryEditor

inductive Origin where
  | localEdit
  | external
  deriving DecidableEq, Repr

/-- What a listener wants to be told. -/
inductive Listener where
  | textOnly
  | withOrigin
  deriving DecidableEq, Repr

/-- What a listener is told. -/
structure Notice where
  origin : Option Origin
  text : Text
  deriving DecidableEq, Repr

/-- What the listener is told of a change that left this text. -/
def Listener.notice (l : Listener) (origin : Origin) (text : Text) : Notice :=
  match l with
  | .textOnly => ⟨none, text⟩
  | .withOrigin => ⟨some origin, text⟩

/-- A change that was applied: the lines it replaced, the last line that replaced them, and the
revision that it made. -/
structure Applied where
  origin : Origin
  firstLine : Nat
  oldLastLine : Nat
  newLastLine : Nat
  revision : Nat
  deriving DecidableEq, Repr

/-- The answer to an operation: the change that it applied and what was told to listeners. -/
structure Outcome where
  applied : Option Applied
  notices : List Notice
  deriving DecidableEq, Repr

/-- The answer to an operation that changed nothing. -/
def Outcome.unchanged : Outcome := ⟨none, []⟩

/-- A document under edit, shared with a host. -/
structure LiveDocument where
  doc : Document
  selection : Selection
  revision : Nat
  listener : Option Listener
  deriving DecidableEq, Repr

namespace LiveDocument

/-- A live document at its first revision, with the cursor at its start. -/
def ofText (text : Text) : LiveDocument := ⟨⟨text⟩, .cursor 0, 0, none⟩

def text (d : LiveDocument) : Text := d.doc.text

def cursor (d : LiveDocument) : Nat := d.selection.head

/-- Install a listener in place of any other. -/
def listen (d : LiveDocument) (l : Option Listener) : LiveDocument := { d with listener := l }

/-- Select between two positions, which are brought inside the text. -/
def select (d : LiveDocument) (s : Selection) : LiveDocument :=
  { d with selection := s.clamp d.doc.length }

def moveTo (d : LiveDocument) (pos : Nat) : LiveDocument := d.select (.cursor pos)

/-- Apply a change, unless it is empty once its ends are inside the text. -/
def apply (d : LiveDocument) (origin : Origin) (c : Change) : LiveDocument × Outcome :=
  let c := c.clamp d.doc.length
  if c.isEmpty then (d, .unchanged)
  else
    let doc := d.doc.replace c
    let applied : Applied :=
      { origin
        firstLine := d.doc.lineOf c.start
        oldLastLine := d.doc.lineOf c.stop
        newLastLine := doc.lineOf (c.start + c.newLength)
        revision := d.revision + 1 }
    ({ d with doc, selection := d.selection.map c, revision := d.revision + 1 },
     ⟨some applied, (d.listener.map (·.notice origin doc.text)).toList⟩)

def dispatch (d : LiveDocument) (c : Change) : LiveDocument × Outcome := d.apply .localEdit c

/-- A text handed in by the host: the whole document is replaced, unless it has that text. -/
def push (d : LiveDocument) (value : Text) : LiveDocument × Outcome :=
  if d.text = value then (d, .unchanged) else d.apply .external ⟨0, d.doc.length, value⟩

/-- Type a text over the selection; the cursor ends behind it. -/
def insertText (d : LiveDocument) (new : Text) : LiveDocument × Outcome :=
  let (start, stop) := d.selection.range
  let (after, outcome) := d.dispatch ⟨start, stop, new⟩
  if outcome.applied.isSome then (after.moveTo (start + new.length), outcome) else (after, outcome)

/-- Delete the selection, or the character before a plain cursor. -/
def deleteBackward (d : LiveDocument) : LiveDocument × Outcome :=
  let (start, stop) := d.selection.range
  if start ≠ stop then d.dispatch (.deletion start stop)
  else if start = 0 then (d, .unchanged)
  else d.dispatch (.deletion (start - 1) start)

/-- **An echo is silent**: pushing the present text changes nothing and reports nothing. -/
theorem push_self (d : LiveDocument) : d.push d.text = (d, .unchanged) := by simp [push]

end LiveDocument

end QueryEditor
