import QueryEditor.Number.Total
import QueryEditor.Text.Line
import QueryEditor.Edit.Change

/-!
# Documents

A document is a text seen through its lines. Positions past the end stand for the end, lines past
the last one start and end there, have no text and count as blank.

* `Document.lines`, `lineCount`, `line?`, `lineStart`, `lineEnd`, `lineOf`, `isBlankLine`;
* `Document.slice`, `Document.replace`.
-/

namespace QueryEditor

structure Document where
  text : Text
  deriving DecidableEq, Repr

namespace Document

def empty : Document := ⟨[]⟩

def length (d : Document) : Nat := d.text.length

def isEmpty (d : Document) : Bool := d.text.isEmpty

def lines (d : Document) : List Line := linesOf d.text

/-- The number of lines, at least one. -/
def lineCount (d : Document) : Nat := d.lines.length

def line? (d : Document) (line : Nat) : Option Text := (d.lines[line]?).map Line.text

def lineTexts (d : Document) : List Text := d.lines.map Line.text

/-- The position of the first character of a line. -/
def lineStart (d : Document) (line : Nat) : Nat := total ((d.lines.take line).map Line.width)

def lineLength (d : Document) (line : Nat) : Nat := ((d.line? line).map List.length).getD 0

/-- The position behind the last character of a line, before its break. -/
def lineEnd (d : Document) (line : Nat) : Nat := d.lineStart line + d.lineLength line

/-- The line at an offset from the start of the first of the given lines. -/
def lineAt : List Line → Nat → Nat
  | [], _ => 0
  | [_], _ => 0
  | l :: m :: ls, pos => if pos < l.width then 0 else lineAt (m :: ls) (pos - l.width) + 1

def lineOf (d : Document) (pos : Nat) : Nat := lineAt d.lines (min pos d.length)

/-- The line is missing or has nothing but white space. -/
def isBlankLine (d : Document) (line : Nat) : Bool := ((d.line? line).map Text.isBlank).getD true

def slice (d : Document) (start stop : Nat) : Text := d.text.cut start stop

/-- The document after a change, whose ends are first brought inside the text. -/
def replace (d : Document) (c : Change) : Document :=
  let c := c.clamp d.length
  ⟨d.text.splice c.start c.stop c.new⟩

theorem lineCount_pos (d : Document) : 0 < d.lineCount :=
  List.length_pos_iff.2 (linesOf_ne_nil d.text)

end Document

end QueryEditor
