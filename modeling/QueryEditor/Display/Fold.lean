import QueryEditor.Edit.Document

/-!
# Folds

A block is a run of lines that are not blank, cut off at the end of the document. A fold collapses
a block of two lines or more from a line on: its first line stays, the others are hidden. Folds are
kept in the order of their lines and never overlap.

* `Document.blockEnd?`, `Document.blockRange?`;
* `Fold`, `Folds`, `Folds.toggle`, `Folds.foldAll`;
* `Folds.isHidden`, `Folds.isFolded`, `Folds.isFoldable`;
* `Folds.Call`, `Folds.run`: everything that changes folds, and runs of such calls;
* `Folds.toVisual?`, `Folds.toBuffer`, `Folds.visibleCount`: rows on the screen and lines of the
  document;
* `Folds.toBuffer?`, `Folds.toBufferWrapping`: the line of a row in machine words, where a sum that
  is too large is refused or wraps around;
* **`Folds.isFolded_toggle`**: toggling a folded line opens it.
-/

namespace QueryEditor

/-- The characters between two positions. -/
structure FoldRange where
  start : Nat
  stop : Nat
  deriving DecidableEq, Repr

/-- The number of lines at the front that are not blank. -/
def blockLength (lines : List Line) : Nat := (lines.takeWhile fun l => !l.text.isBlank).length

/-- The last line of the block that goes on from one of the given lines, if it has two lines or
more. -/
def blockEndIn? (lines : List Line) (line : Nat) : Option Nat :=
  match blockLength (lines.drop line) with
  | n + 2 => some (line + n + 1)
  | _ => none

/-- The last line of the block that goes on from a line, if it has two lines or more. -/
def Document.blockEnd? (d : Document) (line : Nat) : Option Nat := blockEndIn? d.lines line

/-- The characters that a fold between two lines hides: from the end of the first line to the end
of the last. -/
def Document.hiddenRange (d : Document) (first last : Nat) : FoldRange :=
  ⟨d.lineEnd first, d.lineEnd last⟩

/-- The characters that a fold at a line would hide. -/
def Document.blockRange? (d : Document) (line : Nat) : Option FoldRange :=
  (d.blockEnd? line).map (d.hiddenRange line)

/-- A fold: the line that stays and the last line that is hidden. -/
structure Fold where
  first : Nat
  last : Nat
  deriving DecidableEq, Repr

namespace Fold

def lineCount (f : Fold) : Nat := f.last - f.first + 1

/-- The number of lines that are hidden. -/
def hiddenCount (f : Fold) : Nat := f.last - f.first

/-- The fold hides a line. -/
def hides (f : Fold) (line : Nat) : Bool := decide (f.first < line) && decide (line ≤ f.last)

/-- The characters that the fold hides. -/
def range (f : Fold) (d : Document) : FoldRange := d.hiddenRange f.first f.last

end Fold

abbrev Folds : Type := List Fold

namespace Folds

def isHidden (fs : Folds) (line : Nat) : Bool := fs.any (·.hides line)

def isFolded (fs : Folds) (line : Nat) : Bool := fs.any (·.first == line)

/-- A line, of those given, can be opened or folded. -/
def isFoldableIn (fs : Folds) (lines : List Line) (line : Nat) : Bool :=
  fs.isFolded line || (blockEndIn? lines line).isSome

def isFoldable (fs : Folds) (d : Document) (line : Nat) : Bool := fs.isFoldableIn d.lines line

/-- The folds that do not start inside another one. -/
def outside (fs : Folds) (f : Fold) : Folds :=
  fs.filter fun g => decide (g.first < f.first) || decide (f.last < g.first)

/-- The folds with one more, which takes in those that start inside it. -/
def insert (fs : Folds) (f : Fold) : Folds :=
  (fs.outside f).takeWhile (fun g => decide (g.first ≤ f.first)) ++
    f :: (fs.outside f).dropWhile (fun g => decide (g.first ≤ f.first))

/-- Open the fold at a line, or fold the block that goes on from it; the answer tells whether
anything was done. A hidden line stays as it is. -/
def toggle (fs : Folds) (d : Document) (line : Nat) : Folds × Bool :=
  if fs.isFolded line then (fs.eraseP (·.first == line), true)
  else if fs.isHidden line then (fs, false)
  else
    match d.blockEnd? line with
    | some last => (fs.insert ⟨line, last⟩, true)
    | none => (fs, false)

/-- The folds of all blocks from a line on, `lines` being the lines from there. -/
def blocksFrom (line : Nat) : List Line → Folds
  | [] => []
  | l :: ls =>
    match blockLength (l :: ls) with
    | n + 2 => ⟨line, line + n + 1⟩ :: blocksFrom (line + n + 2) (ls.drop (n + 1))
    | _ => blocksFrom (line + 1) ls
  termination_by ls => ls.length
  decreasing_by all_goals (simp only [List.length_drop, List.length_cons]; omega)

def foldAll (d : Document) : Folds := blocksFrom 0 d.lines

def ranges (fs : Folds) (d : Document) : List FoldRange := fs.map (·.range d)

/-! ## Calls -/

/-- Everything that changes folds; a call that looks at lines brings its own document. -/
inductive Call where
  | toggle (d : Document) (line : Nat)
  | foldAll (d : Document)
  | unfoldAll
  | clear
  deriving DecidableEq, Repr

def call (fs : Folds) : Call → Folds
  | .toggle d line => (fs.toggle d line).1
  | .foldAll d => foldAll d
  | .unfoldAll => []
  | .clear => []

def run (fs : Folds) (calls : List Call) : Folds := calls.foldl call fs

/-! ## Rows on the screen -/

/-- What a pass over the folds comes to for a line: the row where it is shown, the first line of
the fold that hides it, or a difference below zero. -/
inductive Pass where
  | row (n : Nat)
  | hiddenBy (first : Nat)
  | negative
  deriving DecidableEq, Repr

/-- A pass over the folds for a line: those in front of it take the lines that they hide off
`row`. -/
def pass (line row : Nat) : Folds → Pass
  | [] => .row row
  | f :: fs =>
    if f.last < line then
      if f.first ≤ f.last ∧ f.hiddenCount ≤ row then pass line (row - f.hiddenCount) fs
      else .negative
    else if f.first < line then .hiddenBy f.first
    else pass line row fs

theorem lt_of_pass {line row first : Nat} {fs : Folds} (h : fs.pass line row = .hiddenBy first) :
    first < line := by
  induction fs generalizing row with
  | nil => cases h
  | cons f fs ih =>
    simp only [pass] at h
    split at h
    · split at h
      · exact ih h
      · cases h
    · split at h
      · cases h
        assumption
      · exact ih h

/-- The row that shows a line, unless a difference falls below zero. A hidden line is shown in the
row of the line where its fold starts. -/
def toVisual? (fs : Folds) (line : Nat) : Option Nat :=
  match _h : fs.pass line line with
  | .row n => some n
  | .hiddenBy first => toVisual? fs first
  | .negative => none
  termination_by line
  decreasing_by exact lt_of_pass _h

def toVisual (fs : Folds) (line : Nat) : Nat := (fs.toVisual? line).getD 0

/-- The line shown in a row. -/
def toBuffer : Folds → Nat → Nat
  | [], row => row
  | f :: fs, row => if f.first < row then toBuffer fs (row + f.hiddenCount) else row

/-- The line that comes out for a row, counted in machine words of which the sums wrap around. -/
def toBufferWrapping : Folds → Nat → Nat
  | [], row => row
  | f :: fs, row =>
    if f.first < row then toBufferWrapping fs ((row + f.hiddenCount) % UInt64.size) else row

/-- The number of rows for a number of lines, at least one. -/
def visibleCount (fs : Folds) (lines : Nat) : Nat :=
  max (lines - total (fs.map Fold.hiddenCount)) 1

/-- **A folded line opens**, whatever the document. -/
theorem isFolded_toggle (fs : Folds) (d : Document) (line : Nat) (h : fs.isFolded line = true) :
    fs.toggle d line = (fs.eraseP (·.first == line), true) := by simp [toggle, h]

end Folds

end QueryEditor
