import QueryEditor.Display.Theme
import QueryEditor.Display.View

/-!
# Pages

A page is a view written out in rows, one for each line that no fold hides. A row has the line
number, the fold mark, the text with its highlights, and a placeholder when lines are folded behind
it. With colour, highlighted pieces and the placeholder carry terminal sequences; nothing else does.

* `Piece`, `Piece.plain`, `Piece.colored`;
* `View.rows`, `View.page`;
* **`View.mem_visibleLines`**: there is a row for each line that no fold hides.
-/

namespace QueryEditor

inductive Piece where
  | gutter (t : Text)
  | text (t : Text)
  | highlighted (c : Category) (t : Text)
  | placeholder
  deriving DecidableEq, Repr

namespace Piece

def placeholderText : Text := " ⋯".toList

def plain : Piece → Text
  | gutter t => t
  | text t => t
  | highlighted _ t => t
  | placeholder => placeholderText

def sequence (attributes : String) : Text := '\x1b' :: '[' :: (attributes.toList ++ ['m'])

def decimal (n : Nat) : String := Nat.repr n

/-- The sequences in front of a piece in a style. -/
def opening (s : Style) : Text :=
  let c := s.color.toBytes
  let color := "38;2;" ++ decimal c.red ++ ";" ++ decimal c.green ++ ";" ++ decimal c.blue
  sequence color ++ if s.bold then sequence "1" else []

/-- The sequences behind a highlighted piece: attributes and colour are reset. -/
def closing : Text := sequence "0" ++ sequence "0"

/-- The characters of a piece with the sequences that color it. -/
def colored (theme : Theme) : Piece → Text
  | highlighted c t => opening (theme.style c) ++ t ++ closing
  | placeholder => sequence "38;5;8" ++ placeholderText ++ sequence "0"
  | p => p.plain

/-- The pieces of a line from a column on. -/
def ofLine (line : Text) (column : Nat) : List Span → List Piece
  | [] => [text (line.drop column)]
  | s :: spans =>
    text (line.cut column s.start) :: highlighted s.category (line.cut s.start s.stop) ::
      ofLine line s.stop spans

end Piece

namespace View

/-- The mark beside a line: folded, foldable or none. -/
def foldMark (v : View) (lines : List Line) (line : Nat) : Char :=
  if v.folds.isFolded line then '▸' else if v.folds.isFoldableIn lines line then '▾' else ' '

/-- The number of a line, as wide as the number of lines, and a blank. -/
def numberText (lines : List Line) (line : Nat) : Text :=
  let width := (Nat.repr lines.length).length
  (Nat.repr (line + 1)).toList.leftpad width ' ' ++ [' ']

def gutter (v : View) (lines : List Line) (line : Nat) : Text :=
  (if v.numbersVisible then numberText lines line else []) ++
    if v.settings.foldGutter then [v.foldMark lines line, ' '] else []

/-- The row of a line, of those given. -/
def row (v : View) (lines : List Line) (line : Nat) : List Piece :=
  .gutter (v.gutter lines line) ::
    Piece.ofLine ((lines[line]?.map Line.text).getD []) 0 (v.highlights[line]?.getD []) ++
    if v.folds.isFolded line then [.placeholder] else []

/-- The lines that no fold hides. -/
def visibleLines (v : View) : List Nat :=
  (List.range v.doc.lineCount).filter fun line => !v.folds.isHidden line

def rows (v : View) : List (List Piece) :=
  let lines := v.doc.lines
  v.visibleLines.map (v.row lines)

/-- The view written out, each row ended by a line feed. -/
def page (v : View) (color : Bool) : Text :=
  let write := if color then Piece.colored .relational else Piece.plain
  v.rows.flatMap fun r => r.flatMap write ++ ['\n']

/-- **A line is shown unless a fold hides it.** -/
theorem mem_visibleLines (v : View) (line : Nat) :
    line ∈ v.visibleLines ↔ line < v.doc.lineCount ∧ v.folds.isHidden line = false := by
  rw [visibleLines, List.mem_filter, List.mem_range, Bool.not_eq_true']

end View

end QueryEditor
