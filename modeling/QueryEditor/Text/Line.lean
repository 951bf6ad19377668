import QueryEditor.Text.Basic

/-!
# Lines of a text

A line ends at a line feed, at a carriage return, or at a carriage return with a line feed right
after it, which is one break. No other character breaks a line, and the last line has no break.

* `Break`, `Line`, `linesOf`;
* **`flatten_linesOf`**: the lines with their breaks, put together, are the text;
* `linesOf_ne_nil`: a text has at least one line.
-/

namespace QueryEditor

inductive Break where
  | lineFeed
  | carriageReturn
  | both
  deriving DecidableEq, Repr

/-- The characters of a break. -/
def Break.text : Break → Text
  | .lineFeed => ['\n']
  | .carriageReturn => ['\r']
  | .both => ['\r', '\n']

/-- A line: its characters and the break after them, if it has one. -/
structure Line where
  text : Text
  ending : Option Break
  deriving DecidableEq, Repr

namespace Line

/-- The characters of the break, none for the last line. -/
def breakText (l : Line) : Text := (l.ending.map Break.text).getD []

/-- The characters of the line together with those of its break. -/
def full (l : Line) : Text := l.text ++ l.breakText

/-- The number of characters of the line together with its break. -/
def width (l : Line) : Nat := l.full.length

/-- One more character at the front of the first line. -/
def push (c : Char) : List Line → List Line
  | [] => [⟨[c], none⟩]
  | l :: ls => ⟨c :: l.text, l.ending⟩ :: ls

end Line

def linesOf : Text → List Line
  | [] => [⟨[], none⟩]
  | '\r' :: '\n' :: r => ⟨[], some .both⟩ :: linesOf r
  | c :: r =>
    if c = '\n' then ⟨[], some .lineFeed⟩ :: linesOf r
    else if c = '\r' then ⟨[], some .carriageReturn⟩ :: linesOf r
    else Line.push c (linesOf r)

theorem linesOf_ne_nil (t : Text) : linesOf t ≠ [] := by
  have push_ne : ∀ c ls, Line.push c ls ≠ [] := by
    intro c ls
    cases ls <;> simp [Line.push]
  fun_cases linesOf t <;> simp_all

theorem flatten_push (c : Char) (ls : List Line) :
    ((Line.push c ls).map Line.full).flatten = c :: (ls.map Line.full).flatten := by
  cases ls <;> simp [Line.push, Line.full, Line.breakText]

/-- **Nothing is lost**: the lines with their breaks make up the text. -/
theorem flatten_linesOf (t : Text) : ((linesOf t).map Line.full).flatten = t := by
  fun_induction linesOf t with
  | case1 => rfl
  | case2 r ih => simp [Line.full, Line.breakText, Break.text, ih]
  | case3 r _ ih => simp [Line.full, Line.breakText, Break.text, ih]
  | case4 r _ _ ih => simp [Line.full, Line.breakText, Break.text, ih]
  | case5 c r _ _ _ ih => rw [flatten_push, ih]

end QueryEditor
