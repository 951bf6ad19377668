import QueryEditor.Edit.Document
import QueryEditor.Language.Token

/-!
# Highlights

A line is highlighted by spans of categories, one for each token that is not plain text. The
highlights of a document are kept line by line; after a change only the lines that it touched are
read again, unless the counts of lines do not fit together.

* `Category`, `Span`, `highlight`, `categoryAt`;
* `Highlights.of`: all lines read, `Highlights.edit`: only the touched ones;
* **`Highlights.length_edit`**: after an edit there is one entry for each line.
-/

namespace QueryEditor

inductive Category where
  | keyword
  | operator
  | string
  | number
  | identifier
  | plain
  deriving DecidableEq, Repr

def TokenKind.category : TokenKind → Category
  | .keyword => .keyword
  | .operator => .operator
  | .string => .string
  | .number => .number
  | .identifier => .identifier
  | .none => .plain

/-- Columns of a line, from `start` up to `stop`, that are shown alike. -/
structure Span where
  start : Nat
  stop : Nat
  category : Category
  deriving DecidableEq, Repr

def Token.span (t : Token) : Span := ⟨t.start, t.stop, t.kind.category⟩

def highlight (line : Text) : List Span :=
  ((tokens line).map Token.span).filter fun s => s.category ≠ .plain

/-- The category of the span that covers a column. -/
def categoryAt (spans : List Span) (column : Nat) : Option Category :=
  (spans.find? fun s => decide (s.start ≤ column) && decide (column < s.stop)).map Span.category

/-- The spans of each line of a document. -/
abbrev Highlights : Type := List (List Span)

namespace Highlights

/-- All lines read. -/
def of (d : Document) : Highlights := d.lineTexts.map highlight

/-- The entries for the lines from `first` to `last` of the document. -/
def fresh (d : Document) (first last : Nat) : Highlights :=
  ((d.lineTexts.drop first).take (last - first + 1)).map highlight

/-- The line numbers do not describe a change from as many lines as there are entries to as many
lines as the document has. -/
def misfit (h : Highlights) (d : Document) (first oldLast newLast : Nat) : Bool :=
  decide (h.length ≤ oldLast) || decide (oldLast < first) || decide (newLast < first) ||
    decide (h.length + newLast ≠ d.lineCount + oldLast)

/-- The highlights after a change that replaced the lines from `first` to `oldLast` by those from
`first` to `newLast`, and the number of lines that were read. -/
def edit (h : Highlights) (d : Document) (first oldLast newLast : Nat) : Highlights × Nat :=
  if h.misfit d first oldLast newLast then (of d, d.lineCount)
  else (h.take first ++ fresh d first newLast ++ h.drop (oldLast + 1), newLast - first + 1)

def categoryAt (h : Highlights) (line column : Nat) : Category :=
  (h[line]?.bind (QueryEditor.categoryAt · column)).getD .plain

/-- Line numbers that fit name lines that are there, and the counts of lines differ as they do. -/
theorem misfit_eq_false_iff {h : Highlights} {d : Document} {first oldLast newLast : Nat} :
    h.misfit d first oldLast newLast = false ↔ oldLast < h.length ∧ first ≤ oldLast ∧
      first ≤ newLast ∧ h.length + newLast = d.lineCount + oldLast := by
  simp only [misfit, Bool.or_eq_false_iff, decide_eq_false_iff_not, Nat.not_le, Nat.not_lt,
    Decidable.not_not, and_assoc]

theorem length_of (d : Document) : (of d).length = d.lineCount := by
  simp [of, Document.lineTexts, Document.lineCount]

/-- **Every line has its entry.** -/
theorem length_edit (h : Highlights) (d : Document) (first oldLast newLast : Nat) :
    (h.edit d first oldLast newLast).1.length = d.lineCount := by
  unfold edit
  split
  · exact length_of d
  · rename_i fits
    have := misfit_eq_false_iff.1 (Bool.eq_false_iff.2 fits)
    have count : d.lineTexts.length = d.lineCount := by
      simp [Document.lineTexts, Document.lineCount]
    simp only [fresh, List.length_append, List.length_take, List.length_map, List.length_drop,
      count]
    omega

end Highlights

end QueryEditor
