import QueryEditor.Edit.Document
import QueryEditor.Language.Vocabulary

/-!
# Completion

The word before the cursor reaches back to the nearest white space, or to the start of the cursor's
line. All words of the vocabulary are offered for it; with no word before the cursor they are
offered only on request.

* `wordBefore`, `Completion`, `complete`;
* **`complete_eq_none_iff`**: there is no offer just when there is no word and no request.
-/

namespace QueryEditor

open Unicode

/-- The characters at the end of a text that are not white space. -/
def lastWord (t : Text) : Text := (t.reverse.takeWhile fun c => !isWhite c).reverse

/-- Where the word before a position starts, and the word. -/
def wordBefore (d : Document) (pos : Nat) : Nat × Text :=
  let pos := min pos d.length
  let word := lastWord (d.slice (d.lineStart (d.lineOf pos)) pos)
  (pos - word.length, word)

/-- An offer: the part of the document that a choice replaces, the text there, and the words. -/
structure Completion where
  start : Nat
  stop : Nat
  word : Text
  options : List Word
  deriving DecidableEq, Repr

namespace Completion

/-- The offer still holds when a text is typed on: it has no white space. -/
def isValidFor (_offer : Completion) (typed : Text) : Bool := !typed.any isWhite

/-- The options that start with the word before the cursor. -/
def matching (offer : Completion) : List Word :=
  offer.options.filter fun option => offer.word.isPrefixOf option.label

end Completion

def complete (d : Document) (pos : Nat) (explicit : Bool) : Option Completion :=
  let (start, word) := wordBefore d pos
  if word.isEmpty && !explicit then none
  else some ⟨start, start + word.length, word, Word.vocabulary⟩

theorem complete_eq_none_iff (d : Document) (pos : Nat) (explicit : Bool) :
    complete d pos explicit = none ↔ (wordBefore d pos).2 = [] ∧ explicit = false := by
  simp [complete]

end QueryEditor
