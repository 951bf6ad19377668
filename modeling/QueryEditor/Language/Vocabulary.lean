import QueryEditor.Text.Basic

/-!
# Vocabulary of the query language

The words that the editor offers for completion: the dot-commands of the interpreter, then the
operator glyphs, in the order in which they are offered.
-/

namespace QueryEditor

inductive WordKind where
  | dotCommand
  | operatorGlyph
  deriving DecidableEq, Repr

structure Word where
  label : Text
  kind : WordKind
  deriving DecidableEq, Repr

namespace Word

def dotCommands : List Text :=
  [".help", ".syntax", ".tables", ".views", ".quit", ".tree", ".eval", ".add", ".drop", ".load",
   ".save"].map String.toList

def operatorGlyphs : List Text :=
  ["<S>", "<P>", "<R>", "<E>", "<X>", "<U>", "<D>", "<I>"].map String.toList

/-- All words, commands first. -/
def vocabulary : List Word :=
  dotCommands.map (⟨·, .dotCommand⟩) ++ operatorGlyphs.map (⟨·, .operatorGlyph⟩)

/-- The word with a label. -/
def lookup? (label : Text) : Option Word := vocabulary.find? (·.label == label)

end Word

end QueryEditor
