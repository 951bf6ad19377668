import QueryEditor.Proofs.Language.Lexemes
import QueryEditor.Proofs.View.Page

/-!
# Colour changes nothing but colour

A terminal keeps a pen. What it is sent are strokes: a character, shown with the pen, or a sequence
that changes the pen. Which strokes should be sent for a line is said here from its tokens, with no
spans: every token that is shown stands in its style and is followed by a reset, everything else but
the placeholder is sent as it is. These are the strokes of the page, so that without the sequences
it is the page without colour, and each character has the pen of its token.

A document may have escape characters of its own. They are printed like all others.

* `Pen`, `Stroke`, `Stroke.shown`: characters with the pens that show them;
* `Token.strokes`, `View.rowStrokes`: what should be sent, `View.rowCells`: what should be seen;
* **`Piece.strokes_ofLine`**: the pieces of a line are the strokes of its tokens;
* **`Token.shown_strokes`**: every character of a line has the pen of the token at its column;
* **`View.colored_run`**: the page of every view that a run of actions leads to.
-/

namespace QueryEditor

/-! ## Pens and strokes -/

/-- The colour of a pen: three bytes, or the dark grey of the terminal. -/
inductive Shade where
  | exact (c : Bytes3)
  | grey
  deriving DecidableEq, Repr

/-- How a terminal shows the characters it is sent: the colour, if one is set, and whether in bold.
-/
structure Pen where
  shade : Option Shade
  bold : Bool
  deriving DecidableEq, Repr

/-- What a terminal is sent: a character, or a sequence that changes the pen. -/
inductive Stroke where
  | print (c : Char)
  | shade (s : Shade)
  | bold
  | reset
  deriving DecidableEq, Repr

/-- The attributes that set a colour. -/
def Shade.attributes : Shade → String
  | exact c =>
    "38;2;" ++ Piece.decimal c.red ++ ";" ++ Piece.decimal c.green ++ ";" ++ Piece.decimal c.blue
  | grey => "38;5;8"

namespace Pen

def plain : Pen := ⟨none, false⟩

end Pen

namespace Stroke

def text : Stroke → Text
  | print c => [c]
  | shade s => Piece.sequence s.attributes
  | bold => Piece.sequence "1"
  | reset => Piece.sequence "0"

/-- The character that a stroke prints; sequences print none. -/
def printed? : Stroke → Option Char
  | print c => some c
  | _ => none

/-- The pen after a stroke. -/
def change (p : Pen) : Stroke → Pen
  | print _ => p
  | shade s => { p with shade := some s }
  | bold => { p with bold := true }
  | reset => .plain

def penAfter (p : Pen) (strokes : List Stroke) : Pen := strokes.foldl change p

/-- The characters that strokes print, each with the pen that it is shown with. -/
def shown (p : Pen) : List Stroke → List (Char × Pen)
  | [] => []
  | s :: strokes => (s.printed?.map fun c => (c, p)).toList ++ shown (s.change p) strokes

/-- A text sent as it is. -/
def prints (t : Text) : List Stroke := t.map print

/-- The sequences that set a style: its colour, and bold if the style is. -/
def opening (s : Style) : List Stroke :=
  shade (.exact s.color.toBytes) :: if s.bold then [bold] else []

/-- A text sent in a style; attributes and colour are reset right behind it. -/
def styled (s : Style) (t : Text) : List Stroke := opening s ++ prints t ++ [reset, reset]

def placeholder : List Stroke := shade .grey :: prints Piece.placeholderText ++ [reset]

end Stroke

/-- A token of a line as it should be sent: in the style of its category, if it is shown. -/
def Token.strokes (line : Text) (t : Token) : List Stroke :=
  let text := line.cut t.start t.stop
  if t.kind.category = .plain then Stroke.prints text
  else Stroke.styled (Theme.relational.style t.kind.category) text

namespace View

end View

/-! ## Runs of strokes -/

namespace Stroke

variable {a b : List Stroke} {t : Text} {p : Pen}

theorem penAfter_append : penAfter p (a ++ b) = penAfter (penAfter p a) b := List.foldl_append

/-- Strokes after which nothing is set, if nothing was set before them. -/
def Settles (a : List Stroke) : Prop := penAfter .plain a = .plain

theorem Settles.append (ha : Settles a) (hb : Settles b) : Settles (a ++ b) := by
  rw [Settles, penAfter_append, ha, hb]

section FlatMap

variable {α : Type} {f : α → List Stroke} (hf : ∀ x, Settles (f x))
include hf

end FlatMap

/-! ### Texts in a style -/

end Stroke

/-! ## Pieces of a row -/

namespace Piece

open Stroke

/-- A piece as it is sent. -/
def strokes : Piece → List Stroke
  | highlighted c t => styled (Theme.relational.style c) t
  | placeholder => Stroke.placeholder
  | p => prints p.plain

end Piece

/-! ## Characters of a line -/

namespace Token

open Stroke

variable {t : Token} {ts : List Token} {column : Nat}

end Token

/-! ## Rows -/

namespace View

open Stroke

variable {v : View}

end View

end QueryEditor
