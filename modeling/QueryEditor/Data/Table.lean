import QueryEditor.Text.Basic

/-!
# Tables

A table is a name with the names of its attributes. The interpreter lists one table to a line, as
in `R : { a, b }`; lines without a colon are not about tables.

* `Table`, `outputLines`;
* `Table.ofLine?`: the table of a line, `Table.listed`: the tables of a listing.
-/

namespace QueryEditor

structure Table where
  name : Text
  attributes : List Text
  deriving DecidableEq, Repr

/-- One more character at the front of the first line. -/
def pushLine (c : Char) : List Text → List Text
  | [] => [[c]]
  | line :: lines => (c :: line) :: lines

/-- The lines of printed output: each ends with a line feed, a carriage return right before it
being part of the end; what follows the last line feed is a line unless it is empty. -/
def outputLines : Text → List Text
  | [] => []
  | '\r' :: '\n' :: rest => [] :: outputLines rest
  | c :: rest => if c = '\n' then [] :: outputLines rest else pushLine c (outputLines rest)

namespace Table

/-- The part of a text in front of the first `mark`, and the part behind it. -/
def splitFirst (mark : Char) (t : Text) : Text × Text :=
  (t.takeWhile (· != mark), (t.dropWhile (· != mark)).drop 1)

/-- The entries of a list with commas, without white space around them and without empty ones. -/
def entries (t : Text) : List Text :=
  ((t.splitOn ',').map Text.trim).filter fun entry => !entry.isEmpty

/-- The table of a line: the name in front of the colon; the attributes up to the next colon, the
braces among them being left out. -/
def ofLine? (line : Text) : Option Table :=
  if line.contains ':' then
    let (name, rest) := splitFirst ':' line
    let attributes := (splitFirst ':' rest).1.filter fun c => c != '\x7b' && c != '\x7d'
    some ⟨name.trim, entries attributes⟩
  else none

def listed (output : Text) : List Table := (outputLines output).filterMap ofLine?

theorem isSome_ofLine? (line : Text) : (ofLine? line).isSome = line.contains ':' := by
  unfold ofLine?
  split <;> simp_all

/-- A table on one line, as in a summary for a reader. -/
def summary (t : Table) : Text :=
  t.name ++ " (".toList ++ Text.joinWith ", ".toList t.attributes ++ [')']

end Table

end QueryEditor
