import QueryEditor.Text.Basic

/-!
# TOML values

A table remembers how it came about, since that decides what may be added to it later: a table
written between braces is closed, one that a header names can be named only once, one that stands
in the path of a header may still be named by a header, and one that dotted keys made may be added
to by dotted keys.

* `Origin`, `Value`, `Entries`;
* `find?`, `put`: one entry of a table.
-/

namespace QueryEditor.Toml

inductive Origin where
  | braces
  | header
  | path
  | dotted
  deriving DecidableEq, Repr

/-- A TOML value. Tables under a header with two brackets form one value. -/
inductive Value where
  | string (t : Text)
  | integer (n : Int)
  | float (written : Text)
  | boolean (b : Bool)
  | moment (written : Text)
  | array (items : List Value)
  | table (origin : Origin) (entries : List (Text × Value))
  | tables (items : List (List (Text × Value)))
  deriving Repr

/-- The entries of a table, in the order in which their keys first appeared. -/
abbrev Entries : Type := List (Text × Value)

namespace Entries

def find? (es : Entries) (key : Text) : Option Value := es.lookup key

/-- The entries with a value for a key, in its old place if it had one. -/
def put (key : Text) (v : Value) : Entries → Entries
  | [] => [(key, v)]
  | e :: es => if e.1 = key then (key, v) :: es else e :: put key v es

end Entries

end QueryEditor.Toml
