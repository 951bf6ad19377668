import QueryEditor.Data.Table
import QueryEditor.Json.Reader

/-!
# Database files

A database file is a JSON object whose member `tables` has a member for each table, whose member
`attributes` has a member for each attribute. What has another shape has no tables or attributes.

* `Database.tables`, `Database.parse`.
-/

namespace QueryEditor.Database

open Json

/-- The table of a name and its description. -/
def table (name : Text) (description : Option Value) : Table :=
  ⟨name, ((description.bind (·.member? "attributes".toList)).bind Value.keys?).getD []⟩

/-- The tables that a value describes, in the order of their names. -/
def tables (v : Value) : List Table :=
  match (v.member? "tables".toList).bind Value.members? with
  | none => []
  | some members =>
    (Value.keysOf members).map fun name => table name (Value.lastOf name members)

def parse (t : Text) : Except Fault (List Table) := (Json.parse t).map tables

end QueryEditor.Database
