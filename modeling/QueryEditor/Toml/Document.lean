import QueryEditor.Toml.Reader

/-!
# TOML documents

The statements of a document build its table from the top: pairs go into the table of the header
above them. A header makes the tables in its path as far as they are missing; a table can be named
by one header only, and not at all once it has a value of another sort or was made by dotted keys.

* `changeAt`: a change of the table at a path;
* `openTable`, `openArray`: what headers do;
* `tableOf`: the table of statements, `parse`: the table of a text.
-/

namespace QueryEditor.Toml

/-- The entries after a change of those of the table at a path. Tables that are not there yet are
made; a list of tables stands for its last; a table in braces cannot be entered. -/
def changeAt (f : Entries → Option Entries) : List Text → Entries → Option Entries
  | [], es => f es
  | key :: path, es =>
    match es.find? key with
    | none => do
      let sub ← changeAt f path []
      return es.put key (.table .path sub)
    | some (.table .braces _) => none
    | some (.table origin sub) => do
      let sub ← changeAt f path sub
      return es.put key (.table origin sub)
    | some (.tables items) => do
      let last ← items.getLast?
      let last ← changeAt f path last
      return es.put key (.tables (items.dropLast ++ [last]))
    | some _ => none

/-- A table named by a header: a new one, or one that so far was only in the path of headers. -/
def openTable (key : Text) (es : Entries) : Option Entries :=
  match es.find? key with
  | none => some (es.put key (.table .header []))
  | some (.table .path sub) => some (es.put key (.table .header sub))
  | some _ => none

/-- One more table of a list of tables. -/
def openArray (key : Text) (es : Entries) : Option Entries :=
  match es.find? key with
  | none => some (es.put key (.tables [[]]))
  | some (.tables items) => some (es.put key (.tables (items ++ [[]])))
  | some _ => none

/-- The last key of a path, given to a change of the table that the path leads to before it. -/
def atLast (f : Text → Entries → Option Entries) (path : List Text) (es : Entries) :
    Option Entries := do
  let key ← path.getLast?
  changeAt (f key) path.dropLast es

/-- What has been read of a document: its table, and the path of the header above. -/
structure Progress where
  root : Entries
  above : List Text

def Progress.step (p : Progress) : Statement → Option Progress
  | .header path => do
    let root ← atLast openTable path p.root
    return ⟨root, path⟩
  | .arrayHeader path => do
    let root ← atLast openArray path p.root
    return ⟨root, path⟩
  | .pair path v => do
    let root ← changeAt (putAt v · path) p.above p.root
    return { p with root }

def tableOf (statements : List Statement) : Option Entries := do
  let p ← statements.foldlM Progress.step ⟨[], []⟩
  return p.root

/-- The table of a document; none if the text is no document. -/
def parse (t : Text) : Option Entries := (readStatements t).bind tableOf

end QueryEditor.Toml
