import QueryEditor.Toml.Number
import QueryEditor.Toml.Quoted

/-!
# Reading TOML

A document is a list of statements, one to a line: a header that names a table, a header that adds
a table to a list of tables, or a key with a value. Keys may be dotted. Arrays may go over several
lines and have comments in them, tables in braces may not. At most 79 arrays and braces may be open
at a time, and a dotted key has at most 79 parts.

* `Statement`;
* `readKey`, `readValue`, `readItems`, `readPairs`;
* `readStatements`: the statements of a document.
-/

namespace QueryEditor.Toml

inductive Statement where
  | header (path : List Text)
  | arrayHeader (path : List Text)
  | pair (path : List Text) (v : Value)
  deriving Repr

/-- One more than the number of open brackets, and of parts of a key, that is allowed. -/
def depthLimit : Nat := 80

def skipSpace (s : Text) : Text := s.dropWhile isSpace

def skipComment : Text → Text
  | '#' :: s => s.dropWhile isPlain
  | s => s

/-! ## Keys -/

def isBare (c : Char) : Bool := c.isAlphanum || c == '-' || c == '_'

def readPart (s : Text) : Option (Text × Text) :=
  match s with
  | '"' :: r => readQuoted '"' r
  | '\'' :: r => readQuoted '\'' r
  | _ =>
    let name := s.takeWhile isBare
    if name.isEmpty then none else some (name, s.dropWhile isBare)

/-- The parts of a key, with blanks around each. -/
def readPath (s : Text) : Option (List Text × Text) := do
  let (part, t) ← readPart (skipSpace s)
  match skipSpace t with
  | '.' :: u =>
    if _shorter : u.length < s.length then
      let (parts, w) ← readPath u
      return (part :: parts, w)
    else none
  | u => return ([part], u)
  termination_by s.length

def readKey (s : Text) : Option (List Text × Text) := do
  let (path, t) ← readPath s
  if path.length < depthLimit then return (path, t) else none

/-! ## Tables from keys -/

/-- The entries with a value at a path of dotted keys. Tables that are not there yet are made; a
table on the way must be open to dotted keys, and the one that receives the value must be made by
them; a list of tables stands for its last. -/
def putAt (v : Value) (es : Entries) : List Text → Option Entries
  | [] => none
  | [key] => if (es.find? key).isSome then none else some (es.put key v)
  | key :: next :: path =>
    match es.find? key with
    | none => do
      let sub ← putAt v [] (next :: path)
      return es.put key (.table .dotted sub)
    | some (.table origin sub) => do
      if origin = .dotted ∨ (origin = .path ∧ path ≠ []) then
        let sub ← putAt v sub (next :: path)
        return es.put key (.table origin sub)
      else none
    | some (.tables items) => do
      let last ← items.getLast?
      if path = [] then none
      else
        let last ← putAt v last (next :: path)
        return es.put key (.tables (items.dropLast ++ [last]))
    | some _ => none

/-! ## Values -/

/-- Blanks, comments and breaks left out. A comment must end with its line. -/
def skipGaps (s : Text) : Option Text :=
  match skipSpace s with
  | [] => some []
  | c :: r =>
    if c = '#' ∨ c = '\n' ∨ c = '\r' then do
      let t ← readBreak (skipComment (c :: r))
      if _shorter : t.length < s.length then skipGaps t else none
    else some (c :: r)
  termination_by s.length

mutual

/-- A value inside `opened` brackets. -/
def readValue (opened : Nat) (s : Text) : Option (Value × Text) :=
  match s with
  | [] => none
  | c :: r =>
    if c = '"' ∨ c = '\'' then (readText c r).map fun (t, u) => (.string t, u)
    else if c = '[' then do
      if depthLimit ≤ opened + 1 then none
      else
        let t ← skipGaps r
        match t with
        | ']' :: u => return (.array [], u)
        | _ =>
          if _shorter : t.length < (c :: r).length then
            let (items, u) ← readItems (opened + 1) t
            return (.array items, u)
          else none
    else if c = '\x7b' then do
      if depthLimit ≤ opened + 1 then none
      else
        match skipSpace r with
        | '\x7d' :: u => return (.table .braces [], u)
        | t =>
          if _shorter : t.length < (c :: r).length then
            let (entries, u) ← readPairs (opened + 1) [] t
            return (.table .braces entries, u)
          else none
    else if c = 't' then (readName "true" s).map fun t => (.boolean true, t)
    else if c = 'f' then (readName "false" s).map fun t => (.boolean false, t)
    else readNumber s
  termination_by (s.length, 0)
  decreasing_by all_goals exact Prod.Lex.left _ _ _shorter

/-- The items of an array, at least one, and its closing bracket; a comma may stand behind the
last. -/
def readItems (opened : Nat) (s : Text) : Option (List Value × Text) := do
  let (v, t) ← readValue opened s
  let t ← skipGaps t
  match t with
  | ',' :: u => do
    let u ← skipGaps u
    match u with
    | ']' :: w => return ([v], w)
    | _ =>
      if _shorter : u.length < s.length then
        let (vs, w) ← readItems opened u
        return (v :: vs, w)
      else none
  | ']' :: u => return ([v], u)
  | _ => none
  termination_by (s.length, 1)
  decreasing_by
    · exact Prod.Lex.right _ (by omega)
    · exact Prod.Lex.left _ _ _shorter

/-- The pairs of a table in braces, at least one, added to the entries so far, and the closing
brace. -/
def readPairs (opened : Nat) (es : Entries) (s : Text) : Option (Entries × Text) := do
  let (path, t) ← readKey s
  match t with
  | '=' :: u =>
    let u := skipSpace u
    if _shorter : u.length < s.length then
      let (v, w) ← readValue opened u
      let es ← putAt v es path
      match skipSpace w with
      | ',' :: x => if _shorter' : x.length < s.length then readPairs opened es x else none
      | '\x7d' :: x => return (es, x)
      | _ => none
    else none
  | _ => none
  termination_by (s.length, 1)
  decreasing_by
    · exact Prod.Lex.left _ _ _shorter
    · exact Prod.Lex.left _ _ _shorter'

end

/-! ## Statements -/

/-- The end of a line behind a statement: blanks, a comment, and a break or the end of the text. -/
def readLineEnd (s : Text) : Option Text :=
  match skipComment (skipSpace s) with
  | [] => some []
  | t => readBreak t

def readStatement : Text → Option (Statement × Text)
  | '[' :: '[' :: s => do
    let (path, t) ← readKey s
    match t with
    | ']' :: ']' :: u => return (.arrayHeader path, u)
    | _ => none
  | '[' :: s => do
    let (path, t) ← readKey s
    match t with
    | ']' :: u => return (.header path, u)
    | _ => none
  | s => do
    let (path, t) ← readKey s
    match t with
    | '=' :: u =>
      let (v, w) ← readValue 0 (skipSpace u)
      return (.pair path v, w)
    | _ => none

def readLines (s : Text) : Option (List Statement) :=
  match skipSpace s with
  | [] => some []
  | c :: r =>
    if c = '#' ∨ c = '\n' ∨ c = '\r' then do
      let t ← readLineEnd (c :: r)
      if _shorter : t.length < s.length then readLines t else none
    else do
      let (statement, t) ← readStatement (c :: r)
      let u ← readLineEnd t
      if _shorter : u.length < s.length then
        let statements ← readLines u
        return statement :: statements
      else none
  termination_by s.length

/-- The statements of a document, in front of which a byte order mark may stand. -/
def readStatements : Text → Option (List Statement)
  | '\uFEFF' :: s => readLines s
  | s => readLines s

end QueryEditor.Toml
