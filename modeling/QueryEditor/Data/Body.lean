import QueryEditor.Json.Quoted
import QueryEditor.Json.Reader

/-!
# Bodies of requests

A request may come as a JSON object with the member `expression`, or as an array with the
expression alone. Without the member the expression is empty; other members are skipped.

* `Body.toJson`, `Body.ofJson`;
* `Body.readExpression`, `Body.readMembers`, `Body.readArray`.
-/

namespace QueryEditor.Body

open Json

def key : Text := "expression".toList

def toJson (expression : Text) : Text :=
  '\x7b' :: (quote key ++ ':' :: (quote expression ++ ['\x7d']))

/-- A value that must be a text. Another scalar is read to its end before it is refused, a
container is refused at once. -/
def readExpression (s : Text) : Except Fault (Text × Tail s) :=
  match next? s with
  | none => throw .ended
  | some (c, r) =>
    if c = '[' ∨ c = '\x7b' then throw .mismatched
    else do
      let (v, t) ← readScalarAt .built c r
      match v with
      | .string text => return (text, t)
      | _ => throw .mismatched

/-- The value of a member whose key has been read: `found` is the expression so far. -/
def readMember (name : Text) (found : Option Text) (s : Text) :
    Except Fault (Option Text × Tail s) :=
  if name = key then
    if found.isSome then throw .mismatched
    else do
      match next? s with
      | some (':', p) =>
        let (text, t) ← readExpression p.1
        return (some text, p.within t)
      | some _ => throw .malformed
      | none => throw .ended
  else do
    match next? s with
    | some (':', p) =>
      let (_, t) ← readValue .skipped 0 p.1
      return (found, p.within t)
    | some _ => throw .malformed
    | none => throw .ended

/-- The members of a body, at least one, and the closing brace. -/
def readMembers (found : Option Text) (s : Text) : Except Fault (Option Text × Tail s) := do
  match next? s with
  | some ('"', q) =>
    let (name, k) ← readString .built q.1
    let k := q.within k
    let (found, t) ← readMember name found k.1
    let t := k.within t
    match next? t.1 with
    | some (',', u) =>
      let (found, w) ← readMembers found (t.within u).1
      return (found, (t.within u).within w)
    | some ('\x7d', u) => return (found, t.within u)
    | some _ => throw .malformed
    | none => throw .ended
  | some _ => throw .malformed
  | none => throw .ended
  termination_by s.length
  decreasing_by exact (t.within u).2

/-- The only item of an array, and the closing bracket. -/
def readArray (s : Text) : Except Fault (Option Text × Tail s) := do
  let (text, t) ← readExpression s
  match next? t.1 with
  | some (']', u) => return (some text, t.within u)
  | some _ => throw .malformed
  | none => throw .ended

def readBody (s : Text) : Except Fault (Option Text × Tail s) :=
  match next? s with
  | none => throw .ended
  | some (c, r) =>
    if c = '[' then
      match next? r.1 with
      | some (']', t) => return (none, r.within t)
      | _ => do
        let (found, t) ← readArray r.1
        return (found, r.within t)
    else if c = '\x7b' then
      match next? r.1 with
      | some ('\x7d', t) => return (none, r.within t)
      | _ => do
        let (found, t) ← readMembers none r.1
        return (found, r.within t)
    else do
      let _ ← readScalarAt .built c r
      throw .mismatched

def ofJson (t : Text) : Except Fault Text := do
  let (found, rest) ← readBody t
  atEnd rest.1
  return found.getD []

end QueryEditor.Body
