import QueryEditor.Text.Basic

/-!
# JSON values

* `Numeral`: a number as it is written;
* `Value`: objects keep their members as written, repeated keys included;
* `Value.member?`: of members with one key the last counts;
* `Value.keys?`: the keys of an object, each once, in the order of code points;
* **`insertKey_mem`**: the keys are those that were put in.
-/

namespace QueryEditor.Json

/-- A number as it is written: a sign, whole digits, digits behind the point, and an exponent with
its sign. -/
structure Numeral where
  negative : Bool
  whole : Text
  fraction : Text
  exponent : Option (Bool × Text)
  deriving DecidableEq, Repr

inductive Value where
  | null
  | bool (b : Bool)
  | number (n : Numeral)
  | string (t : Text)
  | array (items : List Value)
  | object (members : List (Text × Value))
  deriving Repr

/-- A key put into ascending keys, once. -/
def insertKey (k : Text) : List Text → List Text
  | [] => [k]
  | x :: xs => if k < x then k :: x :: xs else if k = x then x :: xs else x :: insertKey k xs

theorem insertKey_mem (k x : Text) (xs : List Text) :
    x ∈ insertKey k xs ↔ x = k ∨ x ∈ xs := by
  induction xs with
  | nil => simp [insertKey]
  | cons y ys ih =>
    unfold insertKey
    split
    · simp
    · split
      · rename_i h
        subst h
        simp
      · simp only [List.mem_cons, ih]
        grind

namespace Value

def members? : Value → Option (List (Text × Value))
  | object members => some members
  | _ => none

/-- The value of the last member with a key. -/
def lastOf (key : Text) (members : List (Text × Value)) : Option Value :=
  members.reverse.lookup key

def member? (v : Value) (key : Text) : Option Value := v.members?.bind (lastOf key)

/-- The keys of members, each once, in ascending order. -/
def keysOf (members : List (Text × Value)) : List Text :=
  members.foldl (fun keys m => insertKey m.1 keys) []

def keys? (v : Value) : Option (List Text) := v.members?.map keysOf

end Value

end QueryEditor.Json
