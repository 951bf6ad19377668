import QueryEditor.Json.Number
import QueryEditor.Number.Total
import QueryEditor.Text.Tail

/-!
# Reading JSON

A value is either built or only skipped. A built value is checked in full: at most 127 containers
may be open at a time, numbers must be in range, and escaped surrogates must come in pairs. A
skipped value is checked for its grammar alone. Blanks are the space, the tab and the line breaks.

* `Fault`: why a text is refused, `Care`: built or skipped;
* `readString`, `readNumber`, `readValue`, `readItems`, `readMembers`;
* `parse`: the value of a whole text.
-/

namespace QueryEditor.Json

/-- Why a text is refused: it ends inside a value, it is no JSON, or it is JSON of another shape
than the reader wants. -/
inductive Fault where
  | ended
  | malformed
  | mismatched
  deriving DecidableEq, Repr

/-- Whether a value is built or skipped. -/
inductive Care where
  | built
  | skipped
  deriving DecidableEq, Repr

def isGap (c : Char) : Bool := c == ' ' || c == '\t' || c == '\n' || c == '\r'

/-- The first character of the next token, and what follows it. -/
def next? (s : Text) : Option (Char × Tail s) := skipWhile? isGap s

def behind (c : Char) (r : Text) : Tail (c :: r) := ⟨r, by simp⟩

/-- The fault of a text that does not go on as it must. -/
def broken : Text → Fault
  | [] => .ended
  | _ :: _ => .malformed

/-! ## Strings -/

def byteLength (s : Text) : Nat := total (s.map Char.utf8Size)

/-- Four hexadecimal digits. With fewer than four bytes left the text has ended. -/
def readHex : (s : Text) → Except Fault (Nat × Tail s)
  | a :: b :: c :: d :: r =>
    match hexValue? a, hexValue? b, hexValue? c, hexValue? d with
    | some a', some b', some c', some d' =>
      .ok (((a' * 16 + b') * 16 + c') * 16 + d', ⟨r, by simp only [List.length_cons]; omega⟩)
    | _, _, _, _ => .error .malformed
  | s => .error (if byteLength s < 4 then .ended else .malformed)

/-- A code unit that opens a surrogate pair. -/
def isHigh (n : Nat) : Bool := decide (0xD800 ≤ n) && decide (n ≤ 0xDBFF)

/-- A code unit that closes a surrogate pair. -/
def isLow (n : Nat) : Bool := decide (0xDC00 ≤ n) && decide (n ≤ 0xDFFF)

/-- The second half of a surrogate pair, behind its first half `high`. -/
def readLow (high : Nat) : (s : Text) → Except Fault (Char × Tail s)
  | '\\' :: 'u' :: r => do
    let (low, t) ← readHex r
    if isLow low then
      return (Char.ofNat (0x10000 + (high - 0xD800) * 0x400 + (low - 0xDC00)),
        Tail.within ⟨r, by simp only [List.length_cons]; omega⟩ t)
    else throw .malformed
  | ['\\'] => throw .ended
  | s => throw (broken s)

/-- The character of an escape, behind the backslash. -/
def readEscape (care : Care) : (s : Text) → Except Fault (Char × Tail s)
  | [] => throw .ended
  | c :: r =>
    match c with
    | '"' => return ('"', behind c r)
    | '\\' => return ('\\', behind c r)
    | '/' => return ('/', behind c r)
    | 'b' => return ('\x08', behind c r)
    | 'f' => return ('\x0c', behind c r)
    | 'n' => return ('\n', behind c r)
    | 'r' => return ('\r', behind c r)
    | 't' => return ('\t', behind c r)
    | 'u' => do
      let (unit, t) ← readHex r
      let t := Tail.within (behind c r) t
      match care with
      | .skipped => return (Char.ofNat unit, t)
      | .built =>
        if isLow unit then throw .malformed
        else if isHigh unit then
          let (high, u) ← readLow unit t.1
          return (high, t.within u)
        else return (Char.ofNat unit, t)
    | _ => throw .malformed

/-- The characters of a string, behind its opening quote. -/
def readString (care : Care) (s : Text) : Except Fault (Text × Tail s) :=
  match s with
  | [] => throw .ended
  | c :: r =>
    if c = '"' then return ([], behind c r)
    else if c = '\\' then do
      let (d, t) ← readEscape care r
      let t := Tail.within (behind c r) t
      let (ds, u) ← readString care t.1
      return (d :: ds, t.within u)
    else if c.toNat < 0x20 then throw .malformed
    else do
      let (ds, u) ← readString care r
      return (c :: ds, Tail.within (behind c r) u)
  termination_by s.length
  decreasing_by
    · exact t.2
    · simp

/-! ## Numbers -/

/-- The fault of a number that lacks a digit. Only a built value tells the end of the text from
another character. -/
def noDigit (care : Care) (s : Text) : Fault :=
  match care with
  | .built => broken s
  | .skipped => .malformed

def readDigits (care : Care) (s : Text) : Except Fault (Text × Tail s) :=
  match s with
  | [] => throw (noDigit care [])
  | c :: r =>
    if c.isDigit then
      let (digits, t) := takeRun Char.isDigit r
      return (c :: digits, ⟨t.1, by have := t.2; simp only [List.length_cons]; omega⟩)
    else throw (noDigit care (c :: r))

def readWhole (care : Care) (s : Text) : Except Fault (Text × Tail s) := do
  let (digits, t) ← readDigits care s
  if digits.head? = some '0' ∧ digits.length ≠ 1 then throw .malformed else return (digits, t)

abbrev Rest (s : Text) : Type := { t : Text // t.length ≤ s.length }

def readFraction (care : Care) : (s : Text) → Except Fault (Text × Rest s)
  | '.' :: r => do
    let (digits, t) ← readDigits care r
    return (digits, ⟨t.1, by have := t.2; simp only [List.length_cons]; omega⟩)
  | s => return ([], ⟨s, Nat.le_refl _⟩)

def readSign : (s : Text) → Bool × Rest s
  | '-' :: r => (true, ⟨r, by simp⟩)
  | '+' :: r => (false, ⟨r, by simp⟩)
  | s => (false, ⟨s, Nat.le_refl _⟩)

/-- The exponent, if there is one: its sign and its digits. -/
def readExponent (care : Care) : (s : Text) → Except Fault (Option (Bool × Text) × Rest s)
  | [] => return (none, ⟨[], Nat.le_refl _⟩)
  | c :: r =>
    if c = 'e' ∨ c = 'E' then do
      let (negative, t) := readSign r
      let (digits, u) ← readDigits care t.1
      return (some (negative, digits),
        ⟨u.1, by have := t.2; have := u.2; simp only [List.length_cons]; omega⟩)
    else return (none, ⟨c :: r, Nat.le_refl _⟩)

def readUnsigned (care : Care) (negative : Bool) (s : Text) : Except Fault (Numeral × Tail s) := do
  let (whole, t) ← readWhole care s
  let (fraction, u) ← readFraction care t.1
  let (exponent, v) ← readExponent care u.1
  let n : Numeral := ⟨negative, whole, fraction, exponent⟩
  if care = .built ∧ n.inRange = false then throw .malformed
  else return (n, ⟨v.1, by have := t.2; have := u.2; have := v.2; omega⟩)

def readNumber (care : Care) : (s : Text) → Except Fault (Numeral × Tail s)
  | '-' :: r => do
    let (n, t) ← readUnsigned care true r
    return (n, Tail.within (behind '-' r) t)
  | s => readUnsigned care false s

/-! ## Values -/

/-- The rest of a text behind the characters of a name. -/
def readName : (name s : Text) → Except Fault (Rest s)
  | [], s => return ⟨s, Nat.le_refl _⟩
  | _ :: _, [] => throw .ended
  | a :: name, c :: r => do
    if a = c then
      let t ← readName name r
      return ⟨t.1, by have := t.2; simp only [List.length_cons]; omega⟩
    else throw .malformed

/-- A number of open containers that is too many for a built value. -/
def tooDeep (care : Care) (opened : Nat) : Bool := care == .built && decide (128 ≤ opened)

/-- A value without items or members: `c` is its first character and `r` what follows. -/
def readScalar (care : Care) (c : Char) (r : Text) : Except Fault (Value × Tail (c :: r)) :=
  let named (name : String) (v : Value) : Except Fault (Value × Tail (c :: r)) := do
    let t ← readName name.toList r
    return (v, ⟨t.1, by have := t.2; simp only [List.length_cons]; omega⟩)
  if c = 'n' then named "ull" .null
  else if c = 't' then named "rue" (.bool true)
  else if c = 'f' then named "alse" (.bool false)
  else if c = '"' then do
    let (text, t) ← readString care r
    return (.string text, Tail.within (behind c r) t)
  else if c = '-' ∨ c.isDigit then do
    let (n, t) ← readNumber care (c :: r)
    return (.number n, t)
  else throw .malformed

/-- A scalar whose first character has been looked up behind blanks. -/
def readScalarAt (care : Care) {s : Text} (c : Char) (r : Tail s) :
    Except Fault (Value × Tail s) := do
  let (v, t) ← readScalar care c r.1
  return (v, ⟨t.1, Nat.lt_of_lt_of_le t.2 r.2⟩)

mutual

/-- A value at the front of a text, inside `opened` containers. -/
def readValue (care : Care) (opened : Nat) (s : Text) : Except Fault (Value × Tail s) :=
  match next? s with
  | none => throw .ended
  | some (c, r) =>
    if c = '[' then
      if tooDeep care (opened + 1) then throw .malformed
      else
        match next? r.1 with
        | some (']', t) => return (.array [], r.within t)
        | _ => do
          let (items, t) ← readItems care (opened + 1) r.1
          return (.array items, r.within t)
    else if c = '\x7b' then
      if tooDeep care (opened + 1) then throw .malformed
      else
        match next? r.1 with
        | some ('\x7d', t) => return (.object [], r.within t)
        | _ => do
          let (members, t) ← readMembers care (opened + 1) r.1
          return (.object members, r.within t)
    else readScalarAt care c r
  termination_by (s.length, 0)
  decreasing_by
    · exact Prod.Lex.left _ _ r.2
    · exact Prod.Lex.left _ _ r.2

/-- The items of an array, at least one, and its closing bracket. -/
def readItems (care : Care) (opened : Nat) (s : Text) : Except Fault (List Value × Tail s) := do
  let (v, t) ← readValue care opened s
  match next? t.1 with
  | some (',', u) =>
    let (vs, w) ← readItems care opened (t.within u).1
    return (v :: vs, (t.within u).within w)
  | some (']', u) => return ([v], t.within u)
  | some _ => throw .malformed
  | none => throw .ended
  termination_by (s.length, 1)
  decreasing_by
    · exact Prod.Lex.right _ (by omega)
    · exact Prod.Lex.left _ _ (t.within u).2

/-- The members of an object, at least one, and its closing brace. -/
def readMembers (care : Care) (opened : Nat) (s : Text) :
    Except Fault (List (Text × Value) × Tail s) := do
  match next? s with
  | some ('"', q) =>
    let (key, k) ← readString care q.1
    let k := q.within k
    match next? k.1 with
    | some (':', p) =>
      let p := k.within p
      let (v, t) ← readValue care opened p.1
      let t := p.within t
      match next? t.1 with
      | some (',', u) =>
        let (ms, w) ← readMembers care opened (t.within u).1
        return ((key, v) :: ms, (t.within u).within w)
      | some ('\x7d', u) => return ([(key, v)], t.within u)
      | some _ => throw .malformed
      | none => throw .ended
    | some _ => throw .malformed
    | none => throw .ended
  | some _ => throw .malformed
  | none => throw .ended
  termination_by (s.length, 1)
  decreasing_by
    · exact Prod.Lex.left _ _ p.2
    · exact Prod.Lex.left _ _ (t.within u).2

end

/-- Nothing but blanks is left. -/
def atEnd (s : Text) : Except Fault Unit :=
  match next? s with
  | none => return ()
  | some _ => throw .malformed

def parse (t : Text) : Except Fault Value := do
  let (v, rest) ← readValue .built 0 t
  atEnd rest.1
  return v

end QueryEditor.Json
