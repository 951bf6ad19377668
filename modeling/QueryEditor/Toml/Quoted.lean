import QueryEditor.Number.Decimal

/-!
# Quoted TOML text

Text stands between quotes, where a backslash escapes, or between apostrophes, where nothing does.
Three marks open a text of several lines: a break right behind them is left out, a backslash at the
end of a line joins it with the next text, and up to two marks may stand in front of the closing
three. A break in the text is a line feed, however it is written.

* `readBreak`, `isPlain`;
* `readQuoted`: text on one line, `readLong`: text on several lines;
* `readText`: any of the four forms, with the rest behind it.
-/

namespace QueryEditor.Toml

def isSpace (c : Char) : Bool := c == ' ' || c == '\t'

/-- The rest behind a break of lines. -/
def readBreak : Text → Option Text
  | '\n' :: s => some s
  | '\r' :: '\n' :: s => some s
  | _ => none

/-- A character that stands for itself: neither a control character, the tab aside, nor the
deletion mark. -/
def isPlain (c : Char) : Bool := c == '\t' || (decide (0x20 ≤ c.toNat) && c.toNat != 0x7F)

/-- The character of a code point, unless it is a surrogate or too large. -/
def charOf? (n : Nat) : Option Char := if n.isValidChar then some (Char.ofNat n) else none

/-- The character with a code point of `count` hexadecimal digits. -/
def readCodePoint (count : Nat) (s : Text) : Option (Char × Text) := do
  let digits := s.take count
  if digits.length = count ∧ digits.all (isDigitOf 16) then
    let c ← charOf? (valueIn 16 digits)
    return (c, s.drop count)
  else none

/-- The character of an escape, behind the backslash. -/
def readEscape : Text → Option (Char × Text)
  | [] => none
  | c :: s =>
    match c with
    | 'b' => some ('\x08', s)
    | 't' => some ('\t', s)
    | 'n' => some ('\n', s)
    | 'f' => some ('\x0c', s)
    | 'r' => some ('\r', s)
    | '"' => some ('"', s)
    | '\\' => some ('\\', s)
    | 'u' => readCodePoint 4 s
    | 'U' => readCodePoint 8 s
    | _ => none

/-- The text behind an opening mark on one line, up to the mark; quotes allow escapes. -/
def readQuoted (mark : Char) (s : Text) : Option (Text × Text) :=
  match s with
  | [] => none
  | c :: r =>
    if c = mark then some ([], r)
    else if c = '\\' ∧ mark = '"' then do
      let (d, t) ← readEscape r
      if _shorter : t.length ≤ r.length then
        let (ds, u) ← readQuoted mark t
        return (d :: ds, u)
      else none
    else if isPlain c then do
      let (ds, u) ← readQuoted mark r
      return (c :: ds, u)
    else none
  termination_by s.length

/-- Blanks and breaks left out. -/
def skipBlankLines (s : Text) : Text :=
  match s with
  | '\r' :: '\n' :: r => skipBlankLines r
  | '\n' :: r => skipBlankLines r
  | c :: r => if isSpace c then skipBlankLines r else c :: r
  | [] => []

/-- The rest behind a joint: a backslash, of which the rest is given, at the end of a line. -/
def readJoint (s : Text) : Option Text := (readBreak (s.dropWhile isSpace)).map skipBlankLines

/-- The text behind three opening marks, up to three closing ones; quotes allow escapes. -/
def readLong (mark : Char) (s : Text) : Option (Text × Text) :=
  match s with
  | [] => none
  | c :: r =>
    if c = mark then
      let marks := (s.takeWhile (· == mark)).length
      if 5 < marks then none
      else if 3 ≤ marks then some (List.replicate (marks - 3) mark, s.drop marks)
      else do
        let (ds, u) ← readLong mark r
        return (c :: ds, u)
    else if c = '\\' ∧ mark = '"' then
      match readJoint r with
      | some t => if _shorter : t.length ≤ r.length then readLong mark t else none
      | none => do
        let (d, t) ← readEscape r
        if _shorter : t.length ≤ r.length then
          let (ds, u) ← readLong mark t
          return (d :: ds, u)
        else none
    else
      match readBreak s with
      | some t => do
        if _shorter : t.length ≤ r.length then
          let (ds, u) ← readLong mark t
          return ('\n' :: ds, u)
        else none
      | none => do
        if isPlain c then
          let (ds, u) ← readLong mark r
          return (c :: ds, u)
        else none
  termination_by s.length

/-- A text behind its first mark, of which three open a text of several lines. -/
def readText (mark : Char) (s : Text) : Option (Text × Text) :=
  match s with
  | a :: b :: r =>
    if a = mark ∧ b = mark then readLong mark ((readBreak r).getD r) else readQuoted mark s
  | _ => readQuoted mark s

end QueryEditor.Toml
