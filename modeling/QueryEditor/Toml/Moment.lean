import QueryEditor.Number.Decimal
import QueryEditor.Text.Tail

/-!
# Dates and times

A moment is a date, a time, or both with an offset from universal time or without one. It is kept
as it is written in full: two digits for hours, minutes and seconds, a `T` before the time, and at
most nine digits of a second without zeros at their end.

* `readNumberOf`: a number of a fixed count of digits in bounds;
* `daysIn`: the days of a month;
* `readDate`, `readTime`, `readOffset`, `readMoment`.
-/

namespace QueryEditor.Toml

def readNumberOf (count low high : Nat) (s : Text) : Option (Nat × Text) :=
  let digits := s.take count
  let n := decimalValue digits
  if digits.length = count ∧ digits.all Char.isDigit ∧ low ≤ n ∧ n ≤ high then
    some (n, s.drop count)
  else none

/-- The rest behind a character. -/
def readMark (c : Char) : Text → Option Text
  | [] => none
  | d :: r => if c = d then some r else none

def daysIn (year month : Nat) : Nat :=
  if month = 2 then
    if year % 4 = 0 ∧ (year % 100 ≠ 0 ∨ year % 400 = 0) then 29 else 28
  else if month = 4 ∨ month = 6 ∨ month = 9 ∨ month = 11 then 30
  else 31

def readDate (s : Text) : Option (Text × Text) := do
  let (year, s) ← readNumberOf 4 0 9999 s
  let s ← readMark '-' s
  let (month, s) ← readNumberOf 2 1 12 s
  let s ← readMark '-' s
  let (day, s) ← readNumberOf 2 1 (daysIn year month) s
  return (padded 4 year ++ '-' :: (padded 2 month ++ '-' :: padded 2 day), s)

/-- The parts of a second, if there are any: nine digits count. -/
def readParts : Text → Text × Text
  | '.' :: s =>
    let digits := s.takeWhile Char.isDigit
    if digits.isEmpty then ([], '.' :: s)
    else
      let kept := ((digits.take 9).reverse.dropWhile (· == '0')).reverse
      (if kept.isEmpty then [] else '.' :: kept, s.dropWhile Char.isDigit)
  | s => ([], s)

def readTime (s : Text) : Option (Text × Text) := do
  let (hour, s) ← readNumberOf 2 0 23 s
  let s ← readMark ':' s
  let (minute, s) ← readNumberOf 2 0 59 s
  let s ← readMark ':' s
  let (second, s) ← readNumberOf 2 0 60 s
  let (parts, s) := readParts s
  return (padded 2 hour ++ ':' :: (padded 2 minute ++ ':' :: (padded 2 second ++ parts)), s)

/-- An offset from universal time; a zero offset is not negative. -/
def readOffset : Text → Option (Text × Text)
  | [] => none
  | c :: s =>
    if c = 'Z' ∨ c = 'z' then some (['Z'], s)
    else if c = '+' ∨ c = '-' then do
      let (hour, s) ← readNumberOf 2 0 23 s
      let s ← readMark ':' s
      let (minute, s) ← readNumberOf 2 0 59 s
      let sign := if hour = 0 ∧ minute = 0 then '+' else c
      return (sign :: (padded 2 hour ++ ':' :: padded 2 minute), s)
    else none

/-- A time behind a date, if there is one: a letter or a blank comes first. -/
def readTimeOfDate : Text → Text × Text
  | [] => ([], [])
  | c :: s =>
    if c = 'T' ∨ c = 't' ∨ c = ' ' then
      match readTime s with
      | none => ([], c :: s)
      | some (time, s) =>
        match readOffset s with
        | none => ('T' :: time, s)
        | some (offset, s) => ('T' :: (time ++ offset), s)
    else ([], c :: s)

/-- A moment as it is written in full, and the rest behind it. -/
def readMoment (s : Text) : Option (Text × Text) :=
  match readDate s with
  | some (date, s) => let (time, s) := readTimeOfDate s; some (date ++ time, s)
  | none => readTime s

end QueryEditor.Toml
