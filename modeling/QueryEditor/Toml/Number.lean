import QueryEditor.Toml.Moment
import QueryEditor.Toml.Value

/-!
# TOML numbers

A whole number has 64 bits with a sign, or is written in base sixteen, eight or two without one.
Digits may have underscores between them. A number with a point or an exponent is a float, and so
are infinity and the value that is no number; a float too large for double precision is refused,
unless it is negative.

* `readDigitsIn`, `readInteger`, `readFloat`;
* `isInfinite`: a decimal number rounds to infinity in double precision;
* `readNumber`: a moment, a float or a whole number, whichever it is.
-/

namespace QueryEditor.Toml

/-- Digits of a base behind others, each perhaps with an underscore before it; what is left starts
where they end. An underscore must have a digit behind it. -/
def readMoreDigits (base : Nat) : Text → Option (Text × Text)
  | [] => some ([], [])
  | ['_'] => none
  | '_' :: c :: s =>
    if isDigitOf base c then (readMoreDigits base s).map fun (ds, t) => (c :: ds, t) else none
  | c :: s =>
    if isDigitOf base c then (readMoreDigits base s).map fun (ds, t) => (c :: ds, t)
    else some ([], c :: s)

def readDigitsIn (base : Nat) : Text → Option (Text × Text)
  | [] => none
  | c :: s =>
    if isDigitOf base c then (readMoreDigits base s).map fun (ds, t) => (c :: ds, t) else none

/-- A text without a sign at its front, and whether the sign was a minus. -/
def readSign : Text → Bool × Text
  | '-' :: s => (true, s)
  | '+' :: s => (false, s)
  | s => (false, s)

/-- Decimal digits of a whole number: a leading zero stands alone. -/
def readWhole : Text → Option (Text × Text)
  | '0' :: s => some (['0'], s)
  | s => readDigitsIn 10 s

def integerMax : Nat := Nat.pow 2 63 - 1

/-- A whole number in another base than ten, behind its mark. -/
def readBased (base : Nat) (s : Text) : Option (Value × Text) := do
  let (digits, s) ← readDigitsIn base s
  let n := valueIn base digits
  if n ≤ integerMax then return (.integer n, s) else none

def readInteger : Text → Option (Value × Text)
  | '0' :: 'x' :: s => readBased 16 s
  | '0' :: 'o' :: s => readBased 8 s
  | '0' :: 'b' :: s => readBased 2 s
  | s => do
    let (negative, s) := readSign s
    let (digits, s) ← readWhole s
    let n := decimalValue digits
    if n ≤ integerMax + (if negative then 1 else 0) then
      return (.integer (if negative then -n else n), s)
    else none

/-- Decimal digits scaled by a power of ten are infinite in double precision: they are nearer to 2
to the 1024th than to any double below it. -/
def isInfinite (digits : Text) (power : Int) : Bool :=
  let n := decimalValue digits
  let bound := Nat.pow 2 1024 - Nat.pow 2 970
  let places := (Nat.repr n).length + power
  if n = 0 ∨ places < 309 then false
  else if 309 < places then true
  else if 0 ≤ power then decide (bound ≤ n * Nat.pow 10 power.toNat)
  else decide (bound * Nat.pow 10 (-power).toNat ≤ n)

/-- The exponent of a float, behind its letter: its value and its written form. -/
def readExponent (s : Text) : Option (Int × Text) := do
  let (negative, s) := readSign s
  let (digits, s) ← readDigitsIn 10 s
  let n := decimalValue digits
  return (if negative then -n else n, s)

/-- A float behind its sign: its digits and the power of ten that scales them. -/
def readScaled (s : Text) : Option (Text × Int × Text) := do
  let (whole, s) ← readWhole s
  let exponent (s : Text) : Option (Int × Text) :=
    match s with
    | c :: r => if c = 'e' ∨ c = 'E' then readExponent r else none
    | [] => none
  match s with
  | '.' :: s =>
    let (fraction, s) ← readDigitsIn 10 s
    let digits := whole ++ fraction
    match exponent s with
    | some (power, t) => return (digits, power - fraction.length, t)
    | none => return (digits, -fraction.length, s)
  | s =>
    let (power, t) ← exponent s
    return (whole, power, t)

/-- A text with a name at its front, without that name. -/
def readName (name : String) (s : Text) : Option Text :=
  if name.toList.isPrefixOf s then some (s.drop name.length) else none

def readFloat (s : Text) : Option (Value × Text) :=
  let (negative, r) := readSign s
  let written (t : Text) : Value := .float (s.take (s.length - t.length))
  match readScaled r with
  | some (digits, power, t) =>
    if isInfinite digits power && !negative then none else some (written t, t)
  | none => ((readName "inf" r).or (readName "nan" r)).map fun t => (written t, t)

def readNumber (s : Text) : Option (Value × Text) :=
  match readMoment s with
  | some (moment, t) => some (.moment moment, t)
  | none => (readFloat s).or (readInteger s)

end QueryEditor.Toml
