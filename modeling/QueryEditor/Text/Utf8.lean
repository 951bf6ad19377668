import QueryEditor.Text.Basic

/-!
# Texts as bytes

A text is written as bytes in UTF-8. Bytes that are no text are still read: every longest start of
a character that breaks off, and every byte that cannot start one, counts as one replacement
character.

* `encode`, `decode`, `isText`;
* `leadByte`: what the first byte of a character says about the following ones;
* **`decode_cons`**: reading goes on behind each character.
-/

namespace QueryEditor.Utf8

def encode (t : Text) : List UInt8 := t.flatMap String.utf8EncodeChar

/-- The character that stands for bytes that are no text. -/
def replacement : Char := '\uFFFD'

def isContinuation (b : UInt8) : Bool := decide (0x80 ≤ b) && decide (b ≤ 0xBF)

/-- How many bytes follow the first byte of a character, with the bounds of the second. -/
def leadByte (b : UInt8) : Option (Nat × UInt8 × UInt8) :=
  if b < 0x80 then some (0, 0, 0)
  else if b < 0xC2 then none
  else if b < 0xE0 then some (1, 0x80, 0xBF)
  else if b = 0xE0 then some (2, 0xA0, 0xBF)
  else if b = 0xED then some (2, 0x80, 0x9F)
  else if b < 0xF0 then some (2, 0x80, 0xBF)
  else if b = 0xF0 then some (3, 0x90, 0xBF)
  else if b < 0xF4 then some (3, 0x80, 0xBF)
  else if b = 0xF4 then some (3, 0x80, 0x8F)
  else none

/-- The bytes, up to `more` of them, that go on a character whose second byte has the given
bounds. -/
def following (more : Nat) (low high : UInt8) : List UInt8 → List UInt8
  | [] => []
  | b :: r =>
    if more ≠ 0 ∧ low ≤ b ∧ b ≤ high then b :: (r.take (more - 1)).takeWhile isContinuation
    else []

/-- The code point written in bytes, the first of which has `bits` payload bits. -/
def codePoint (bits : Nat) (b : UInt8) (rest : List UInt8) : Nat :=
  rest.foldl (fun n c => n * 64 + c.toNat % 64) (b.toNat % Nat.pow 2 bits)

/-- The character at the front of bytes that start with `b`, if it is whole, and the number of
bytes behind `b` that belong to it or to its start. -/
def front (b : UInt8) (rest : List UInt8) : Option Char × Nat :=
  match leadByte b with
  | none => (none, 0)
  | some (more, low, high) =>
    let tail := following more low high rest
    if tail.length = more then
      (some (Char.ofNat (codePoint (if more = 0 then 7 else 6 - more) b tail)), more)
    else (none, tail.length)

/-- The characters of bytes; none stands for bytes that are no text. -/
def characters : List UInt8 → List (Option Char)
  | [] => []
  | b :: rest => (front b rest).1 :: characters (rest.drop (front b rest).2)
  termination_by bs => bs.length
  decreasing_by simp only [List.length_drop, List.length_cons]; omega

/-- The text of bytes, with replacement characters where they are no text. -/
def decode (bs : List UInt8) : Text := (characters bs).map (·.getD replacement)

def isText (bs : List UInt8) : Bool := (characters bs).all Option.isSome

/-- The text of bytes that are one. -/
def decode? (bs : List UInt8) : Option Text := if isText bs then some (decode bs) else none

/-- **Reading goes on behind each character.** -/
theorem decode_cons (b : UInt8) (rest : List UInt8) :
    decode (b :: rest) =
      (front b rest).1.getD replacement :: decode (rest.drop (front b rest).2) := by
  rw [decode, characters, List.map_cons, ← decode]

end QueryEditor.Utf8
