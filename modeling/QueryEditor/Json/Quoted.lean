import QueryEditor.Text.Basic

/-!
# Quoted JSON text

A text is written between quotes. A quote, a backslash and the control characters below the blank
are escaped, with the short escapes where there are some; everything else stands for itself.

* `escape`, `quote`.
-/

namespace QueryEditor.Json

def hexDigit (n : Nat) : Char := if n < 10 then Char.ofNat (48 + n) else Char.ofNat (87 + n)

/-- How a character is written between quotes. -/
def escape (c : Char) : Text :=
  if c = '"' then ['\\', '"']
  else if c = '\\' then ['\\', '\\']
  else if c = '\x08' then ['\\', 'b']
  else if c = '\x0c' then ['\\', 'f']
  else if c = '\n' then ['\\', 'n']
  else if c = '\r' then ['\\', 'r']
  else if c = '\t' then ['\\', 't']
  else if c.toNat < 0x20 then
    ['\\', 'u', '0', '0', hexDigit (c.toNat / 16), hexDigit (c.toNat % 16)]
  else [c]

def escapeAll (t : Text) : Text := t.flatMap escape

def quote (t : Text) : Text := '"' :: (escapeAll t ++ ['"'])

end QueryEditor.Json
