import QueryEditor.Unicode.Ranges

/-!
# White space

The Unicode property White_Space: the ASCII blanks, the next-line control, the no-break space and
the typographic spaces and separators. A zero-width space or a byte order mark is not in it.

* `whiteRanges`, `isWhite`.
-/

namespace QueryEditor.Unicode

/-- The code points with the property White_Space. -/
def whiteRanges : Ranges :=
  [(0x09, 0x0D), (0x20, 0x20), (0x85, 0x85), (0xA0, 0xA0), (0x1680, 0x1680), (0x2000, 0x200A),
   (0x2028, 0x2029), (0x202F, 0x202F), (0x205F, 0x205F), (0x3000, 0x3000)]

def isWhite (c : Char) : Bool := whiteRanges.has c

end QueryEditor.Unicode
