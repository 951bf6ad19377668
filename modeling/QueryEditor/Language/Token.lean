import QueryEditor.Number.Total
import QueryEditor.Text.Basic

/-!
# Tokens of a query line

A line is cut into tokens with no state carried over from the line before, so any rest of a line
can be read on its own. A glyph is an opening angle bracket with a closing one further on in the
line and something between; a string without its closing quote runs to the end of the line.

* `TokenKind`, `Token`;
* `leading`: the kind of the token at the front and how far it goes beyond its first character;
* `tokens`: the tokens of a line.
-/

namespace QueryEditor

inductive TokenKind where
  | keyword
  | operator
  | string
  | number
  | identifier
  | none
  deriving DecidableEq, Repr

/-- A token: its kind, the column where it starts, and its length. -/
structure Token where
  kind : TokenKind
  start : Nat
  length : Nat
  deriving DecidableEq, Repr

def Token.stop (t : Token) : Nat := t.start + t.length

namespace Token

def isNameStart (c : Char) : Bool := c.isAlpha || c == '_'

def isNameChar (c : Char) : Bool := c.isAlphanum || c == '_'

/-- The number of characters in front of the first `close`, if `close` comes at all. -/
def before? (close : Char) (rest : Text) : Option Nat := rest.findIdx? (· == close)

/-- The kind of the token that starts with `c` when `rest` follows, and the number of characters
of `rest` that belong to it. -/
def leading (c : Char) (rest : Text) : TokenKind × Nat :=
  match c, before? '>' rest with
  | '<', some (n + 1) => (.keyword, n + 2)
  | _, _ =>
    if c = '-' ∧ rest.head? = some '>' then (.operator, 1)
    else if c = '=' ∨ c = '<' ∨ c = '>' ∨ c = '!' then
      (.operator, if rest.head? = some '=' then 1 else 0)
    else if c = '&' ∨ c = '|' ∨ c = '~' then (.operator, 0)
    else if c = '\'' then
      match before? '\'' rest with
      | some n => (.string, n + 1)
      | none => (.string, rest.length)
    else if c.isDigit then (.number, (rest.takeWhile Char.isDigit).length)
    else if isNameStart c then (.identifier, (rest.takeWhile isNameChar).length)
    else (.none, 0)

/-- The kind and the length of the token at the front of a text. -/
def next? : Text → Option (TokenKind × Nat)
  | [] => none
  | c :: rest => some ((leading c rest).1, (leading c rest).2 + 1)

/-- The tokens of a text whose first character stands in column `column`. -/
def tokensFrom (column : Nat) : Text → List Token
  | [] => []
  | c :: rest =>
    let (kind, more) := leading c rest
    ⟨kind, column, more + 1⟩ :: tokensFrom (column + more + 1) (rest.drop more)
  termination_by t => t.length
  decreasing_by simp only [List.length_drop, List.length_cons]; omega

end Token

def tokens (line : Text) : List Token := Token.tokensFrom 0 line

namespace Token

theorem lt_of_before? {close : Char} {rest : Text} {n : Nat} (h : before? close rest = some n) :
    n < rest.length := (List.findIdx?_eq_some_iff_getElem.1 h).1

theorem leading_le (c : Char) (rest : Text) : (leading c rest).2 ≤ rest.length := by
  have head_some : ∀ a : Char, rest.head? = some a → 1 ≤ rest.length := by
    intro a h
    cases rest <;> simp_all
  have take_le : ∀ p : Char → Bool, (rest.takeWhile p).length ≤ rest.length := fun p =>
    (List.takeWhile_sublist p).length_le
  unfold leading
  split
  · exact lt_of_before? ‹_›
  · split
    · rename_i h
      exact head_some '>' h.2
    · split
      · split
        · exact head_some _ ‹_›
        · exact Nat.zero_le _
      · split
        · exact Nat.zero_le _
        · split
          · split
            · exact lt_of_before? ‹_›
            · exact Nat.le_refl _
          · split
            · exact take_le _
            · split
              · exact take_le _
              · exact Nat.zero_le _

end Token

end QueryEditor
