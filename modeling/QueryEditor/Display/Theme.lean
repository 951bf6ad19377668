import QueryEditor.Display.Color
import QueryEditor.Display.Highlight

/-!
# Themes

A theme gives each category of highlights a style. A category without a style of its own is shown
in the foreground colour.

* `Style`, `Theme`, `Theme.setStyle`, `Theme.style`;
* `Theme.relational`: the theme of the editor.
-/

namespace QueryEditor

structure Style where
  color : Color
  bold : Bool
  deriving DecidableEq, Repr

/-- A name, the two basic colours, and the styles set so far, the latest first. -/
structure Theme where
  name : Text
  background : Color
  foreground : Color
  styles : List (Category × Style)
  deriving DecidableEq, Repr

namespace Theme

/-- A theme without styles: dark grey on white. -/
def named (name : Text) : Theme :=
  ⟨name, .rgb 0xFF 0xFF 0xFF, .rgb 0x21 0x25 0x29, []⟩

def setStyle (t : Theme) (c : Category) (s : Style) : Theme :=
  { t with styles := (c, s) :: t.styles }

def style (t : Theme) (c : Category) : Style := (t.styles.lookup c).getD ⟨t.foreground, false⟩

/-- The theme of the editor. -/
def relational : Theme :=
  { named "Relational".toList with
    styles :=
      [(.keyword, ⟨.rgb 0xC9 0x2C 0x2C, true⟩), (.operator, ⟨.rgb 0x3B 0x5B 0xDB, false⟩),
       (.string, ⟨.rgb 0x2B 0x8A 0x3E, false⟩), (.number, ⟨.rgb 0xF0 0x8C 0x00, false⟩),
       (.identifier, ⟨.rgb 0x0B 0x72 0x85, false⟩)] }

end Theme

end QueryEditor
