import QueryEditor.Unicode.White

/-!
# Texts

A text is a list of characters; positions and lengths count characters.

* `trimStart`, `trimEnd`, `trim`: a text without the white space at its ends;
* `isBlank`: nothing but white space;
* `joinWith`: pieces with a separator between them;
* `cut`: the part of a text between two positions, `splice`: that part replaced;
* **`isBlank_iff`**: a text is blank when trimming leaves nothing of it.
-/

namespace QueryEditor

/-- A text, as the list of its characters. -/
abbrev Text : Type := List Char

namespace Text

open Unicode

/-- The text from its first character that is not white space. -/
def trimStart (t : Text) : Text := t.dropWhile isWhite

/-- The text up to its last character that is not white space. -/
def trimEnd (t : Text) : Text := (t.reverse.dropWhile isWhite).reverse

def trim (t : Text) : Text := (t.trimStart).trimEnd

def isBlank (t : Text) : Bool := t.all isWhite

/-- The pieces in order, with the separator between them. -/
def joinWith (sep : Text) (pieces : List Text) : Text := sep.intercalate pieces

/-- The part of a text between two positions; a position past the end stands for the end. -/
def cut (t : Text) (start stop : Nat) : Text := (t.take stop).drop start

/-- The text with what lies between two positions replaced by `new`. -/
def splice (t : Text) (start stop : Nat) (new : Text) : Text :=
  t.take start ++ new ++ t.drop stop

/-! ## Joined texts -/

theorem joinWith_singleton (sep piece : Text) : joinWith sep [piece] = piece :=
  List.intercalate_singleton

theorem joinWith_cons_cons (sep piece next : Text) (pieces : List Text) :
    joinWith sep (piece :: next :: pieces) = piece ++ (sep ++ joinWith sep (next :: pieces)) := by
  rw [joinWith, List.intercalate_cons_cons, joinWith, List.append_assoc]

/-! ## Blank texts -/

theorem isBlank_iff (t : Text) : isBlank t = true ↔ trim t = [] := by
  have drop_nil : ∀ l : Text, l.dropWhile isWhite = [] ↔ l.all isWhite = true := by
    intro l
    induction l with
    | nil => simp
    | cons c r ih => by_cases h : isWhite c <;> simp [h, ih]
  have drop_head : ∀ l : Text, (l.dropWhile isWhite).all isWhite = true ↔
      l.all isWhite = true := by
    intro l
    induction l with
    | nil => simp
    | cons c r ih => by_cases h : isWhite c <;> simp [h, ih]
  unfold trim trimEnd trimStart isBlank
  rw [List.reverse_eq_nil_iff, drop_nil, List.all_reverse, drop_head]

/-! ## Parts of a text -/

theorem cut_append (x y z : Text) : (x ++ (y ++ z)).cut x.length (x ++ y).length = y := by
  rw [cut, ← List.append_assoc, List.take_left, List.drop_left]

theorem cut_append_drop (t : Text) {start stop : Nat} (h : start ≤ stop) :
    t.cut start stop ++ t.drop stop = t.drop start := by
  have hrest : t.drop stop = (t.drop start).drop (stop - start) := by
    rw [List.drop_drop, Nat.add_sub_cancel' h]
  rw [cut, List.drop_take, hrest, List.take_append_drop]

theorem cut_append_cut (t : Text) {start middle stop : Nat} (hstart : start ≤ middle)
    (hstop : middle ≤ stop) : t.cut start middle ++ t.cut middle stop = t.cut start stop := by
  have hfront : t.take middle = (t.take stop).take middle := by
    rw [List.take_take, Nat.min_eq_left hstop]
  rw [cut, hfront]
  exact cut_append_drop (t.take stop) hstart

theorem length_splice (t new : Text) {start stop : Nat} (h : start ≤ t.length) :
    (splice t start stop new).length = start + new.length + (t.length - stop) := by
  simp [splice, Nat.min_eq_left h, Nat.add_assoc]

end Text

end QueryEditor
