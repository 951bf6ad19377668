import QueryEditor.Json.Quoted
import QueryEditor.Json.Reader

/-!
# How JSON may be written

What the readers are meant to read, said without them. A character has many spellings between
quotes; a value has many layouts, as blanks may stand between any two tokens and containers may be
nested to any depth.

* `Spelling`, `Spells`: the spellings of a character and of a text between quotes;
* `IsNumber`: the numbers;
* `Written`: values, with the lists of items and members inside them;
* **`spells_escapeAll`**: the escapes of a text spell it.
-/

namespace QueryEditor.Json

/-- Blanks that stand between two tokens, or none. -/
def IsGap (g : Text) : Prop := g.all isGap = true

instance (g : Text) : Decidable (IsGap g) := inferInstanceAs (Decidable (g.all isGap = true))

/-! ## Between quotes -/

/-- Four hexadecimal digits of either case, with their value. -/
def HexUnit (n : Nat) (w : Text) : Prop :=
  w.length = 4 ∧ w.all (isDigitOf 16) = true ∧ valueIn 16 w = n

instance (n : Nat) (w : Text) : Decidable (HexUnit n w) :=
  inferInstanceAs (Decidable (_ ∧ _ ∧ _))

/-- The letters that stand for a character behind a backslash. -/
def shortEscapes : List (Char × Char) :=
  [('"', '"'), ('\\', '\\'), ('/', '/'), ('b', '\x08'), ('f', '\x0c'), ('n', '\n'), ('r', '\r'),
    ('t', '\t')]

/-- The ways to write a character between quotes. In a text that is built, code units that are
surrogates come in pairs; one that is skipped may have any code units. -/
inductive Spelling : Care → Char → Text → Prop
  | plain {care c} : c ≠ '"' → c ≠ '\\' → 0x20 ≤ c.toNat → Spelling care c [c]
  | short {care x c} : (x, c) ∈ shortEscapes → Spelling care c ['\\', x]
  | unit {care n w} : HexUnit n w → (care = .built → isHigh n = false ∧ isLow n = false) →
      Spelling care (Char.ofNat n) ('\\' :: 'u' :: w)
  | pair {high low v w} : HexUnit high v → isHigh high = true → HexUnit low w →
      isLow low = true →
      Spelling .built (Char.ofNat (0x10000 + (high - 0xD800) * 0x400 + (low - 0xDC00)))
        ('\\' :: 'u' :: (v ++ '\\' :: 'u' :: w))

/-- The ways to write a text between quotes: one character after the other. -/
inductive Spells (care : Care) : Text → Text → Prop
  | nil : Spells care [] []
  | cons {c w t v} : Spelling care c w → Spells care t v → Spells care (c :: t) (w ++ v)

/-! ## Numbers -/

/-- Digits, at least one. -/
def IsDigits (w : Text) : Prop := w ≠ [] ∧ w.all Char.isDigit = true

/-- Digits in front of the point: a zero in front stands alone. -/
def IsWhole (w : Text) : Prop := IsDigits w ∧ (w.head? = some '0' → w.length = 1)

/-- A point and digits, or nothing. -/
def IsFraction (w : Text) : Prop := w = [] ∨ ∃ digits, IsDigits digits ∧ w = '.' :: digits

/-- An exponent with an optional sign, or nothing. -/
def IsExponent (w : Text) : Prop :=
  w = [] ∨ ∃ e sign digits, (e = 'e' ∨ e = 'E') ∧ sign ∈ [[], ['+'], ['-']] ∧ IsDigits digits ∧
    w = e :: (sign ++ digits)

/-- A number: a minus, whole digits, a fraction and an exponent, the digits alone required. -/
def IsNumber (w : Text) : Prop :=
  ∃ sign whole fraction exponent, sign ∈ [[], ['-']] ∧ IsWhole whole ∧ IsFraction fraction ∧
    IsExponent exponent ∧ w = sign ++ (whole ++ (fraction ++ exponent))

/-! ## Values -/

/-- The parts of the grammar: a value, a value with blanks around it, what stands between the
brackets of an array and between the braces of an object. -/
inductive Phrase where
  | value
  | item
  | items
  | members

/-- A member: `key` is written between its quotes, `item` behind the colon, blanks in front of the
key and of the colon. -/
def member (front key mid item : Text) : Text :=
  front ++ '"' :: (key ++ '"' :: (mid ++ ':' :: item))

theorem member_append (g k h v s : Text) :
    member g k h v ++ s = g ++ '"' :: (k ++ '"' :: (h ++ ':' :: (v ++ s))) := by
  simp [member]

/-- The texts of the parts of the grammar. -/
inductive Written : Phrase → Text → Prop
  | null : Written .value "null".toList
  | isTrue : Written .value "true".toList
  | isFalse : Written .value "false".toList
  | number {w} : IsNumber w → Written .value w
  | string {t w} : Spells .skipped t w → Written .value ('"' :: (w ++ ['"']))
  | noItems {g} : IsGap g → Written .value ('[' :: (g ++ [']']))
  | array {w} : Written .items w → Written .value ('[' :: (w ++ [']']))
  | noMembers {g} : IsGap g → Written .value ('\x7b' :: (g ++ ['\x7d']))
  | object {w} : Written .members w → Written .value ('\x7b' :: (w ++ ['\x7d']))
  | item {g w h} : IsGap g → Written .value w → IsGap h → Written .item (g ++ (w ++ h))
  | last {w} : Written .item w → Written .items w
  | comma {v w} : Written .item v → Written .items w → Written .items (v ++ ',' :: w)
  | lastMember {g t k h w} : IsGap g → Spells .skipped t k → IsGap h → Written .item w →
      Written .members (member g k h w)
  | commaMember {g t k h v w} : IsGap g → Spells .skipped t k → IsGap h → Written .item v →
      Written .members w → Written .members (member g k h v ++ ',' :: w)

/-! ## Escapes -/

theorem spelling_escape (care : Care) (c : Char) : Spelling care c (escape c) := by
  have hunit : ∀ n < 0x20, HexUnit n ['0', '0', hexDigit (n / 16), hexDigit (n % 16)] ∧
      isHigh n = false ∧ isLow n = false := by decide
  unfold escape
  -- the seven characters with a short escape
  iterate 7
    split
    · subst c
      exact .short (by decide)
  split
  · rename_i hcontrol
    obtain ⟨hhex, hsurrogate⟩ := hunit c.toNat hcontrol
    have hspelling : Spelling care (Char.ofNat c.toNat) _ := .unit hhex fun _ => hsurrogate
    rwa [Char.ofNat_toNat] at hspelling
  · exact .plain ‹_› ‹_› (by omega)

/-- **The escapes of a text spell it**, whether it is built or skipped. -/
theorem spells_escapeAll (care : Care) (t : Text) : Spells care t (escapeAll t) := by
  induction t with
  | nil => exact .nil
  | cons c t ih => exact .cons (spelling_escape care c) ih

end QueryEditor.Json
