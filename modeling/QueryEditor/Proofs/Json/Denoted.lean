import QueryEditor.Proofs.Json.Grammar

/-!
# What JSON denotes

The grammar once more, with the value that a text stands for. The limits of the readers are no part
of it: they are a condition on the value.

* `NumeralOf`: how a number may be written;
* `Denotes`: a text of a part of the grammar stands for a value;
* `Value.Fits`: the value is within the limits of what is built, `Allowed`: it is, or it is skipped;
* **`written_iff`**: what is written by the grammar denotes something, and nothing else does.
-/

namespace QueryEditor.Json

/-! ## Numbers -/

inductive FractionOf : Text → Text → Prop
  | none : FractionOf [] []
  | digits {digits} : IsDigits digits → FractionOf digits ('.' :: digits)

/-- The signs that an exponent may have, by whether it is negative. -/
def exponentSigns : Bool → List Text
  | true => [['-']]
  | false => [[], ['+']]

/-- How an exponent is written. -/
inductive ExponentOf : Option (Bool × Text) → Text → Prop
  | none : ExponentOf none []
  | digits {e negative sign digits} : e = 'e' ∨ e = 'E' → sign ∈ exponentSigns negative →
      IsDigits digits → ExponentOf (some (negative, digits)) (e :: (sign ++ digits))

def UnsignedOf (n : Numeral) (w : Text) : Prop :=
  ∃ fraction exponent, IsWhole n.whole ∧ FractionOf n.fraction fraction ∧
    ExponentOf n.exponent exponent ∧ w = n.whole ++ (fraction ++ exponent)

def NumeralOf (n : Numeral) (w : Text) : Prop :=
  ∃ u, UnsignedOf n u ∧ w = if n.negative then '-' :: u else u

theorem isFraction_iff {w : Text} : IsFraction w ↔ ∃ digits, FractionOf digits w := by
  constructor
  · rintro (rfl | ⟨digits, hdigits, rfl⟩)
    · exact ⟨[], .none⟩
    · exact ⟨digits, .digits hdigits⟩
  · rintro ⟨_, _ | hdigits⟩
    · exact .inl rfl
    · exact .inr ⟨_, hdigits, rfl⟩

theorem isExponent_iff {w : Text} : IsExponent w ↔ ∃ exponent, ExponentOf exponent w := by
  have hsigns : ∀ sign : Text, sign ∈ [[], ['+'], ['-']] ↔
      ∃ negative, sign ∈ exponentSigns negative := by
    intro sign
    simp only [Bool.exists_bool, exponentSigns, List.mem_cons, List.not_mem_nil, or_false,
      or_assoc]
  constructor
  · rintro (rfl | ⟨e, sign, digits, he, hsign, hdigits, rfl⟩)
    · exact ⟨_, .none⟩
    · obtain ⟨negative, hsign⟩ := (hsigns sign).1 hsign
      exact ⟨_, .digits he hsign hdigits⟩
  · rintro ⟨_, _ | ⟨he, hsign, hdigits⟩⟩
    · exact .inl rfl
    · exact .inr ⟨_, _, _, he, (hsigns _).2 ⟨_, hsign⟩, hdigits, rfl⟩

theorem isNumber_iff {w : Text} : IsNumber w ↔ ∃ n, NumeralOf n w := by
  constructor
  · rintro ⟨sign, whole, f, e, hsign, hwhole, hfraction, hexponent, rfl⟩
    obtain ⟨fraction, hfraction⟩ := isFraction_iff.1 hfraction
    obtain ⟨exponent, hexponent⟩ := isExponent_iff.1 hexponent
    refine ⟨⟨sign == ['-'], whole, fraction, exponent⟩, _,
      ⟨f, e, hwhole, hfraction, hexponent, rfl⟩, ?_⟩
    simp only [List.mem_cons, List.not_mem_nil, or_false] at hsign
    rcases hsign with rfl | rfl <;> rfl
  · rintro ⟨⟨negative, whole, fraction, exponent⟩, _, ⟨f, e, hwhole, hfraction, hexponent, rfl⟩, rfl⟩
    refine ⟨if negative then ['-'] else [], whole, f, e, by cases negative <;> simp, hwhole,
      isFraction_iff.2 ⟨_, hfraction⟩, isExponent_iff.2 ⟨_, hexponent⟩, ?_⟩
    cases negative <;> rfl

/-! ## Values -/

/-- A text of a part of the grammar stands for a value: what is between brackets stands for the
array, what is between braces for the object. A surrogate that is not one of a pair stands for no
character of its own; it may only stand in what is skipped. -/
inductive Denotes (care : Care) : Phrase → Text → Value → Prop
  | null : Denotes care .value "null".toList .null
  | isTrue : Denotes care .value "true".toList (.bool true)
  | isFalse : Denotes care .value "false".toList (.bool false)
  | number {w n} : NumeralOf n w → Denotes care .value w (.number n)
  | string {t w} : Spells care t w → Denotes care .value ('"' :: (w ++ ['"'])) (.string t)
  | noItems {g} : IsGap g → Denotes care .value ('[' :: (g ++ [']'])) (.array [])
  | array {w v} : Denotes care .items w v → Denotes care .value ('[' :: (w ++ [']'])) v
  | noMembers {g} : IsGap g → Denotes care .value ('\x7b' :: (g ++ ['\x7d'])) (.object [])
  | object {w v} : Denotes care .members w v → Denotes care .value ('\x7b' :: (w ++ ['\x7d'])) v
  | item {g w h v} : IsGap g → Denotes care .value w v → IsGap h →
      Denotes care .item (g ++ (w ++ h)) v
  | last {w v} : Denotes care .item w v → Denotes care .items w (.array [v])
  | comma {u w v vs} : Denotes care .item u v → Denotes care .items w (.array vs) →
      Denotes care .items (u ++ ',' :: w) (.array (v :: vs))
  | lastMember {g t k h w v} : IsGap g → Spells care t k → IsGap h → Denotes care .item w v →
      Denotes care .members (member g k h w) (.object [(t, v)])
  | commaMember {g t k h u w v ms} : IsGap g → Spells care t k → IsGap h →
      Denotes care .item u v → Denotes care .members w (.object ms) →
      Denotes care .members (member g k h u ++ ',' :: w) (.object ((t, v) :: ms))

/-- Inside `opened` containers, the value is within the limits of what is built: its numbers can be
kept, and no more than 127 containers are open at a time. -/
inductive Value.Fits : Nat → Value → Prop
  | null {opened} : Fits opened .null
  | bool {opened b} : Fits opened (.bool b)
  | number {opened n} : n.inRange = true → Fits opened (.number n)
  | string {opened t} : Fits opened (.string t)
  | array {opened items} : opened < 127 → (∀ v ∈ items, Fits (opened + 1) v) →
      Fits opened (.array items)
  | object {opened members} : opened < 127 → (∀ m ∈ members, Fits (opened + 1) m.2) →
      Fits opened (.object members)

/-- A value that is built is within the limits. One that is skipped may be any value. -/
def Allowed (care : Care) (opened : Nat) (v : Value) : Prop := care = .built → v.Fits opened

theorem allowed_skipped (opened : Nat) (v : Value) : Allowed .skipped opened v := nofun

theorem allowed_number_iff {care : Care} {opened : Nat} {n : Numeral} :
    Allowed care opened (.number n) ↔ (care = .built → n.inRange = true) :=
  forall_congr' fun _ => ⟨fun h => by cases h; assumption, .number⟩

theorem tooDeep_eq_false_iff {care : Care} {opened : Nat} :
    tooDeep care (opened + 1) = false ↔ (care = .built → opened < 127) := by
  cases care with
  | built => simp [tooDeep]
  | skipped => simp [tooDeep]

theorem allowed_array_iff {care : Care} {opened : Nat} {vs : List Value} :
    Allowed care opened (.array vs) ↔
      tooDeep care (opened + 1) = false ∧ ∀ v ∈ vs, Allowed care (opened + 1) v := by
  rw [tooDeep_eq_false_iff]
  constructor
  · intro h
    refine ⟨fun hc => ?_, fun v hv hc => ?_⟩
    · cases h hc; assumption
    · cases h hc with | array _ hvs => exact hvs v hv
  · exact fun h hc => .array (h.1 hc) fun v hv => h.2 v hv hc

theorem allowed_object_iff {care : Care} {opened : Nat} {ms : List (Text × Value)} :
    Allowed care opened (.object ms) ↔
      tooDeep care (opened + 1) = false ∧ ∀ m ∈ ms, Allowed care (opened + 1) m.2 := by
  rw [tooDeep_eq_false_iff]
  constructor
  · intro h
    refine ⟨fun hc => ?_, fun m hm hc => ?_⟩
    · cases h hc; assumption
    · cases h hc with | object _ hms => exact hms m hm
  · exact fun h hc => .object (h.1 hc) fun m hm => h.2 m hm hc

/-! ## The grammar without values -/

theorem Denotes.exists_items {care : Care} {w : Text} {v : Value} (h : Denotes care .items w v) :
    ∃ vs, v = .array vs := by
  cases h <;> exact ⟨_, rfl⟩

theorem Denotes.exists_members {care : Care} {w : Text} {v : Value}
    (h : Denotes care .members w v) : ∃ ms, v = .object ms := by
  cases h <;> exact ⟨_, rfl⟩

/-- **What is written by the grammar denotes something**, and nothing else does. -/
theorem written_iff {p : Phrase} {w : Text} : Written p w ↔ ∃ v, Denotes .skipped p w v := by
  constructor
  · intro h
    induction h with
    | null => exact ⟨_, .null⟩
    | isTrue => exact ⟨_, .isTrue⟩
    | isFalse => exact ⟨_, .isFalse⟩
    | number hw =>
      obtain ⟨n, hn⟩ := isNumber_iff.1 hw
      exact ⟨.number n, .number hn⟩
    | string hw => exact ⟨_, .string hw⟩
    | noItems hg => exact ⟨_, .noItems hg⟩
    | array _ ih => exact ih.imp fun _ => .array
    | noMembers hg => exact ⟨_, .noMembers hg⟩
    | object _ ih => exact ih.imp fun _ => .object
    | item hg _ hh ih => exact ih.imp fun _ hv => .item hg hv hh
    | last _ ih =>
      obtain ⟨v, hv⟩ := ih
      exact ⟨_, .last hv⟩
    | comma _ _ ihv ihw =>
      obtain ⟨v, hv⟩ := ihv
      obtain ⟨_, hvs⟩ := ihw
      obtain ⟨vs, rfl⟩ := hvs.exists_items
      exact ⟨_, .comma hv hvs⟩
    | lastMember hg hk hh _ ih =>
      obtain ⟨v, hv⟩ := ih
      exact ⟨_, .lastMember hg hk hh hv⟩
    | commaMember hg hk hh _ _ ih ihs =>
      obtain ⟨v, hv⟩ := ih
      obtain ⟨_, hms⟩ := ihs
      obtain ⟨ms, rfl⟩ := hms.exists_members
      exact ⟨_, .commaMember hg hk hh hv hms⟩
  · rintro ⟨v, h⟩
    induction h with
    | null => exact .null
    | isTrue => exact .isTrue
    | isFalse => exact .isFalse
    | number hw => exact .number (isNumber_iff.2 ⟨_, hw⟩)
    | string hw => exact .string hw
    | noItems hg => exact .noItems hg
    | array _ ih => exact .array ih
    | noMembers hg => exact .noMembers hg
    | object _ ih => exact .object ih
    | item hg _ hh ih => exact .item hg ih hh
    | last _ ih => exact .last ih
    | comma _ _ ihv ihw => exact .comma ihv ihw
    | lastMember hg hk hh _ ih => exact .lastMember hg hk hh ih
    | commaMember hg hk hh _ _ ih ihs => exact .commaMember hg hk hh ih ihs

end QueryEditor.Json
