import QueryEditor.Proofs.Json.Denoted
import QueryEditor.Proofs.Text.Runs

/-!
# Reading names, strings and numbers

What is written by the grammar is read, and the rest of the text is left.

* `Gives`: what a reader gives, and what it leaves; `Gives.bind`: one reader behind another;
* `next?_eq`, `atEnd_eq`: what is behind blanks;
* **`readString_gives`**: a text is read from any of its spellings;
* **`readNumber_gives`**: a number is read where no character goes it on, unless it is built and out
  of range.
-/

namespace QueryEditor.Json

variable {α β : Type} {P Q : Text → Prop}

/-- A reader gives `a` and leaves `rest`. -/
def Gives (r : Except Fault (α × Subtype P)) (a : α) (rest : Text) : Prop :=
  ∃ h, r = .ok (a, ⟨rest, h⟩)

theorem Gives.bind {r : Except Fault (α × Subtype P)} {a : α} {rest : Text} (h : Gives r a rest)
    {f : α × Subtype P → Except Fault (β × Subtype Q)} {b : β} {rest' : Text}
    (hf : ∀ hp, Gives (f (a, ⟨rest, hp⟩)) b rest') : Gives (r >>= f) b rest' := by
  obtain ⟨hp, rfl⟩ := h
  exact hf hp

theorem gives_pure {a : α} {t : Subtype P} : Gives (pure (a, t)) a t.1 := ⟨t.2, rfl⟩

/-! ## Blanks -/

theorem next?_eq {g r : Text} {c : Char} (hg : IsGap g) (hc : isGap c = false) :
    ∃ h, next? (g ++ c :: r) = some (c, ⟨r, h⟩) := by
  have hdrop : (g ++ c :: r).dropWhile isGap = c :: r := dropWhile_append hg (by simpa using hc)
  unfold next? skipWhile?
  split
  · rename_i heq
    rw [hdrop] at heq
    cases heq
  · rename_i heq
    rw [hdrop] at heq
    cases heq
    exact ⟨by simp only [List.length_append, List.length_cons]; omega, rfl⟩

theorem atEnd_eq {g : Text} (hg : IsGap g) : atEnd g = .ok () := by
  have hdrop : g.dropWhile isGap = [] := by
    simpa using dropWhile_append (s := []) hg (by simp)
  have hnext : next? g = none := by
    unfold next? skipWhile?
    split
    · rfl
    · rename_i heq
      rw [hdrop] at heq
      cases heq
  rw [atEnd, hnext]
  rfl

/-! ## Strings -/

theorem exists_hexValue {c : Char} (h : isDigitOf 16 c = true) : ∃ m, hexValue? c = some m := by
  cases hc : hexValue? c with
  | none => simp [isDigitOf, hc] at h
  | some m => exact ⟨m, rfl⟩

theorem readHex_gives {n : Nat} {w : Text} (h : HexUnit n w) (rest : Text) :
    Gives (readHex (w ++ rest)) n rest := by
  obtain ⟨hlength, hdigits, hvalue⟩ := h
  match w, hlength with
  | [a, b, c, d], _ =>
    have hsome := fun x hx => exists_hexValue (List.all_eq_true.1 hdigits x hx)
    obtain ⟨a', ha⟩ := hsome a (by simp)
    obtain ⟨b', hb⟩ := hsome b (by simp)
    obtain ⟨c', hc⟩ := hsome c (by simp)
    obtain ⟨d', hd⟩ := hsome d (by simp)
    have hn : ((a' * 16 + b') * 16 + c') * 16 + d' = n := by
      rw [← hvalue]
      simp [valueIn, ha, hb, hc, hd]
    simp only [List.cons_append, List.nil_append, readHex, ha, hb, hc, hd, hn]
    exact ⟨_, rfl⟩

theorem readLow_gives (high : Nat) {low : Nat} {w : Text} (h : HexUnit low w)
    (hlow : isLow low = true) (rest : Text) : Gives (readLow high ('\\' :: 'u' :: (w ++ rest)))
      (Char.ofNat (0x10000 + (high - 0xD800) * 0x400 + (low - 0xDC00))) rest := by
  refine (readHex_gives h rest).bind fun _ => ?_
  simp only [hlow, if_true]
  exact gives_pure

theorem readEscape_gives {care : Care} {c : Char} {w : Text} (h : Spelling care c ('\\' :: w))
    (rest : Text) : Gives (readEscape care (w ++ rest)) c rest := by
  cases h with
  | plain _ hslash _ => exact absurd rfl hslash
  | short hx =>
    simp only [shortEscapes, List.mem_cons, Prod.mk.injEq, List.not_mem_nil, or_false] at hx
    rcases hx with ⟨rfl, rfl⟩ | ⟨rfl, rfl⟩ | ⟨rfl, rfl⟩ | ⟨rfl, rfl⟩ | ⟨rfl, rfl⟩ |
      ⟨rfl, rfl⟩ | ⟨rfl, rfl⟩ | ⟨rfl, rfl⟩ <;> exact gives_pure
  | unit hhex hbuilt =>
    refine (readHex_gives hhex rest).bind fun _ => ?_
    cases care with
    | skipped => exact gives_pure
    | built =>
      simp only [(hbuilt rfl).1, (hbuilt rfl).2, if_false, Bool.false_eq_true]
      exact gives_pure
  | @pair high low v w hv hhigh hw hlow =>
    -- no unit is both, so the reader takes the branch of the pairs
    have hnot : isLow high = false := by
      simp only [isHigh, isLow, Bool.and_eq_true, decide_eq_true_eq, Bool.and_eq_false_iff,
        decide_eq_false_iff_not] at hhigh ⊢
      omega
    rw [List.cons_append, List.append_assoc]
    refine (readHex_gives hv _).bind fun _ => ?_
    simp only [hnot, hhigh, if_true, if_false, Bool.false_eq_true, List.cons_append]
    refine (readLow_gives high hw hlow rest).bind fun _ => ?_
    dsimp only
    exact gives_pure

/-- **A text is read from any of its spellings**, up to the quote behind it. -/
theorem readString_gives {care : Care} {t w : Text} (h : Spells care t w) (rest : Text) :
    Gives (readString care (w ++ '"' :: rest)) t rest := by
  induction h with
  | nil =>
    rw [List.nil_append, readString, if_pos rfl]
    exact gives_pure
  | @cons c w t v hc _ ih =>
    rw [List.append_assoc]
    -- a spelling without a backslash is the character alone
    have hcase : (∃ u, w = '\\' :: u) ∨ (w = [c] ∧ c ≠ '"' ∧ c ≠ '\\' ∧ 0x20 ≤ c.toNat) := by
      cases hc with
      | plain hquote hslash hcontrol => exact .inr ⟨rfl, hquote, hslash, hcontrol⟩
      | short _ => exact .inl ⟨_, rfl⟩
      | unit _ _ => exact .inl ⟨_, rfl⟩
      | pair _ _ _ _ => exact .inl ⟨_, rfl⟩
    obtain ⟨u, rfl⟩ | ⟨rfl, hquote, hslash, hcontrol⟩ := hcase
    · rw [List.cons_append, readString, if_neg (by decide), if_pos rfl]
      exact (readEscape_gives hc _).bind fun _ => ih.bind fun _ => gives_pure
    · rw [List.singleton_append, readString, if_neg hquote, if_neg hslash, if_neg (by omega)]
      exact ih.bind fun _ => gives_pure

/-! ## Numbers -/

/-- What follows a value inside a container: a blank, a comma or a closing bracket, or nothing. -/
def Closed (rest : Text) : Prop :=
  ∀ c ∈ rest.head?, isGap c = true ∨ c ∈ [',', ']', '\x7d']

theorem Closed.not_number {rest : Text} (h : Closed rest) {c : Char} (hc : c ∈ rest.head?) :
    c.isDigit = false ∧ c ≠ '.' ∧ c ≠ 'e' ∧ c ≠ 'E' := by
  have hmem := h c hc
  simp only [isGap, Bool.or_eq_true, beq_iff_eq, List.mem_cons, List.not_mem_nil, or_false,
    or_assoc] at hmem
  obtain rfl | rfl | rfl | rfl | rfl | rfl | rfl := hmem <;> decide

theorem IsDigits.exists_cons {w : Text} (h : IsDigits w) :
    ∃ c r, w = c :: r ∧ c.isDigit = true ∧ r.all Char.isDigit = true := by
  obtain ⟨hnil, hall⟩ := h
  cases w with
  | nil => exact absurd rfl hnil
  | cons c r => exact ⟨c, r, rfl, Bool.and_eq_true_iff.1 hall⟩

theorem readDigits_gives {care : Care} {w rest : Text} (h : IsDigits w)
    (hrest : ∀ c ∈ rest.head?, c.isDigit = false) :
    Gives (readDigits care (w ++ rest)) w rest := by
  obtain ⟨c, r, rfl, hc, hr⟩ := h.exists_cons
  rw [List.cons_append, readDigits, if_pos hc]
  simp only [takeRun, takeWhile_append hr hrest, dropWhile_append hr hrest]
  exact gives_pure

theorem readWhole_gives {care : Care} {w rest : Text} (h : IsWhole w)
    (hrest : ∀ c ∈ rest.head?, c.isDigit = false) :
    Gives (readWhole care (w ++ rest)) w rest := by
  refine (readDigits_gives h.1 hrest).bind fun _ => ?_
  have hzero : ¬ (w.head? = some '0' ∧ w.length ≠ 1) := fun hw => hw.2 (h.2 hw.1)
  simp only [if_neg hzero]
  exact gives_pure

theorem readSign_eq {negative : Bool} {sign digits : Text} (hsign : sign ∈ exponentSigns negative)
    (hdigits : IsDigits digits) (rest : Text) :
    ∃ h, readSign (sign ++ (digits ++ rest)) = (negative, ⟨digits ++ rest, h⟩) := by
  obtain ⟨c, r, rfl, hc, -⟩ := hdigits.exists_cons
  cases negative with
  | true =>
    obtain rfl := List.mem_singleton.1 hsign
    exact ⟨_, rfl⟩
  | false =>
    have hminus : c ≠ '-' := by rintro rfl; cases hc
    have hplus : c ≠ '+' := by rintro rfl; cases hc
    simp only [exponentSigns, List.mem_cons, List.not_mem_nil, or_false] at hsign
    rcases hsign with rfl | rfl
    · exact ⟨Nat.le_refl _, by simp [readSign, hminus, hplus]⟩
    · exact ⟨_, rfl⟩

theorem readExponent_gives (care : Care) {exponent : Option (Bool × Text)} {w rest : Text}
    (h : ExponentOf exponent w) (hrest : Closed rest) :
    Gives (readExponent care (w ++ rest)) exponent rest := by
  cases h with
  | none =>
    cases rest with
    | nil => exact gives_pure
    | cons c r =>
      obtain ⟨-, -, hsmall, hlarge⟩ := hrest.not_number rfl
      rw [List.nil_append, readExponent, if_neg (by simp [hsmall, hlarge])]
      exact gives_pure
  | digits he hsign hdigits =>
    obtain ⟨_, heq⟩ := readSign_eq hsign hdigits rest
    rw [List.cons_append, List.append_assoc, readExponent, if_pos he, heq]
    exact (readDigits_gives hdigits fun _ hc => (hrest.not_number hc).1).bind fun _ => gives_pure

theorem ExponentOf.not_digit {exponent : Option (Bool × Text)} {w rest : Text}
    (h : ExponentOf exponent w) (hrest : Closed rest) :
    ∀ c ∈ (w ++ rest).head?, c.isDigit = false ∧ c ≠ '.' := by
  intro c hc
  cases h with
  | none => exact ⟨(hrest.not_number hc).1, (hrest.not_number hc).2.1⟩
  | digits he _ _ =>
    cases hc
    rcases he with rfl | rfl <;> decide

theorem readFraction_gives (care : Care) {digits w rest : Text} (h : FractionOf digits w)
    (hrest : ∀ c ∈ rest.head?, c.isDigit = false ∧ c ≠ '.') :
    Gives (readFraction care (w ++ rest)) digits rest := by
  cases h with
  | none =>
    have hpoint : ∀ r, rest = '.' :: r → False := by
      rintro r rfl
      exact (hrest '.' rfl).2 rfl
    rw [List.nil_append, readFraction]
    · exact gives_pure
    · exact hpoint
  | digits hdigits =>
    exact (readDigits_gives hdigits fun c hc => (hrest c hc).1).bind fun _ => gives_pure

theorem FractionOf.not_digit {digits w rest : Text} (h : FractionOf digits w)
    (hrest : ∀ c ∈ rest.head?, c.isDigit = false) : ∀ c ∈ (w ++ rest).head?, c.isDigit = false := by
  cases h with
  | none => exact hrest
  | digits _ =>
    rintro c ⟨⟩
    rfl

theorem readUnsigned_gives {care : Care} {n : Numeral} {w rest : Text} (h : UnsignedOf n w)
    (hrange : care = .built → n.inRange = true) (hrest : Closed rest) :
    Gives (readUnsigned care n.negative (w ++ rest)) n rest := by
  obtain ⟨fraction, exponent, hwhole, hfraction, hexponent, rfl⟩ := h
  have hbehind := hexponent.not_digit hrest
  rw [List.append_assoc, List.append_assoc]
  refine (readWhole_gives hwhole (hfraction.not_digit fun c hc => (hbehind c hc).1)).bind fun _ =>
    (readFraction_gives care hfraction hbehind).bind fun _ =>
      (readExponent_gives care hexponent hrest).bind fun _ => ?_
  have hkept : ¬ (care = .built ∧ n.inRange = false) := fun hn => by simp [hrange hn.1] at hn
  simp only [if_neg hkept]
  exact gives_pure

/-- **A number is read to its end**, unless it is built and out of range. -/
theorem readNumber_gives {care : Care} {n : Numeral} {w rest : Text} (h : NumeralOf n w)
    (hrange : care = .built → n.inRange = true) (hrest : Closed rest) :
    Gives (readNumber care (w ++ rest)) n rest := by
  obtain ⟨u, hu, rfl⟩ := h
  have hread := readUnsigned_gives hu hrange hrest
  cases hsign : n.negative with
  | true =>
    rw [hsign] at hread
    exact hread.bind fun _ => gives_pure
  | false =>
    obtain ⟨_, _, hwhole, -, -, rfl⟩ := hu
    obtain ⟨c, r, hcons, hc, -⟩ := hwhole.1.exists_cons
    rw [hsign] at hread
    rw [if_neg Bool.false_ne_true, readNumber]
    · exact hread
    · intro s hs
      rw [hcons, List.cons_append, List.cons_append] at hs
      cases hs
      cases hc

end QueryEditor.Json
