import QueryEditor.Proofs.Json.Values

/-!
# What is read is written

The other half: a text that is read is written by the grammar, and the value that is read from it is
the one that it denotes. Each reader has a lemma that says what stood in front of what it leaves.

* `readString_written`, `readNumber_written`, `readScalar_written`: strings, numbers, scalars;
* `ValueWritten`, `ItemsWritten`, `MembersWritten`: what is read is written in front of the rest;
* **`readsWritten`**: it is, by the length of the text;
* **`parse_eq_ok_iff`**: a text is parsed as what it denotes, within the limits.
-/

namespace QueryEditor

theorem bind_eq_ok_iff {ε α β : Type} (x : Except ε α) (f : α → Except ε β) (b : β) :
    (x >>= f) = .ok b ↔ ∃ a, x = .ok a ∧ f a = .ok b := by
  cases x with
  | error e => exact iff_of_false (fun h => nomatch h) fun ⟨_, h, _⟩ => nomatch h
  | ok a => exact ⟨fun h => ⟨a, rfl, h⟩, fun ⟨_, ha, h⟩ => Except.ok.inj ha ▸ h⟩

namespace Json

variable {α β : Type} {P Q : Text → Prop}

theorem Gives.of_bind {r : Except Fault α} {f : α → Except Fault (β × Subtype Q)} {b : β}
    {rest : Text} (h : Gives (r >>= f) b rest) : ∃ a, r = .ok a ∧ Gives (f a) b rest := by
  obtain ⟨hp, h⟩ := h
  obtain ⟨a, hr, hf⟩ := (bind_eq_ok_iff _ _ _).1 h
  exact ⟨a, hr, hp, hf⟩

/-- The first of two readers gives something and leaves something to the second one. -/
theorem Gives.of_bind_gives {r : Except Fault (α × Subtype P)}
    {f : α × Subtype P → Except Fault (β × Subtype Q)} {b : β} {rest : Text}
    (h : Gives (r >>= f) b rest) :
    ∃ a left hp, Gives r a left ∧ Gives (f (a, ⟨left, hp⟩)) b rest := by
  obtain ⟨⟨a, left, hp⟩, hr, hf⟩ := h.of_bind
  exact ⟨a, left, hp, ⟨hp, hr⟩, hf⟩

theorem gives_pure_iff {a b : α} {t : Subtype P} {rest : Text} :
    Gives (pure (a, t)) b rest ↔ a = b ∧ t.1 = rest := by
  constructor
  · rintro ⟨_, h⟩
    cases h
    exact ⟨rfl, rfl⟩
  · rintro ⟨rfl, rfl⟩
    exact gives_pure

theorem not_gives_throw {fault : Fault} {a : α} {rest : Text} :
    ¬ Gives (throw fault : Except Fault (α × Subtype P)) a rest := by
  rintro ⟨_, h⟩
  cases h

/-! ## Blanks -/

theorem exists_dropWhile_isGap (s : Text) : ∃ g, IsGap g ∧ s = g ++ s.dropWhile isGap :=
  ⟨s.takeWhile isGap, List.all_takeWhile, List.takeWhile_append_dropWhile.symm⟩

theorem next?_written {s : Text} {c : Char} {u : Tail s} (h : next? s = some (c, u)) :
    ∃ g, IsGap g ∧ s = g ++ c :: u.1 := by
  obtain ⟨g, hg, hs⟩ := exists_dropWhile_isGap s
  unfold next? skipWhile? at h
  split at h
  · cases h
  · rename_i heq
    cases h
    exact ⟨g, hg, heq ▸ hs⟩

theorem isGap_of_atEnd {s : Text} (h : atEnd s = .ok ()) : IsGap s := by
  obtain ⟨g, hg, hs⟩ := exists_dropWhile_isGap s
  unfold atEnd next? skipWhile? at h
  split at h
  · rename_i hnext
    split at hnext
    · rename_i heq
      rw [heq, List.append_nil] at hs
      exact hs ▸ hg
    · cases hnext
  · cases h

/-! ## Strings -/

theorem hexValue?_lt {c : Char} {m : Nat} (h : hexValue? c = some m) : m < 16 := by
  unfold hexValue? at h
  split at h
  · have := toNat_of_isDigit ‹_›
    cases h
    simp only [digitValue, Char.reduceToNat]
    omega
  · split at h
    · rename_i hc
      have : c.toNat ≤ 'f'.toNat := hc.2
      cases h
      simp only [Char.reduceToNat] at this ⊢
      omega
    · split at h
      · rename_i hc
        have : c.toNat ≤ 'F'.toNat := hc.2
        cases h
        simp only [Char.reduceToNat] at this ⊢
        omega
      · cases h

theorem readHex_written {s rest : Text} {n : Nat} (h : Gives (readHex s) n rest) :
    ∃ w, HexUnit n w ∧ s = w ++ rest := by
  unfold readHex at h
  split at h
  · rename_i a b c d r
    split at h
    · rename_i a' b' c' d' ha hb hc hd
      obtain ⟨_, h⟩ := h
      cases h
      have hdigit : ∀ x x', hexValue? x = some x' → isDigitOf 16 x = true := by
        intro x x' hx
        simp [isDigitOf, hx, hexValue?_lt hx]
      refine ⟨[a, b, c, d], ⟨rfl, ?_, ?_⟩, rfl⟩
      · simp [hdigit a a' ha, hdigit b b' hb, hdigit c c' hc, hdigit d d' hd]
      · simp [valueIn, ha, hb, hc, hd]
    · obtain ⟨_, h⟩ := h
      cases h
  · obtain ⟨_, h⟩ := h
    cases h

theorem readLow_written {high : Nat} {s rest : Text} {c : Char} (h : Gives (readLow high s) c rest) :
    ∃ low w, HexUnit low w ∧ isLow low = true ∧ s = '\\' :: 'u' :: (w ++ rest) ∧
      c = Char.ofNat (0x10000 + (high - 0xD800) * 0x400 + (low - 0xDC00)) := by
  unfold readLow at h
  split at h
  · obtain ⟨low, left, _, hread, h⟩ := h.of_bind_gives
    obtain ⟨w, hw, rfl⟩ := readHex_written hread
    dsimp only at h
    split at h
    · obtain ⟨rfl, rfl⟩ := gives_pure_iff.1 h
      exact ⟨low, w, hw, ‹_›, rfl, rfl⟩
    · exact absurd h not_gives_throw
  · exact absurd h not_gives_throw
  · exact absurd h not_gives_throw

theorem readEscape_written {care : Care} {s rest : Text} {c : Char}
    (h : Gives (readEscape care s) c rest) : ∃ w, Spelling care c ('\\' :: w) ∧ s = w ++ rest := by
  unfold readEscape at h
  split at h
  · exact absurd h not_gives_throw
  · split at h
    case h_9 =>
      obtain ⟨unit, left, _, hread, h⟩ := h.of_bind_gives
      obtain ⟨w, hw, rfl⟩ := readHex_written hread
      cases care with
      | skipped =>
        obtain ⟨rfl, rfl⟩ := gives_pure_iff.1 h
        exact ⟨'u' :: w, .unit hw (absurd · (by decide)), rfl⟩
      | built =>
        dsimp only at h
        split at h
        · exact absurd h not_gives_throw
        · rename_i hlow
          split at h
          · rename_i hhigh
            obtain ⟨d, left, _, hpair, h⟩ := h.of_bind_gives
            obtain ⟨rfl, (rfl : left = rest)⟩ := gives_pure_iff.1 h
            obtain ⟨low, v, hv, hisLow, hleft, hd⟩ := readLow_written hpair
            dsimp only [Tail.within] at hleft
            have hspelling := Spelling.pair hw hhigh hv hisLow
            rw [← hd] at hspelling
            exact ⟨_, hspelling, by simp [hleft]⟩
          · rename_i hhigh
            obtain ⟨rfl, rfl⟩ := gives_pure_iff.1 h
            exact ⟨'u' :: w, .unit hw fun _ => ⟨by simpa using hhigh, by simpa using hlow⟩, rfl⟩
    case h_10 => exact absurd h not_gives_throw
    -- the short escapes
    all_goals
      obtain ⟨rfl, rfl⟩ := gives_pure_iff.1 h
      exact ⟨[_], .short (by decide), rfl⟩

/-- **A text that is read** was spelled up to its closing quote. -/
theorem readString_written {care : Care} {s t rest : Text} (h : Gives (readString care s) t rest) :
    ∃ w, Spells care t w ∧ s = w ++ '"' :: rest := by
  induction hlength : s.length using Nat.strongRecOn generalizing s t with
  | ind n ih =>
    subst hlength
    cases s with
    | nil =>
      rw [readString] at h
      exact absurd h not_gives_throw
    | cons c r =>
      rw [readString] at h
      split at h
      · subst c
        obtain ⟨rfl, rfl⟩ := gives_pure_iff.1 h
        exact ⟨[], .nil, rfl⟩
      · split at h
        · subst c
          obtain ⟨d, left, hleft, hread, h⟩ := h.of_bind_gives
          obtain ⟨ds, left', _, hreads, h⟩ := h.of_bind_gives
          obtain ⟨rfl, (rfl : left' = rest)⟩ := gives_pure_iff.1 h
          obtain ⟨w, hw, rfl⟩ := readEscape_written hread
          obtain ⟨v, hv, (rfl : left = _)⟩ := ih left.length
            (by simp only [List.length_cons]; omega) hreads rfl
          exact ⟨'\\' :: w ++ v, .cons hw hv, by simp⟩
        · split at h
          · exact absurd h not_gives_throw
          · obtain ⟨ds, left, _, hreads, h⟩ := h.of_bind_gives
            obtain ⟨rfl, (rfl : left = rest)⟩ := gives_pure_iff.1 h
            obtain ⟨v, hv, rfl⟩ := ih r.length (by simp) hreads rfl
            exact ⟨[c] ++ v, .cons (.plain ‹_› ‹_› (by omega)) hv, rfl⟩

/-! ## Numbers -/

theorem readDigits_written {care : Care} {s w rest : Text} (h : Gives (readDigits care s) w rest) :
    IsDigits w ∧ s = w ++ rest := by
  unfold readDigits at h
  split at h
  · exact absurd h not_gives_throw
  · rename_i c r
    split at h
    · rename_i hc
      obtain ⟨rfl, rfl⟩ := gives_pure_iff.1 h
      have hrun : (r.takeWhile Char.isDigit).all Char.isDigit = true := List.all_takeWhile
      exact ⟨⟨by simp, by simp [hc, hrun]⟩, by simp⟩
    · exact absurd h not_gives_throw

theorem readWhole_written {care : Care} {s w rest : Text} (h : Gives (readWhole care s) w rest) :
    IsWhole w ∧ s = w ++ rest := by
  obtain ⟨digits, left, _, hread, h⟩ := h.of_bind_gives
  obtain ⟨hdigits, rfl⟩ := readDigits_written hread
  dsimp only at h
  split at h
  · exact absurd h not_gives_throw
  · rename_i hzero
    obtain ⟨rfl, rfl⟩ := gives_pure_iff.1 h
    exact ⟨⟨hdigits, fun hhead => Decidable.byContradiction fun hne => hzero ⟨hhead, hne⟩⟩,
      rfl⟩

theorem readFraction_written {care : Care} {s digits rest : Text}
    (h : Gives (readFraction care s) digits rest) :
    ∃ w, FractionOf digits w ∧ s = w ++ rest := by
  unfold readFraction at h
  split at h
  · obtain ⟨digits, left, _, hread, h⟩ := h.of_bind_gives
    obtain ⟨rfl, rfl⟩ := gives_pure_iff.1 h
    obtain ⟨hdigits, rfl⟩ := readDigits_written hread
    exact ⟨_, .digits hdigits, rfl⟩
  · obtain ⟨rfl, rfl⟩ := gives_pure_iff.1 h
    exact ⟨[], .none, rfl⟩

theorem readSign_written (s : Text) :
    ∃ sign ∈ exponentSigns (readSign s).1, s = sign ++ (readSign s).2.1 := by
  unfold readSign
  split
  · exact ⟨['-'], by simp [exponentSigns], rfl⟩
  · exact ⟨['+'], by simp [exponentSigns], rfl⟩
  · exact ⟨[], by simp [exponentSigns], rfl⟩

theorem readExponent_written {care : Care} {s rest : Text} {exponent : Option (Bool × Text)}
    (h : Gives (readExponent care s) exponent rest) :
    ∃ w, ExponentOf exponent w ∧ s = w ++ rest := by
  unfold readExponent at h
  split at h
  · obtain ⟨rfl, rfl⟩ := gives_pure_iff.1 h
    exact ⟨[], .none, rfl⟩
  · rename_i c r
    split at h
    · rename_i he
      obtain ⟨sign, hsign, hr⟩ := readSign_written r
      rcases hread : readSign r with ⟨negative, t, _⟩
      rw [hread] at h hsign hr
      obtain ⟨digits, left, _, hread, h⟩ := h.of_bind_gives
      obtain ⟨rfl, (rfl : left = rest)⟩ := gives_pure_iff.1 h
      obtain ⟨hdigits, hleft⟩ := readDigits_written hread
      exact ⟨_, .digits he hsign hdigits, by simp_all⟩
    · obtain ⟨rfl, rfl⟩ := gives_pure_iff.1 h
      exact ⟨[], .none, rfl⟩

theorem readUnsigned_written {care : Care} {negative : Bool} {s rest : Text} {n : Numeral}
    (h : Gives (readUnsigned care negative s) n rest) :
    n.negative = negative ∧ (care = .built → n.inRange = true) ∧
      ∃ w, UnsignedOf n w ∧ s = w ++ rest := by
  obtain ⟨whole, left, _, hread, h⟩ := h.of_bind_gives
  obtain ⟨hwhole, rfl⟩ := readWhole_written hread
  obtain ⟨fraction, left, _, hread, h⟩ := h.of_bind_gives
  obtain ⟨f, hfraction, rfl⟩ := readFraction_written hread
  obtain ⟨exponent, left, _, hread, h⟩ := h.of_bind_gives
  obtain ⟨e, hexponent, rfl⟩ := readExponent_written hread
  dsimp only at h
  split at h
  · exact absurd h not_gives_throw
  · rename_i hrange
    obtain ⟨rfl, rfl⟩ := gives_pure_iff.1 h
    refine ⟨rfl, fun hc => by simpa [hc] using hrange, _,
      ⟨f, e, hwhole, hfraction, hexponent, rfl⟩, by simp⟩

/-- **A number that is read** was written, and is in range if it is built. -/
theorem readNumber_written {care : Care} {s rest : Text} {n : Numeral}
    (h : Gives (readNumber care s) n rest) :
    (care = .built → n.inRange = true) ∧ ∃ w, NumeralOf n w ∧ s = w ++ rest := by
  unfold readNumber at h
  split at h
  · obtain ⟨n, left, _, hread, h⟩ := h.of_bind_gives
    obtain ⟨rfl, rfl⟩ := gives_pure_iff.1 h
    obtain ⟨hsign, hrange, w, hw, rfl⟩ := readUnsigned_written hread
    exact ⟨hrange, '-' :: w, ⟨w, hw, by rw [hsign, if_pos rfl]⟩, rfl⟩
  · obtain ⟨hsign, hrange, w, hw, rfl⟩ := readUnsigned_written h
    exact ⟨hrange, w, ⟨w, hw, by rw [hsign, if_neg Bool.false_ne_true]⟩, rfl⟩

/-! ## Scalars -/

theorem readName_written {name s : Text} {t : Rest s} (h : readName name s = .ok t) :
    s = name ++ t.1 := by
  induction name generalizing s with
  | nil =>
    rw [readName] at h
    cases h
    rfl
  | cons a name ih =>
    cases s with
    | nil => cases h
    | cons c r =>
      rw [readName] at h
      split at h
      · subst c
        obtain ⟨u, hread, hu⟩ := (bind_eq_ok_iff _ _ _).1 h
        cases hu
        exact congrArg (a :: ·) (ih hread)
      · cases h

theorem named_written {name r rest : Text} {v x : Value} {hQ : ∀ t : Rest r, Q t.1}
    (h : Gives (readName name r >>= fun t => pure (v, ⟨t.1, hQ t⟩)) x rest) :
    v = x ∧ r = name ++ rest := by
  obtain ⟨t, ht, h⟩ := h.of_bind
  obtain ⟨rfl, (rfl : t.1 = rest)⟩ := gives_pure_iff.1 h
  exact ⟨rfl, readName_written ht⟩

theorem readScalar_written {care : Care} {c : Char} {r rest : Text} {v : Value}
    (h : Gives (readScalar care c r) v rest) :
    ∃ w, Denotes care .value w v ∧ (∀ opened, Allowed care opened v) ∧ c :: r = w ++ rest := by
  unfold readScalar at h
  dsimp only at h
  split at h
  · obtain ⟨rfl, rfl⟩ := named_written h
    exact ⟨_, .null, fun _ _ => .null, by simp [*]⟩
  · split at h
    · obtain ⟨rfl, rfl⟩ := named_written h
      exact ⟨_, .isTrue, fun _ _ => .bool, by simp [*]⟩
    · split at h
      · obtain ⟨rfl, rfl⟩ := named_written h
        exact ⟨_, .isFalse, fun _ _ => .bool, by simp [*]⟩
      · split at h
        · subst c
          obtain ⟨t, left, _, hread, h⟩ := h.of_bind_gives
          obtain ⟨rfl, (rfl : left = rest)⟩ := gives_pure_iff.1 h
          obtain ⟨w, hw, rfl⟩ := readString_written hread
          exact ⟨_, .string hw, fun _ _ => .string, by simp⟩
        · split at h
          · obtain ⟨n, left, _, hread, h⟩ := h.of_bind_gives
            obtain ⟨rfl, (rfl : left = rest)⟩ := gives_pure_iff.1 h
            obtain ⟨hrange, w, hw, hs⟩ := readNumber_written hread
            exact ⟨w, .number hw, fun _ => allowed_number_iff.2 hrange, hs⟩
          · exact absurd h not_gives_throw

/-! ## Every value -/

section Values

variable {care : Care} {s : Text}

/-- A value that is read from the text was written in front of what is left, behind blanks. -/
def ValueWritten (care : Care) (s : Text) : Prop :=
  ∀ opened v rest, Gives (readValue care opened s) v rest →
    Allowed care opened v ∧ ∃ g w, IsGap g ∧ Denotes care .value w v ∧ s = g ++ (w ++ rest)

def ItemsWritten (care : Care) (s : Text) : Prop :=
  ∀ opened vs rest, Gives (readItems care opened s) vs rest →
    (∀ v ∈ vs, Allowed care opened v) ∧
      ∃ w, Denotes care .items w (.array vs) ∧ s = w ++ ']' :: rest

def MembersWritten (care : Care) (s : Text) : Prop :=
  ∀ opened ms rest, Gives (readMembers care opened s) ms rest →
    (∀ m ∈ ms, Allowed care opened m.2) ∧
      ∃ w, Denotes care .members w (.object ms) ∧ s = w ++ '\x7d' :: rest

theorem valueWritten_of (hitems : ∀ r : Tail s, ItemsWritten care r.1)
    (hmembers : ∀ r : Tail s, MembersWritten care r.1) : ValueWritten care s := by
  intro opened v rest h
  rw [readValue] at h
  split at h
  · exact absurd h not_gives_throw
  · rename_i c r hnext
    obtain ⟨g, hg, hs⟩ := next?_written hnext
    split at h
    · subst c
      split at h
      · exact absurd h not_gives_throw
      · rename_i hdeep
        have hroom : tooDeep care (opened + 1) = false := by simpa using hdeep
        split at h
        · rename_i t hclose
          obtain ⟨rfl, (rfl : t.1 = rest)⟩ := gives_pure_iff.1 h
          obtain ⟨b, hb, hr⟩ := next?_written hclose
          exact ⟨allowed_array_iff.2 ⟨hroom, List.forall_mem_nil _⟩, g, _, hg, .noItems hb,
            by simp [hs, hr]⟩
        · obtain ⟨vs, left, _, hread, h⟩ := h.of_bind_gives
          obtain ⟨rfl, (rfl : left = rest)⟩ := gives_pure_iff.1 h
          obtain ⟨hvs, w, hw, hr⟩ := hitems r _ _ _ hread
          exact ⟨allowed_array_iff.2 ⟨hroom, hvs⟩, g, _, hg, .array hw, by simp [hs, hr]⟩
    · split at h
      · subst c
        split at h
        · exact absurd h not_gives_throw
        · rename_i hdeep
          have hroom : tooDeep care (opened + 1) = false := by simpa using hdeep
          split at h
          · rename_i t hclose
            obtain ⟨rfl, (rfl : t.1 = rest)⟩ := gives_pure_iff.1 h
            obtain ⟨b, hb, hr⟩ := next?_written hclose
            exact ⟨allowed_object_iff.2 ⟨hroom, List.forall_mem_nil _⟩, g, _, hg, .noMembers hb,
              by simp [hs, hr]⟩
          · obtain ⟨ms, left, _, hread, h⟩ := h.of_bind_gives
            obtain ⟨rfl, (rfl : left = rest)⟩ := gives_pure_iff.1 h
            obtain ⟨hms, w, hw, hr⟩ := hmembers r _ _ _ hread
            exact ⟨allowed_object_iff.2 ⟨hroom, hms⟩, g, _, hg, .object hw, by simp [hs, hr]⟩
      · obtain ⟨x, left, _, hread, h⟩ := h.of_bind_gives
        obtain ⟨rfl, (rfl : left = rest)⟩ := gives_pure_iff.1 h
        obtain ⟨w, hw, hallowed, hr⟩ := readScalar_written hread
        exact ⟨hallowed opened, g, w, hg, hw, by rw [hs, hr]⟩

theorem itemsWritten_of (hvalue : ValueWritten care s)
    (hitems : ∀ r : Tail s, ItemsWritten care r.1) : ItemsWritten care s := by
  intro opened vs rest h
  rw [readItems] at h
  obtain ⟨v, left, hleft, hread, h⟩ := h.of_bind_gives
  obtain ⟨hv, g, w, hg, hw, hs⟩ := hvalue _ _ _ hread
  dsimp only at h
  split at h
  · rename_i u hnext
    obtain ⟨b, hb, hcomma⟩ := next?_written hnext
    obtain ⟨xs, left', _, hread, h⟩ := h.of_bind_gives
    obtain ⟨rfl, (rfl : left' = rest)⟩ := gives_pure_iff.1 h
    obtain ⟨hxs, w', hw', hr⟩ := hitems _ _ _ _ hread
    refine ⟨List.forall_mem_cons.2 ⟨hv, hxs⟩, _, .comma (.item hg hw hb) hw', ?_⟩
    dsimp only [Tail.within] at hcomma hr
    simp [hs, hcomma, hr]
  · rename_i u hnext
    obtain ⟨rfl, (rfl : u.1 = rest)⟩ := gives_pure_iff.1 h
    obtain ⟨b, hb, hclose⟩ := next?_written hnext
    exact ⟨by simpa using hv, _, .last (.item hg hw hb), by simp [hs, hclose]⟩
  · exact absurd h not_gives_throw
  · exact absurd h not_gives_throw

theorem membersWritten_of (hvalue : ∀ r : Tail s, ValueWritten care r.1)
    (hmembers : ∀ r : Tail s, MembersWritten care r.1) : MembersWritten care s := by
  intro opened ms rest h
  rw [readMembers] at h
  split at h
  · rename_i q hquote
    obtain ⟨g, hg, hs⟩ := next?_written hquote
    obtain ⟨key, k, hk, hread, h⟩ := h.of_bind_gives
    obtain ⟨w, hw, hq⟩ := readString_written hread
    dsimp only at h
    split at h
    · rename_i p hcolon
      obtain ⟨mid, hmid, hk'⟩ := next?_written hcolon
      obtain ⟨v, left, hleft, hread, h⟩ := h.of_bind_gives
      obtain ⟨hv, front, u, hfront, hu, hp⟩ := hvalue _ _ _ _ hread
      dsimp only at h
      split at h
      · rename_i x hnext
        obtain ⟨b, hb, hcomma⟩ := next?_written hnext
        obtain ⟨others, left', _, hread, h⟩ := h.of_bind_gives
        obtain ⟨rfl, (rfl : left' = rest)⟩ := gives_pure_iff.1 h
        obtain ⟨hothers, w', hw', hr⟩ := hmembers _ _ _ _ hread
        refine ⟨List.forall_mem_cons.2 ⟨hv, hothers⟩, _,
          .commaMember hg hw hmid (.item hfront hu hb) hw', ?_⟩
        dsimp only [Tail.within] at hk' hp hcomma hr
        simp [hs, hq, hk', hp, hcomma, hr, member]
      · rename_i x hnext
        obtain ⟨rfl, (rfl : x.1 = rest)⟩ := gives_pure_iff.1 h
        obtain ⟨b, hb, hclose⟩ := next?_written hnext
        refine ⟨by simpa using hv, _, .lastMember hg hw hmid (.item hfront hu hb), ?_⟩
        dsimp only [Tail.within] at hk' hp hclose
        simp [hs, hq, hk', hp, hclose, member]
      · exact absurd h not_gives_throw
      · exact absurd h not_gives_throw
    · exact absurd h not_gives_throw
    · exact absurd h not_gives_throw
  · exact absurd h not_gives_throw
  · exact absurd h not_gives_throw

/-- **What is read from a text is written in it**, in front of what is left. -/
theorem readsWritten (care : Care) (s : Text) :
    ValueWritten care s ∧ ItemsWritten care s ∧ MembersWritten care s := by
  induction hlength : s.length using Nat.strongRecOn generalizing s with
  | ind n ih =>
    subst hlength
    -- every call but that of the first item is for a shorter text
    have hvalue : ValueWritten care s :=
      valueWritten_of (fun r => (ih r.1.length r.2 r.1 rfl).2.1)
        fun r => (ih r.1.length r.2 r.1 rfl).2.2
    exact ⟨hvalue, itemsWritten_of hvalue fun r => (ih r.1.length r.2 r.1 rfl).2.1,
      membersWritten_of (fun r => (ih r.1.length r.2 r.1 rfl).1)
        fun r => (ih r.1.length r.2 r.1 rfl).2.2⟩

end Values

/-! ## Whole texts -/

/-- **A text is parsed as what it denotes**, if that is within the limits, and not at all
otherwise. -/
theorem parse_eq_ok_iff {t : Text} {v : Value} :
    parse t = .ok v ↔ Denotes .built .item t v ∧ v.Fits 0 := by
  constructor
  · intro h
    obtain ⟨⟨x, rest⟩, hread, h⟩ := (bind_eq_ok_iff _ _ _).1 h
    obtain ⟨_, hend, h⟩ := (bind_eq_ok_iff _ _ _).1 h
    obtain rfl : x = v := Except.ok.inj h
    obtain ⟨hfits, g, w, hg, hw, hs⟩ := (readsWritten .built t).1 0 x rest.1 ⟨rest.2, hread⟩
    exact ⟨hs ▸ .item hg hw (isGap_of_atEnd hend), hfits rfl⟩
  · rintro ⟨hv, hfits⟩
    obtain ⟨g, hg, hread⟩ := hv.reads 0 (fun _ => hfits) [] nofun
    rw [List.append_nil, List.append_nil] at hread
    obtain ⟨_, hread⟩ := hread
    rw [parse, hread]
    change (atEnd g >>= fun _ => _) = _
    rw [atEnd_eq hg]
    rfl

end Json

end QueryEditor
