import QueryEditor.Language.Token
import QueryEditor.Proofs.Text.Runs

/-!
# The lexical grammar of a line

What the tokens of a line are meant to be, said without the tokenizer. A lexeme of a kind is a piece
of the line together with what follows it on the line, as several kinds look at what follows. At no
place are there two of them, and what no lexeme of another kind can start with is a character on its
own. So there is one way to cut a line into lexemes, and the tokens are it.

* `Token.Spelled`: the lexemes of the five kinds that are shown, `Token.Lexeme`: all of them;
* `Token.next?_of_spelled`, `Token.readsLexeme_or_none`: every lexeme at the front of a text is the
  token there, and the token there is a lexeme;
* **`Token.lexeme_iff`**: what is a lexeme at the front of a text;
* `Token.Tiles`: tokens one right behind the other, `Token.Lexed`: the ways to cut a line;
* **`Token.tokens_lexed`**: the tokens of a line are the one way.
-/

namespace QueryEditor

namespace Token

def comparisons : Text := ['=', '<', '>', '!']

def connectives : Text := ['&', '|', '~']

/-- The lexemes of glyphs, operators, strings, numbers and names, each with what may follow it. -/
inductive Spelled : TokenKind → Text → Text → Prop
  /-- A glyph is closed by the first closing bracket, with something in between. -/
  | glyph {body r} : body ≠ [] → '>' ∉ body → Spelled .keyword ('<' :: (body ++ ['>'])) r
  | arrow {r} : Spelled .operator ['-', '>'] r
  /-- An opening bracket is a comparison where it opens no glyph. -/
  | comparison {c r} : c ∈ comparisons → r.head? ≠ some '=' →
      (c = '<' → r.head? = some '>' ∨ '>' ∉ r) → Spelled .operator [c] r
  | comparisonOrEqual {c r} : c ∈ comparisons → (c = '<' → '>' ∉ r) → Spelled .operator [c, '='] r
  | connective {c r} : c ∈ connectives → Spelled .operator [c] r
  | closed {body r} : '\'' ∉ body → Spelled .string ('\'' :: (body ++ ['\''])) r
  | unclosed {body} : '\'' ∉ body → Spelled .string ('\'' :: body) []
  | number {c w r} : c.isDigit = true → w.all Char.isDigit = true →
      (∀ x, r.head? = some x → x.isDigit = false) → Spelled .number (c :: w) r
  | name {c w r} : isNameStart c = true → w.all isNameChar = true →
      (∀ x, r.head? = some x → isNameChar x = false) → Spelled .identifier (c :: w) r

/-- The lexemes of all kinds: those that are shown, and a single character at a place where none of
them starts. -/
inductive Lexeme : TokenKind → Text → Text → Prop
  | spelled {k w r} : Spelled k w r → Lexeme k w r
  | none {c r} : (∀ k v s, v ++ s = c :: r → ¬ Spelled k v s) → Lexeme .none [c] r

/-! ## Characters -/

theorem isDigit_of_isNameStart {c : Char} (h : isNameStart c = true) : c.isDigit = false := by
  refine Bool.eq_false_iff.2 fun hdigit => ?_
  have hrange := toNat_of_isDigit hdigit
  rcases Bool.or_eq_true_iff.1 h with hletter | hscore
  · have := toNat_of_isAlpha hletter
    omega
  · rw [beq_iff_eq.1 hscore] at hrange
    exact absurd hrange (by decide)

/-- The characters that start an operator, a glyph or a string. -/
def marks : Text := '-' :: '\'' :: (comparisons ++ connectives)

theorem mem_marks_of_comparison {c : Char} (h : c ∈ comparisons) : c ∈ marks :=
  List.mem_cons_of_mem _ (List.mem_cons_of_mem _ (List.mem_append_left _ h))

theorem mem_marks_of_connective {c : Char} (h : c ∈ connectives) : c ∈ marks :=
  List.mem_cons_of_mem _ (List.mem_cons_of_mem _ (List.mem_append_right _ h))

theorem not_of_mem_marks {c : Char} (h : c ∈ marks) : c.isDigit = false ∧ isNameStart c = false := by
  have hall : marks.all (fun c => !c.isDigit && !isNameStart c) = true := by decide
  have hc := List.all_eq_true.1 hall c h
  rwa [Bool.and_eq_true, Bool.not_eq_true', Bool.not_eq_true'] at hc

/-! ## Closing characters -/

section Before

variable {close : Char} {body rest : Text} {n : Nat}

theorem before?_eq_some (h : close ∉ body) (r : Text) :
    before? close (body ++ close :: r) = some body.length := by
  have hbody : body.findIdx? (· == close) = none :=
    List.findIdx?_eq_none_iff.2 fun x hx => beq_eq_false_iff_ne.2 fun e => h (e ▸ hx)
  rw [before?, List.findIdx?_append, hbody, List.findIdx?_cons, if_pos (beq_self_eq_true close)]
  simp

theorem before?_eq_none (h : close ∉ rest) : before? close rest = none :=
  List.findIdx?_eq_none_iff.2 fun _ hx => beq_eq_false_iff_ne.2 fun e => h (e ▸ hx)

theorem not_mem_of_before? (h : before? close rest = none) : close ∉ rest := fun hmem =>
  absurd (beq_self_eq_true close) (Bool.eq_false_iff.1 (List.findIdx?_eq_none_iff.1 h close hmem))

theorem exists_of_before? (h : before? close rest = some n) :
    ∃ body r, rest = body ++ close :: r ∧ close ∉ body ∧ body.length = n := by
  obtain ⟨hlt, hclose, hbody⟩ := List.findIdx?_eq_some_iff_getElem.1 h
  refine ⟨rest.take n, rest.drop (n + 1), ?_, ?_, List.length_take_of_le (Nat.le_of_lt hlt)⟩
  · rw [← beq_iff_eq.1 hclose, List.getElem_cons_drop, List.take_append_drop]
  · intro hmem
    obtain ⟨i, hi, hget⟩ := List.mem_take_iff_getElem.1 hmem
    exact hbody i (by omega) (by rw [hget]; exact beq_self_eq_true close)

end Before

/-! ## The rules, one for each first character -/

section Leading

variable {c : Char} {rest w r : Text} {k : TokenKind} {n : Nat}

theorem leading_glyph (h : before? '>' rest = some (n + 1)) :
    leading '<' rest = (.keyword, n + 2) := by simp [leading, h]

theorem leading_open (h : rest.head? = some '>' ∨ '>' ∉ rest) :
    leading '<' rest = (.operator, if rest.head? = some '=' then 1 else 0) := by
  have hbefore : before? '>' rest = some 0 ∨ before? '>' rest = none := by
    rcases h with h | h
    · obtain ⟨s, rfl⟩ := List.head?_eq_some_iff.1 h
      exact .inl rfl
    · exact .inr (before?_eq_none h)
  rcases hbefore with hbefore | hbefore <;> simp [leading, hbefore]

theorem leading_of_ne (hc : c ≠ '<') (rest : Text) : leading c rest =
    if c = '-' ∧ rest.head? = some '>' then (.operator, 1)
    else if c ∈ comparisons then (.operator, if rest.head? = some '=' then 1 else 0)
    else if c ∈ connectives then (.operator, 0)
    else if c = '\'' then
      match before? '\'' rest with
      | some n => (.string, n + 1)
      | none => (.string, rest.length)
    else if c.isDigit then (.number, (rest.takeWhile Char.isDigit).length)
    else if isNameStart c then (.identifier, (rest.takeWhile isNameChar).length)
    else (.none, 0) := by
  have hcomparisons : (c = '=' ∨ c = '<' ∨ c = '>' ∨ c = '!') = (c ∈ comparisons) := by
    simp [comparisons]
  have hconnectives : (c = '&' ∨ c = '|' ∨ c = '~') = (c ∈ connectives) := by simp [connectives]
  unfold leading
  split
  · exact absurd rfl hc
  · refine ite_congr rfl (fun _ => rfl) fun _ => ?_
    refine ite_congr hcomparisons (fun _ => rfl) fun _ => ?_
    exact ite_congr hconnectives (fun _ => rfl) fun _ => rfl

theorem leading_comparison (hc : c ∈ comparisons)
    (hopen : c = '<' → rest.head? = some '>' ∨ '>' ∉ rest) :
    leading c rest = (.operator, if rest.head? = some '=' then 1 else 0) := by
  by_cases hbracket : c = '<'
  · subst hbracket
    exact leading_open (hopen rfl)
  · have harrow : ¬ (c = '-' ∧ rest.head? = some '>') := fun h => absurd (h.1 ▸ hc) (by decide)
    rw [leading_of_ne hbracket, if_neg harrow, if_pos hc]

theorem leading_connective (hc : c ∈ connectives) (rest : Text) :
    leading c rest = (.operator, 0) := by
  have hne : c ≠ '<' ∧ c ≠ '-' ∧ c ∉ comparisons := by
    simp only [connectives, List.mem_cons, List.not_mem_nil, or_false] at hc
    rcases hc with rfl | rfl | rfl <;> decide
  rw [leading_of_ne hne.1, if_neg fun h => hne.2.1 h.1, if_neg hne.2.2, if_pos hc]

theorem leading_dash (h : rest.head? ≠ some '>') : leading '-' rest = (.none, 0) := by
  rw [leading_of_ne (by decide), if_neg fun harrow => h harrow.2]
  rfl

theorem leading_closed (h : before? '\'' rest = some n) :
    leading '\'' rest = (.string, n + 1) := by
  rw [leading_of_ne (by decide), h]
  rfl

theorem leading_unclosed (h : '\'' ∉ rest) : leading '\'' rest = (.string, rest.length) := by
  rw [leading_of_ne (by decide), before?_eq_none h]
  rfl

theorem leading_of_not_mem (hc : c ∉ marks) (rest : Text) : leading c rest =
    if c.isDigit then (.number, (rest.takeWhile Char.isDigit).length)
    else if isNameStart c then (.identifier, (rest.takeWhile isNameChar).length)
    else (.none, 0) := by
  simp only [marks, List.mem_cons, List.mem_append, not_or] at hc
  obtain ⟨harrow, hquote, hcomparison, hconnective⟩ := hc
  have hbracket : c ≠ '<' := fun h => hcomparison (h ▸ by decide)
  rw [leading_of_ne hbracket, if_neg fun h => harrow h.1, if_neg hcomparison, if_neg hconnective,
    if_neg hquote]

theorem leading_number (hc : c.isDigit = true) (rest : Text) :
    leading c rest = (.number, (rest.takeWhile Char.isDigit).length) := by
  have hmark : c ∉ marks := fun h => absurd hc (Bool.eq_false_iff.1 (not_of_mem_marks h).1)
  rw [leading_of_not_mem hmark, if_pos hc]

theorem leading_name (hc : isNameStart c = true) (rest : Text) :
    leading c rest = (.identifier, (rest.takeWhile isNameChar).length) := by
  have hmark : c ∉ marks := fun h => absurd hc (Bool.eq_false_iff.1 (not_of_mem_marks h).2)
  rw [leading_of_not_mem hmark, if_neg (Bool.eq_false_iff.1 (isDigit_of_isNameStart hc)),
    if_pos hc]

/-! ## The token at the front -/

theorem next?_of_spelled (h : Spelled k w r) : next? (w ++ r) = some (k, w.length) := by
  cases h with
  | @glyph body r hne hbody =>
    obtain ⟨b, body', rfl⟩ := List.exists_cons_of_ne_nil hne
    have hbefore : before? '>' (b :: body' ++ '>' :: r) = some (body'.length + 1) :=
      before?_eq_some hbody r
    have hrest : '<' :: (b :: body' ++ ['>']) ++ r = '<' :: (b :: body' ++ '>' :: r) := by simp
    rw [hrest, next?, leading_glyph hbefore]
    simp
  | arrow => rfl
  | @comparison c r hc hequal hopen =>
    rw [List.singleton_append, next?, leading_comparison hc hopen, if_neg hequal]
    rfl
  | @comparisonOrEqual c r hc hopen =>
    have hopen' : c = '<' → ('=' :: r).head? = some '>' ∨ '>' ∉ '=' :: r := fun e =>
      .inr fun hmem => (List.mem_cons.1 hmem).elim (by decide) (hopen e)
    rw [List.cons_append, List.singleton_append, next?, leading_comparison hc hopen']
    rfl
  | @connective c r hc =>
    rw [List.singleton_append, next?, leading_connective hc]
    rfl
  | @closed body r hbody =>
    have hrest : '\'' :: (body ++ ['\'']) ++ r = '\'' :: (body ++ '\'' :: r) := by simp
    rw [hrest, next?, leading_closed (before?_eq_some hbody r)]
    simp
  | @unclosed body hbody =>
    rw [List.append_nil, next?, leading_unclosed hbody]
    rfl
  | @number c w r hc hw hr =>
    rw [List.cons_append, next?, leading_number hc, takeWhile_append hw hr]
    rfl
  | @name c w r hc hw hr =>
    rw [List.cons_append, next?, leading_name hc, takeWhile_append hw hr]
    rfl

/-- The characters from `c` on that the tokenizer takes make a lexeme of the kind that it says. -/
def ReadsLexeme (c : Char) (rest : Text) : Prop :=
  Spelled (leading c rest).1 (c :: rest.take (leading c rest).2) (rest.drop (leading c rest).2)

theorem readsLexeme_glyph (h : before? '>' rest = some (n + 1)) : ReadsLexeme '<' rest := by
  obtain ⟨body, r, rfl, hbody, hlength⟩ := exists_of_before? h
  have hglyph : body ++ '>' :: r = (body ++ ['>']) ++ r := by simp
  have hend : n + 2 = (body ++ ['>']).length := by simp [hlength]
  rw [ReadsLexeme, leading_glyph h, hglyph, hend, List.take_left, List.drop_left]
  exact .glyph (List.length_pos_iff.1 (by omega)) hbody

theorem readsLexeme_comparison (hc : c ∈ comparisons)
    (hopen : c = '<' → rest.head? = some '>' ∨ '>' ∉ rest) : ReadsLexeme c rest := by
  rw [ReadsLexeme, leading_comparison hc hopen]
  by_cases hequal : rest.head? = some '='
  · obtain ⟨r, rfl⟩ := List.head?_eq_some_iff.1 hequal
    rw [if_pos hequal]
    refine .comparisonOrEqual hc fun e => ?_
    rcases hopen e with h | h
    · exact absurd h (by simp)
    · exact fun hmem => h (List.mem_cons_of_mem _ hmem)
  · rw [if_neg hequal]
    exact .comparison hc hequal hopen

theorem readsLexeme_bracket (rest : Text) : ReadsLexeme '<' rest := by
  match h : before? '>' rest with
  | some (n + 1) => exact readsLexeme_glyph h
  | some 0 =>
    obtain ⟨body, r, rfl, -, hlength⟩ := exists_of_before? h
    obtain rfl := List.length_eq_zero_iff.1 hlength
    exact readsLexeme_comparison (by decide) fun _ => .inl rfl
  | none => exact readsLexeme_comparison (by decide) fun _ => .inr (not_mem_of_before? h)

theorem readsLexeme_quote (rest : Text) : ReadsLexeme '\'' rest := by
  match h : before? '\'' rest with
  | some n =>
    obtain ⟨body, r, rfl, hbody, hlength⟩ := exists_of_before? h
    have hclosed : body ++ '\'' :: r = (body ++ ['\'']) ++ r := by simp
    have hend : n + 1 = (body ++ ['\'']).length := by simp [hlength]
    rw [ReadsLexeme, leading_closed h, hclosed, hend, List.take_left, List.drop_left]
    exact .closed hbody
  | none =>
    have hbody := not_mem_of_before? h
    rw [ReadsLexeme, leading_unclosed hbody, List.take_length, List.drop_length]
    exact .unclosed hbody

theorem readsLexeme_number (hc : c.isDigit = true) (rest : Text) : ReadsLexeme c rest := by
  rw [ReadsLexeme, leading_number hc, take_length_takeWhile, drop_length_takeWhile]
  exact .number hc List.all_takeWhile fun _ => not_of_head?_dropWhile

theorem readsLexeme_name (hc : isNameStart c = true) (rest : Text) : ReadsLexeme c rest := by
  rw [ReadsLexeme, leading_name hc, take_length_takeWhile, drop_length_takeWhile]
  exact .name hc List.all_takeWhile fun _ => not_of_head?_dropWhile

/-- **What the tokenizer takes is a lexeme**, or it is one character that is not shown. -/
theorem readsLexeme_or_none (c : Char) (rest : Text) :
    ReadsLexeme c rest ∨ leading c rest = (.none, 0) := by
  by_cases hmark : c ∈ marks
  · simp only [marks, List.mem_cons, List.mem_append] at hmark
    rcases hmark with rfl | rfl | hcomparison | hconnective
    · by_cases harrow : rest.head? = some '>'
      · obtain ⟨r, rfl⟩ := List.head?_eq_some_iff.1 harrow
        exact .inl .arrow
      · exact .inr (leading_dash harrow)
    · exact .inl (readsLexeme_quote rest)
    · by_cases hbracket : c = '<'
      · exact .inl (hbracket ▸ readsLexeme_bracket rest)
      · exact .inl (readsLexeme_comparison hcomparison fun e => absurd e hbracket)
    · refine .inl ?_
      rw [ReadsLexeme, leading_connective hconnective]
      exact .connective hconnective
  · by_cases hdigit : c.isDigit = true
    · exact .inl (readsLexeme_number hdigit rest)
    · by_cases hname : isNameStart c = true
      · exact .inl (readsLexeme_name hname rest)
      · right
        rw [leading_of_not_mem hmark, if_neg hdigit, if_neg hname]

theorem Spelled.kind_ne_none (h : Spelled k w r) : k ≠ .none := by cases h <;> decide

theorem Lexeme.ne_nil (h : Lexeme k w r) : w ≠ [] := by
  cases h with
  | spelled h => cases h <;> exact List.cons_ne_nil _ _
  | none => exact List.cons_ne_nil _ _

/-- **The lexemes at the front of a text**: there is one, and it is the token there. -/
theorem lexeme_iff : Lexeme k w r ↔ next? (w ++ r) = some (k, w.length) := by
  constructor
  · rintro (h | hnone)
    · exact next?_of_spelled h
    · rename_i c
      rw [List.singleton_append, next?]
      rcases readsLexeme_or_none c r with h | h
      · exact absurd h (hnone _ _ _ (by rw [List.cons_append, List.take_append_drop]))
      · rw [h]
        rfl
  · intro h
    cases w with
    | nil => cases r <;> cases h
    | cons c w =>
      rw [List.cons_append, next?, Option.some.injEq, Prod.mk.injEq] at h
      obtain ⟨rfl, hlength⟩ := h
      rw [List.length_cons, Nat.add_right_cancel_iff] at hlength
      rcases readsLexeme_or_none c (w ++ r) with h | h
      · rw [ReadsLexeme, hlength, List.take_left, List.drop_left] at h
        exact .spelled h
      · rw [h] at hlength
        obtain rfl := List.length_eq_zero_iff.1 hlength.symm
        rw [List.nil_append] at h ⊢
        rw [h]
        refine .none fun k v s hcut hspelled => ?_
        have hnext := next?_of_spelled hspelled
        rw [hcut, next?, h, Option.some.injEq, Prod.mk.injEq] at hnext
        exact hspelled.kind_ne_none hnext.1.symm

/-- Digits are not cut apart: behind a lexeme that ends with a digit comes none. -/
theorem Lexeme.isDigit_head (h : Lexeme k w r) {x y : Char} (hx : w.getLast? = some x)
    (hdigit : x.isDigit = true) (hy : r.head? = some y) : y.isDigit = false := by
  have hlast : ∀ {v : Text} {z : Char}, w = v ++ [z] → z.isDigit = true := fun hw => by
    rw [hw, List.getLast?_concat, Option.some.injEq] at hx
    rwa [hx]
  rcases h with h | hnone
  · cases h with
    | @glyph body r _ _ => exact absurd (hlast (v := '<' :: body) rfl) (by decide)
    | arrow => exact absurd (hlast (v := ['-']) rfl) (by decide)
    | comparison hc =>
      have hmark := not_of_mem_marks (mem_marks_of_comparison hc)
      exact absurd (hlast (v := []) rfl) (Bool.eq_false_iff.1 hmark.1)
    | @comparisonOrEqual c => exact absurd (hlast (v := [c]) rfl) (by decide)
    | connective hc =>
      have hmark := not_of_mem_marks (mem_marks_of_connective hc)
      exact absurd (hlast (v := []) rfl) (Bool.eq_false_iff.1 hmark.1)
    | @closed body => exact absurd (hlast (v := '\'' :: body) rfl) (by decide)
    | unclosed => cases hy
    | number _ _ hr => exact hr y hy
    | name _ _ hr =>
      have hname := hr y hy
      rw [isNameChar, Bool.or_eq_false_iff, Char.isAlphanum, Bool.or_eq_false_iff] at hname
      exact hname.1.2
  · -- a digit starts a number, so it does not stand alone
    rename_i c
    have hc : c.isDigit = true := hlast (v := []) rfl
    exact absurd (readsLexeme_number hc r)
      (hnone _ _ _ (by rw [List.cons_append, List.take_append_drop]))

end Leading

/-! ## One lexeme after the other -/

section Next

variable {w r : Text} {k : TokenKind}

theorem tokensFrom_of_next? (h : next? (w ++ r) = some (k, w.length)) (column : Nat) :
    tokensFrom column (w ++ r) =
      ⟨k, column, w.length⟩ :: tokensFrom (column + w.length) r := by
  match hrest : w ++ r with
  | [] =>
    rw [hrest] at h
    cases h
  | c :: rest =>
    rw [hrest, next?, Option.some.injEq, Prod.mk.injEq] at h
    obtain ⟨hkind, hmore⟩ := h
    have hdrop : rest.drop (leading c rest).2 = r := by
      rw [← List.drop_succ_cons (a := c), ← hrest, hmore, List.drop_left]
    rw [tokensFrom]
    change (⟨(leading c rest).1, column, (leading c rest).2 + 1⟩ : Token) ::
      tokensFrom (column + (leading c rest).2 + 1) (rest.drop (leading c rest).2) = _
    rw [hkind, hdrop, Nat.add_assoc, hmore]

theorem exists_next? (c : Char) (rest : Text) :
    ∃ k w r, c :: rest = w ++ r ∧ next? (w ++ r) = some (k, w.length) := by
  have hcut : c :: rest = (c :: rest.take (leading c rest).2) ++ rest.drop (leading c rest).2 := by
    rw [List.cons_append, List.take_append_drop]
  refine ⟨(leading c rest).1, _, _, hcut, ?_⟩
  rw [← hcut, next?, List.length_cons, List.length_take_of_le (leading_le c rest)]

/-- What holds of no text and goes over from a text to one with a token in front of it holds of
every text. -/
theorem next?_induction {motive : Text → Prop} (nil : motive [])
    (append : ∀ k w r, next? (w ++ r) = some (k, w.length) → motive r → motive (w ++ r))
    (t : Text) : motive t := by
  induction hn : t.length using Nat.strongRecOn generalizing t with
  | ind n ih =>
    match t with
    | [] => exact nil
    | c :: rest =>
      obtain ⟨k, w, r, hcut, hnext⟩ := exists_next? c rest
      have hpos := List.length_pos_iff.2 (lexeme_iff.2 hnext).ne_nil
      rw [hcut, List.length_append] at hn
      rw [hcut]
      exact append k w r hnext (ih r.length (by omega) r rfl)

end Next

/-! ## Lines cut into lexemes -/

/-- Tokens one right behind the other, from a column up to another one, none of them empty. -/
def Tiles : Nat → List Token → Nat → Prop
  | column, [], stop => column = stop
  | column, t :: ts, stop => t.start = column ∧ 1 ≤ t.length ∧ Tiles t.stop ts stop

/-- The token stands for a lexeme of its kind and of no other, and a number has no digit in front of
it. -/
structure Fits (line : Text) (t : Token) : Prop where
  kind : ∀ k, Lexeme k (line.cut t.start t.stop) (line.drop t.stop) ↔ k = t.kind
  whole : t.kind = .number → ∀ c, (line.take t.start).getLast? = some c → c.isDigit = false

/-- The tokens cut the line into lexemes, from its first column to its end. -/
structure Lexed (line : Text) (ts : List Token) : Prop where
  tiles : Tiles 0 ts line.length
  fits : ∀ t ∈ ts, t.Fits line

/-- No run of digits goes on from one text to the other. -/
def Apart (before rest : Text) : Prop :=
  ∀ x y, before.getLast? = some x → rest.head? = some y → x.isDigit = true → y.isDigit = false

variable {before rest w r : Text} {ts : List Token} {k : TokenKind} {column last : Nat}

theorem Tiles.length_le (h : Tiles column ts last) : column + ts.length ≤ last := by
  induction ts generalizing column with
  | nil => exact Nat.le_of_eq h
  | cons t ts ih =>
    obtain ⟨hstart, hlength, hrest⟩ := h
    have := ih hrest
    rw [Token.stop, hstart] at this
    rw [List.length_cons]
    omega

theorem tiles_tokensFrom (column : Nat) (t : Text) :
    Tiles column (tokensFrom column t) (column + t.length) := by
  induction t using next?_induction generalizing column with
  | nil =>
    rw [tokensFrom]
    rfl
  | append k w r hnext ih =>
    have hpos := List.length_pos_iff.2 (lexeme_iff.2 hnext).ne_nil
    rw [tokensFrom_of_next? hnext, List.length_append, ← Nat.add_assoc]
    exact ⟨rfl, hpos, ih _⟩

theorem Lexeme.apart (h : Lexeme k w r) (before : Text) : Apart (before ++ w) r := by
  intro x y hx hy hdigit
  rw [List.getLast?_append, List.getLast?_eq_some_getLast h.ne_nil, Option.some_or,
    ← List.getLast?_eq_some_getLast h.ne_nil] at hx
  exact h.isDigit_head hx hdigit hy

theorem Lexeme.isDigit_of_number (h : Lexeme .number w r) :
    ∃ c v, w = c :: v ∧ c.isDigit = true := by
  rcases h with h | -
  cases h with
  | number hc _ _ => exact ⟨_, _, rfl, hc⟩

theorem lexeme_cut_iff (before w r : Text) (k : TokenKind) :
    Lexeme k ((before ++ (w ++ r)).cut before.length (before ++ w).length)
      ((before ++ (w ++ r)).drop (before ++ w).length) ↔ next? (w ++ r) = some (k, w.length) := by
  rw [Text.cut_append, ← List.append_assoc, List.drop_left, lexeme_iff]

theorem fits_next (hnext : next? (w ++ r) = some (k, w.length)) (hapart : Apart before (w ++ r)) :
    Fits (before ++ (w ++ r)) ⟨k, before.length, w.length⟩ where
  kind k' := by
    have hstop : stop ⟨k, before.length, w.length⟩ = (before ++ w).length :=
      List.length_append.symm
    rw [hstop, lexeme_cut_iff, hnext, Option.some.injEq, Prod.mk.injEq]
    exact ⟨fun h => h.1.symm, fun h => ⟨h.symm, rfl⟩⟩
  whole hnumber x hx := by
    obtain rfl : k = .number := hnumber
    obtain ⟨c, v, rfl, hc⟩ := (lexeme_iff.2 hnext).isDigit_of_number
    rw [List.take_left] at hx
    refine Bool.eq_false_iff.2 fun hdigit => ?_
    exact absurd hc (Bool.eq_false_iff.1 (hapart x c hx rfl hdigit))

theorem lexed_tokensFrom (before rest : Text) (hapart : Apart before rest) :
    Tiles before.length (tokensFrom before.length rest) (before ++ rest).length ∧
      ∀ t ∈ tokensFrom before.length rest, t.Fits (before ++ rest) := by
  refine ⟨List.length_append ▸ tiles_tokensFrom before.length rest, ?_⟩
  induction rest using next?_induction generalizing before with
  | nil => simp [tokensFrom]
  | append k w r hnext ih =>
    have hfits := ih (before ++ w) ((lexeme_iff.2 hnext).apart before)
    rw [List.append_assoc, List.length_append] at hfits
    rw [tokensFrom_of_next? hnext]
    exact List.forall_mem_cons.2 ⟨fits_next hnext hapart, hfits⟩

/-- There is no other way to cut the rest of a line. -/
theorem eq_tokensFrom (before rest : Text)
    (htiles : Tiles before.length ts (before ++ rest).length)
    (hfits : ∀ t ∈ ts, t.Fits (before ++ rest)) : ts = tokensFrom before.length rest := by
  induction ts generalizing before rest with
  | nil =>
    have hempty : before.length = (before ++ rest).length := htiles
    rw [List.length_append] at hempty
    obtain rfl : rest = [] := List.length_eq_zero_iff.1 (by omega)
    rw [tokensFrom]
  | cons t ts ih =>
    obtain ⟨hstart, hpos, hrest⟩ := htiles
    obtain ⟨hfirst, hfits⟩ := List.forall_mem_cons.1 hfits
    have hstop : t.stop = before.length + t.length := by rw [Token.stop, hstart]
    have hinside : t.length ≤ rest.length := by
      have := hrest.length_le
      rw [List.length_append] at this
      omega
    obtain ⟨w, r, rfl, hw⟩ : ∃ w r, rest = w ++ r ∧ w.length = t.length :=
      ⟨_, _, (List.take_append_drop t.length rest).symm, List.length_take_of_le hinside⟩
    have hstop' : t.stop = (before ++ w).length := by rw [hstop, List.length_append, hw]
    have hlexeme := (hfirst.kind t.kind).2 rfl
    rw [hstart, hstop', lexeme_cut_iff] at hlexeme
    rw [tokensFrom_of_next? hlexeme, ← List.length_append, ← ih (before ++ w) r]
    · rw [hw, ← hstart]
    · rwa [List.append_assoc, ← hstop']
    · rwa [List.append_assoc]

/-- **The tokens of a line are its lexemes.** There is one way to cut a line into lexemes, whatever
its characters, and the tokens are it; there are no more of them than characters. -/
theorem tokens_lexed (line : Text) :
    (tokens line).length ≤ line.length ∧ ∀ ts, Lexed line ts ↔ ts = tokens line := by
  have hapart : Apart [] line := fun _ _ hx => by cases hx
  obtain ⟨htiles, hfits⟩ := lexed_tokensFrom [] line hapart
  rw [List.nil_append] at htiles hfits
  have hcount := htiles.length_le
  rw [List.length_nil, Nat.zero_add] at hcount
  refine ⟨hcount, fun ts => ⟨fun h => ?_, ?_⟩⟩
  · exact eq_tokensFrom [] line h.tiles h.fits
  · rintro rfl
    exact ⟨htiles, hfits⟩

end Token

end QueryEditor
