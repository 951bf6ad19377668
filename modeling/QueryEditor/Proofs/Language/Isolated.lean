import Mathlib.Data.List.Basic
import QueryEditor.Proofs.Language.Lexemes
import QueryEditor.Proofs.Line.Spans

/-!
# Tokens taken out of their line

Several kinds of tokens look at what follows them: a glyph at a closing bracket anywhere further on,
a string at its closing quote, a comparison at the next character. What they look at is either part
of the token, or it has to be missing. So a token that is taken out of its line is still the one
token of its piece, and what stands behind a token is read as if the line started there.

* `Token.Lexeme.alone`: a lexeme is one whatever followed it, also with nothing behind it;
* `Token.boundaries`: the columns where a line may be cut between its tokens;
* `Token.tokens_cut`, `Token.tokens_drop`: the tokens of a piece and of a rest of a line;
* `Token.Tiles.exists_filter_covers`: one token covers a column;
* `Token.StandAlone`: pieces, rests and spans of a line;
* **`Token.tokens_standAlone`**: they stand alone in every line.
-/

namespace QueryEditor

namespace Token

variable {line w r : Text} {k : TokenKind} {t : Token} {ts : List Token} {column first last : Nat}

/-! ## Lexemes with nothing behind them -/

theorem Spelled.alone (h : Spelled k w r) : Spelled k w [] := by
  cases h with
  | glyph hne hbody => exact .glyph hne hbody
  | arrow => exact .arrow
  | comparison hc => exact .comparison hc nofun fun _ => .inr List.not_mem_nil
  | comparisonOrEqual hc => exact .comparisonOrEqual hc fun _ => List.not_mem_nil
  | connective hc => exact .connective hc
  | closed hbody => exact .closed hbody
  | unclosed hbody => exact .unclosed hbody
  | number hc hw => exact .number hc hw nofun
  | name hc hw => exact .name hc hw nofun

theorem Spelled.readsLexeme {c : Char} (h : Spelled k w []) (hw : w = [c]) (r : Text) :
    ReadsLexeme c r := by
  cases h with
  | @glyph body => exact absurd (congrArg List.length hw) (by simp)
  | arrow => exact absurd (congrArg List.length hw) (by simp)
  | comparison hc =>
    rw [List.singleton_inj.1 hw] at hc
    by_cases hbracket : c = '<'
    · exact hbracket ▸ readsLexeme_bracket r
    · exact readsLexeme_comparison hc fun e => absurd e hbracket
  | comparisonOrEqual => exact absurd (congrArg List.length hw) (by simp)
  | connective hc =>
    rw [List.singleton_inj.1 hw] at hc
    rw [ReadsLexeme, leading_connective hc]
    exact .connective hc
  | @closed body => exact absurd (congrArg List.length hw) (by simp)
  | unclosed => exact (List.cons.inj hw).1 ▸ readsLexeme_quote r
  | number hc => exact readsLexeme_number ((List.cons.inj hw).1 ▸ hc) r
  | name hc => exact readsLexeme_name ((List.cons.inj hw).1 ▸ hc) r

/-- **A lexeme is one whatever followed it.** -/
theorem Lexeme.alone (h : Lexeme k w r) : Lexeme k w [] := by
  rcases h with h | hnone
  · exact .spelled h.alone
  · rename_i c
    refine .none fun k' v s hcut hspelled => ?_
    -- a lexeme of the one character is that character, and would have been one in its line
    obtain ⟨x, v', rfl⟩ := List.exists_cons_of_ne_nil (Lexeme.spelled hspelled).ne_nil
    rw [List.cons_append, List.cons.injEq, List.append_eq_nil_iff] at hcut
    obtain ⟨rfl, rfl, rfl⟩ := hcut
    exact hnone _ _ _ (by rw [List.cons_append, List.take_append_drop])
      (hspelled.readsLexeme rfl r)

/-! ## Where tokens start and stop -/

theorem tiles_tokens (line : Text) : Tiles 0 (tokens line) line.length := by
  have h := tiles_tokensFrom 0 line
  rwa [Nat.zero_add] at h

theorem Tiles.bounds (h : Tiles first ts last) (ht : t ∈ ts) :
    first ≤ t.start ∧ t.start < t.stop ∧ t.stop ≤ last := by
  induction ts generalizing first with
  | nil => exact absurd ht List.not_mem_nil
  | cons u ts ih =>
    obtain ⟨hstart, hpos, hrest⟩ := h
    have hlast := hrest.length_le
    have hstop : u.stop = u.start + u.length := rfl
    rcases List.mem_cons.1 ht with rfl | ht
    · omega
    · have := ih hrest ht
      omega

def covers (column : Nat) (t : Token) : Bool := decide (t.start ≤ column) && decide (column < t.stop)

theorem covers_iff : covers column t = true ↔ t.start ≤ column ∧ column < t.stop := by simp [covers]

/-- **Every column is covered by one token.** -/
theorem Tiles.exists_filter_covers (h : Tiles first ts last) (hfrom : first ≤ column)
    (hto : column < last) : ∃ t, ts.filter (covers column) = [t] := by
  induction ts generalizing first with
  | nil =>
    have hempty : first = last := h
    omega
  | cons u ts ih =>
    obtain ⟨hstart, hpos, hrest⟩ := h
    by_cases hcolumn : column < u.stop
    · have hcovers : covers column u = true := covers_iff.2 ⟨by omega, hcolumn⟩
      have hbehind : ts.filter (covers column) = [] :=
        List.filter_eq_nil_iff.2 fun t ht hcovers => by
          have := hrest.bounds ht
          have := covers_iff.1 hcovers
          omega
      exact ⟨u, by rw [List.filter_cons_of_pos hcovers, hbehind]⟩
    · have hcovers : ¬ covers column u = true := fun hcovers => hcolumn (covers_iff.1 hcovers).2
      rw [List.filter_cons_of_neg hcovers]
      exact ih hrest (Nat.le_of_not_lt hcolumn)

theorem Tiles.filter_covers_of_le (h : Tiles first ts last) (hcolumn : last ≤ column) :
    ts.filter (covers column) = [] :=
  List.filter_eq_nil_iff.2 fun t ht hcovers => by
    have := h.bounds ht
    have := covers_iff.1 hcovers
    omega

/-! ## Pieces and rests of a line -/

/-- The token with its start counted from a column in front of it. -/
def back (column : Nat) (t : Token) : Token := { t with start := t.start - column }

/-- The columns between the tokens of a line: where it starts, and behind each token. -/
def boundaries (line : Text) : List Nat := 0 :: (tokens line).map stop

theorem map_back_tokensFrom (n column : Nat) (t : Text) :
    (tokensFrom (column + n) t).map (back n) = tokensFrom column t := by
  induction t using next?_induction generalizing column with
  | nil =>
    rw [tokensFrom, tokensFrom]
    rfl
  | append k w r hnext ih =>
    rw [tokensFrom_of_next? hnext, tokensFrom_of_next? hnext, List.map_cons, back,
      Nat.add_sub_cancel, Nat.add_right_comm, ih]

theorem tokensFrom_drop (before rest : Text) {b : Nat}
    (hb : b ∈ before.length :: (tokensFrom before.length rest).map stop) :
    tokensFrom b ((before ++ rest).drop b) =
      (tokensFrom before.length rest).filter fun t => b ≤ t.start := by
  induction rest using next?_induction generalizing before with
  | nil =>
    rw [tokensFrom, List.map_nil, List.mem_singleton] at hb
    rw [hb, List.drop_left, tokensFrom, List.filter_nil]
  | append k w r hnext ih =>
    -- a boundary is where the text starts, or one of what follows the first token
    rcases List.mem_cons.1 hb with rfl | hb
    · have hall : ∀ t ∈ tokensFrom before.length (w ++ r), decide (before.length ≤ t.start) = true :=
        fun t ht => decide_eq_true ((tiles_tokensFrom _ _).bounds ht).1
      rw [List.drop_left, List.filter_eq_self.2 hall]
    · rw [tokensFrom_of_next? hnext, List.map_cons] at hb
      have hpos := List.length_pos_iff.2 (lexeme_iff.2 hnext).ne_nil
      have hrest := ih (before ++ w)
      rw [List.append_assoc, List.length_append] at hrest
      have hle : before.length + w.length ≤ b := by
        rcases List.mem_cons.1 hb with rfl | hb
        · exact Nat.le_refl _
        · obtain ⟨t, ht, rfl⟩ := List.mem_map.1 hb
          have := (tiles_tokensFrom _ _).bounds ht
          omega
      have hfront : ¬ b ≤ before.length := by omega
      rw [hrest hb, tokensFrom_of_next? hnext, List.filter_cons_of_neg (by simpa using hfront)]

/-- **The tokens of the rest of a line** from a boundary on are the remaining ones. -/
theorem tokens_drop {b : Nat} (hb : b ∈ boundaries line) :
    tokens (line.drop b) = ((tokens line).filter fun t => b ≤ t.start).map (back b) := by
  have hrest := tokensFrom_drop [] line hb
  rw [List.nil_append] at hrest
  rw [tokens, tokens, ← map_back_tokensFrom b 0, Nat.zero_add, hrest]
  rfl

theorem length_cut (ht : t ∈ tokens line) : (line.cut t.start t.stop).length = t.length := by
  have hbounds := (tiles_tokens line).bounds ht
  have hstop : t.stop = t.start + t.length := rfl
  rw [Text.cut, List.length_drop, List.length_take]
  omega

/-- **A token is the one token of its piece.** -/
theorem tokens_cut (ht : t ∈ tokens line) :
    tokens (line.cut t.start t.stop) = [⟨t.kind, 0, t.length⟩] := by
  have hapart : Apart [] line := fun _ _ hx => by cases hx
  have hfits := (lexed_tokensFrom [] line hapart).2 t ht
  have hlexeme := ((hfits.kind t.kind).2 rfl).alone
  rw [List.nil_append] at hlexeme
  have htokens := tokensFrom_of_next? (lexeme_iff.1 hlexeme) 0
  rw [List.append_nil, length_cut ht, tokensFrom] at htokens
  exact htokens

theorem flatMap_cut (before rest : Text) :
    (tokensFrom before.length rest).flatMap (fun t => (before ++ rest).cut t.start t.stop) =
      rest := by
  induction rest using next?_induction generalizing before with
  | nil =>
    rw [tokensFrom]
    rfl
  | append k w r hnext ih =>
    have hrest := ih (before ++ w)
    rw [List.append_assoc, List.length_append] at hrest
    rw [tokensFrom_of_next? hnext, List.flatMap_cons, hrest]
    have hcut : (before ++ (w ++ r)).cut before.length (before.length + w.length) = w := by
      rw [← List.length_append, Text.cut_append]
    exact congrArg (· ++ r) hcut

/-! ## Spans -/

theorem categoryAt_highlight (line : Text) (column : Nat) :
    categoryAt (highlight line) column =
      (((tokens line).filter (covers column)).find? fun t => t.kind.category ≠ .plain).map
        fun t => t.kind.category := by
  rw [categoryAt, highlight, List.filter_map, List.find?_map, Option.map_map, ← List.head?_filter,
    List.filter_comm, List.head?_filter]
  rfl

theorem category_eq_plain_iff : k.category = .plain ↔ k = .none := by cases k <;> decide

/-! ## All together -/

/-- The tokens of a line and the spans that show them, one by one. -/
structure StandAlone (line : Text) : Prop where
  /-- Cut at its boundaries, the line falls into the pieces of its tokens. -/
  whole : ((tokens line).flatMap fun t => line.cut t.start t.stop) = line
  piece : ∀ t ∈ tokens line, (line.cut t.start t.stop).length = t.length ∧
    tokens (line.cut t.start t.stop) = [⟨t.kind, 0, t.length⟩]
  rest : ∀ b ∈ boundaries line,
    tokens (line.drop b) = ((tokens line).filter fun t => b ≤ t.start).map (back b)
  ordered : (highlight line).Pairwise fun a b => a.stop ≤ b.start
  inside : ∀ s ∈ highlight line, s.start < s.stop ∧ s.stop ≤ line.length
  /-- A column has the category of the one token that covers it, and none if that is not shown. -/
  category : ∀ column < line.length, ∃ t, (tokens line).filter (covers column) = [t] ∧
    categoryAt (highlight line) column = if t.kind = .none then none else some t.kind.category
  past : ∀ column, line.length ≤ column → categoryAt (highlight line) column = none

/-- **Tokens stand alone**, in every line: each one is the one token of its piece, those behind a
boundary are the tokens of the rest of the line, and the spans show each column as the one token
that covers it. -/
theorem tokens_standAlone (line : Text) : StandAlone line where
  whole := flatMap_cut [] line
  piece t ht := ⟨length_cut ht, tokens_cut ht⟩
  rest _ hb := tokens_drop hb
  ordered := (inOrder_highlight line).apart
  inside s hs := by
    obtain ⟨t, ht, rfl⟩ := List.mem_map.1 (List.mem_filter.1 hs).1
    exact ((tiles_tokens line).bounds ht).2
  category column hcolumn := by
    obtain ⟨t, ht⟩ := (tiles_tokens line).exists_filter_covers (Nat.zero_le column) hcolumn
    refine ⟨t, ht, ?_⟩
    rw [categoryAt_highlight, ht, List.find?_singleton]
    by_cases hnone : t.kind = .none
    · rw [if_pos hnone, if_neg (by simpa using category_eq_plain_iff.2 hnone)]
      rfl
    · rw [if_neg hnone, if_pos (by simpa using mt category_eq_plain_iff.1 hnone)]
      rfl
  past column hcolumn := by
    rw [categoryAt_highlight, (tiles_tokens line).filter_covers_of_le hcolumn]
    rfl

end Token

end QueryEditor
