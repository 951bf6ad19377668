import QueryEditor.Display.Page

/-!
# Spans of a line

The spans of a line come one behind the other, as the tokens do that they are made of. Cut at the
spans, the line falls into pieces that make up all of it.

* `Span.InOrder`: spans one behind the other from a column on;
* `inOrder_highlight`: the spans of a line are in order;
* **`Piece.plain_ofLine`**: the pieces of a line put together are the line.
-/

namespace QueryEditor

/-- Spans one behind the other, none of them in front of a column. -/
structure Span.InOrder (column : Nat) (spans : List Span) : Prop where
  behind : ∀ s ∈ spans, column ≤ s.start
  proper : ∀ s ∈ spans, s.start ≤ s.stop
  apart : spans.Pairwise fun a b => a.stop ≤ b.start

theorem Span.inOrder_cons_iff {column : Nat} {s : Span} {spans : List Span} :
    InOrder column (s :: spans) ↔ column ≤ s.start ∧ s.start ≤ s.stop ∧ InOrder s.stop spans := by
  constructor
  · intro h
    obtain ⟨hbehind, -⟩ := List.forall_mem_cons.1 h.behind
    obtain ⟨hproper, hspans⟩ := List.forall_mem_cons.1 h.proper
    obtain ⟨hfrom, hapart⟩ := List.pairwise_cons.1 h.apart
    exact ⟨hbehind, hproper, hfrom, hspans, hapart⟩
  · rintro ⟨hbehind, hproper, h⟩
    refine ⟨List.forall_mem_cons.2 ⟨hbehind, fun b hb => ?_⟩,
      List.forall_mem_cons.2 ⟨hproper, h.proper⟩, List.pairwise_cons.2 ⟨h.behind, h.apart⟩⟩
    have := h.behind b hb
    omega

theorem Span.InOrder.sublist {column : Nat} {spans some : List Span} (h : InOrder column spans)
    (hsub : some.Sublist spans) : InOrder column some :=
  ⟨fun s hs => h.behind s (hsub.subset hs), fun s hs => h.proper s (hsub.subset hs),
    h.apart.sublist hsub⟩

/-! ## Spans of tokens -/

theorem inOrder_tokensFrom (column : Nat) (t : Text) :
    Span.InOrder column ((Token.tokensFrom column t).map Token.span) := by
  fun_induction Token.tokensFrom column t with
  | case1 column =>
    exact ⟨fun _ h => absurd h List.not_mem_nil, fun _ h => absurd h List.not_mem_nil, .nil⟩
  | case2 column c rest kind more _ ih =>
    exact Span.inOrder_cons_iff.2 ⟨Nat.le_refl _, Nat.le_add_right _ _, ih⟩

/-- The spans of the tokens of a text that are shown, from the column where it starts. -/
def spansFrom (column : Nat) (t : Text) : List Span :=
  ((Token.tokensFrom column t).map Token.span).filter fun s => s.category ≠ .plain

theorem inOrder_spansFrom (column : Nat) (t : Text) : Span.InOrder column (spansFrom column t) :=
  (inOrder_tokensFrom column t).sublist List.filter_sublist

theorem inOrder_highlight (line : Text) : Span.InOrder 0 (highlight line) :=
  inOrder_spansFrom 0 line

/-! ## Pieces of a line -/

/-- **The pieces of a line put together** are the line, from the column where they start. -/
theorem Piece.plain_ofLine (line : Text) {column : Nat} {spans : List Span}
    (h : Span.InOrder column spans) : (ofLine line column spans).flatMap plain = line.drop column := by
  induction spans generalizing column with
  | nil => simp [ofLine, plain]
  | cons s spans ih =>
    obtain ⟨hbehind, hproper, hspans⟩ := Span.inOrder_cons_iff.1 h
    calc (ofLine line column (s :: spans)).flatMap plain
      _ = line.cut column s.start ++ (line.cut s.start s.stop ++
            (ofLine line s.stop spans).flatMap plain) := rfl
      _ = line.drop column := by
        rw [ih hspans, Text.cut_append_drop line hproper, Text.cut_append_drop line hbehind]

end QueryEditor
