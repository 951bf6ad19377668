import QueryEditor.Proofs.Fold.Rows
import QueryEditor.Proofs.Line.Places
import QueryEditor.Proofs.Line.Spans
import QueryEditor.Proofs.View.Folds
import QueryEditor.Proofs.View.Highlights

/-!
# The page shows the visible document

A page has one row for each line that is shown, in the order of the lines. A row has the number of
its line and the mark, both in columns of one width, then all characters of the line, and at last
the placeholder where a fold starts. Highlights only say where a line is cut for colour; as they are
those of the present document, the pieces make up the line.

* `View.margin`: what should stand in front of a line, `View.IsMark`: the mark that belongs there;
* `View.isMark_foldMark`: lines that are shown have the right mark;
* `View.row_eq`: the pieces of a row, `View.plain_row`: its characters;
* `View.visibleLines_eq`: the lines of the rows;
* **`View.page_run`**: the page of every view that a run of actions leads to.
-/

namespace QueryEditor

def Text.rightAligned (t : Text) (width : Nat) : Text := List.replicate (width - t.length) ' ' ++ t

namespace View

/-- What should stand in front of a line: its number, counted from one, in a column as wide as the
number of lines, and a mark, each with a blank behind it, as far as they are shown. -/
def margin (v : View) (line : Nat) (mark : Char) : Text :=
  (if v.numbersVisible then
    Text.rightAligned (Nat.repr (line + 1)).toList (Nat.repr v.doc.lineCount).length ++ [' ']
    else []) ++
  if v.settings.foldGutter then [mark, ' '] else []

/-- A toggle at the line would add a fold there. -/
def AddsFold (v : View) (line : Nat) : Prop :=
  v.folds.isFolded line = false ∧ (v.toggleFold line).2 = true ∧
    (v.toggleFold line).1.folds.isFolded line = true

/-- The mark that belongs to a line: whether a fold starts there, or could be made to. -/
structure IsMark (v : View) (line : Nat) (mark : Char) : Prop where
  folded : mark = '▸' ↔ v.folds.isFolded line = true
  foldable : mark = '▾' ↔ v.AddsFold line
  blank : mark = ' ' ↔ v.folds.isFolded line = false ∧ ¬ v.AddsFold line

variable {v : View} {line : Nat}

/-! ## In front of a line -/

theorem length_repr_mono {m n : Nat} (h : m ≤ n) : (Nat.repr m).length ≤ (Nat.repr n).length := by
  have hpos : 0 < (Nat.repr n).length := Nat.length_repr_pos
  have hn : n < 10 ^ (Nat.repr n).length := (Nat.length_repr_le_iff hpos).1 (Nat.le_refl _)
  exact (Nat.length_repr_le_iff hpos).2 (Nat.lt_of_le_of_lt h hn)

theorem length_margin (hline : line < v.doc.lineCount) (mark : Char) :
    (v.margin line mark).length =
      (if v.numbersVisible then (Nat.repr v.doc.lineCount).length + 1 else 0) +
        if v.settings.foldGutter then 2 else 0 := by
  have hle : (Nat.repr (line + 1)).length ≤ (Nat.repr v.doc.lineCount).length :=
    length_repr_mono hline
  rw [margin, List.length_append]
  congr 1
  · cases v.numbersVisible with
    | false => rfl
    | true =>
      simp only [if_true, Text.rightAligned, List.length_append, List.length_replicate,
        List.length_singleton, String.length_toList]
      omega
  · cases v.settings.foldGutter <;> rfl

theorem gutter_eq (v : View) (line : Nat) :
    v.gutter v.doc.lines line = v.margin line (v.foldMark v.doc.lines line) := by
  simp only [gutter, margin, numberText, Text.rightAligned, List.leftpad, Document.lineCount,
    String.length_toList]

theorem lineFeed_not_mem_repr (n : Nat) : '\n' ∉ (Nat.repr n).toList := by
  rw [Nat.toList_repr]
  intro h
  exact absurd (Nat.isDigit_of_mem_toDigits (by decide) (by decide) h) (by decide)

theorem lineFeed_not_mem_margin (v : View) (line : Nat) {mark : Char} (hmark : mark ≠ '\n') :
    '\n' ∉ v.margin line mark := by
  have hnumber : ∀ width, '\n' ∉ Text.rightAligned (Nat.repr (line + 1)).toList width := by
    intro width h
    rcases List.mem_append.1 h with h | h
    · exact absurd (List.eq_of_mem_replicate h) (by decide)
    · exact lineFeed_not_mem_repr _ h
  rw [margin, List.mem_append, not_or]
  constructor
  · cases v.numbersVisible with
    | false => exact List.not_mem_nil
    | true => exact fun h => (List.mem_append.1 h).elim (hnumber _) (by decide)
  · cases v.settings.foldGutter with
    | false => exact List.not_mem_nil
    | true => simp [hmark.symm]

/-! ## Marks -/

theorem addsFold_iff (hshown : v.folds.isHidden line = false) :
    v.AddsFold line ↔ v.folds.isFolded line = false ∧ (v.doc.blockEnd? line).isSome = true := by
  constructor
  · rintro ⟨hfolded, hchanged, -⟩
    refine ⟨hfolded, ?_⟩
    rcases Folds.toggle_cases v.folds v.doc line with ⟨h, -⟩ | ⟨-, -, last, hblock, -⟩ | ⟨-, -, he⟩
    · exact absurd h (by rw [hfolded]; exact Bool.false_ne_true)
    · rw [hblock]
      rfl
    · have hnone : (v.toggleFold line).2 = false := congrArg Prod.snd he
      exact absurd hchanged (by rw [hnone]; exact Bool.false_ne_true)
  · rintro ⟨hfolded, hblock⟩
    obtain ⟨last, hlast⟩ := Option.isSome_iff_exists.1 hblock
    have he : v.folds.toggle v.doc line = (v.folds.insert ⟨line, last⟩, true) := by
      simp [Folds.toggle, hfolded, hshown, hlast]
    refine ⟨hfolded, congrArg Prod.snd he, ?_⟩
    have hfolds : (v.toggleFold line).1.folds = v.folds.insert ⟨line, last⟩ :=
      congrArg Prod.fst he
    rw [hfolds]
    exact Folds.isFolded_iff.2 ⟨_, Folds.mem_insert.2 (.inl rfl), rfl⟩

/-- **A line that is shown has the mark that belongs to it.** -/
theorem isMark_foldMark (hshown : v.folds.isHidden line = false) :
    v.IsMark line (v.foldMark v.doc.lines line) := by
  have hadds := addsFold_iff hshown
  cases hfolded : v.folds.isFolded line <;>
    cases hblock : (blockEndIn? v.doc.lines line).isSome <;> constructor <;>
    simp [foldMark, Folds.isFoldableIn, hadds, hfolded, hblock, Document.blockEnd?]

theorem foldMark_ne_lineFeed (v : View) (lines : List Line) (line : Nat) :
    v.foldMark lines line ≠ '\n' := by
  unfold foldMark
  split
  · decide
  · split <;> decide

/-! ## Rows -/

def rowText (v : View) (line : Nat) : Text := (v.row v.doc.lines line).flatMap Piece.plain

def lineText (v : View) (line : Nat) : Text := (v.doc.line? line).getD []

theorem page_eq_flatMap (v : View) (color : Bool) :
    v.page color = v.visibleLines.flatMap fun line =>
      (v.row v.doc.lines line).flatMap (if color then Piece.colored .relational else Piece.plain) ++
        ['\n'] := by
  rw [page, rows, List.flatMap_map]

theorem page_eq (v : View) :
    v.page false = (v.visibleLines.map v.rowText).flatMap fun row => row ++ ['\n'] := by
  rw [List.flatMap_map, page_eq_flatMap]
  rfl

theorem row_eq (h : v.Coherent) (line : Nat) :
    v.row v.doc.lines line = .gutter (v.gutter v.doc.lines line) ::
      Piece.ofLine (v.lineText line) 0 (highlight (v.lineText line)) ++
        if v.folds.isFolded line then [.placeholder] else [] := by
  have hspans : v.highlights[line]?.getD [] = highlight (v.lineText line) := by
    rw [h, Highlights.of, Document.lineTexts, List.getElem?_map, List.getElem?_map, lineText,
      Document.line?]
    cases v.doc.lines[line]? with
    | none => simp [highlight, tokens, Token.tokensFrom]
    | some l => rfl
  rw [row, hspans]
  rfl

/-- **The characters of a row**: the margin, the line, and the placeholder where a fold starts. -/
theorem plain_row (h : v.Coherent) {text : Text} (htext : v.doc.line? line = some text) :
    v.rowText line = v.margin line (v.foldMark v.doc.lines line) ++ text ++
      if v.folds.isFolded line = true then " ⋯".toList else [] := by
  have hline : v.lineText line = text := by rw [lineText, htext, Option.getD_some]
  rw [rowText, row_eq h, hline, gutter_eq, List.cons_append, List.flatMap_cons,
    List.flatMap_append, Piece.plain_ofLine text (inOrder_highlight text)]
  cases v.folds.isFolded line <;> simp [Piece.plain, Piece.placeholderText]

theorem exists_text (hline : line ∈ v.visibleLines) :
    ∃ text, v.doc.line? line = some text ∧ '\n' ∉ text := by
  obtain ⟨hlt, -⟩ := (v.mem_visibleLines line).1 hline
  obtain ⟨l, hl⟩ : ∃ l, v.doc.lines[line]? = some l := ⟨_, List.getElem?_eq_getElem hlt⟩
  refine ⟨l.text, ?_, (break_not_mem_text (List.mem_of_getElem? hl)).1⟩
  rw [Document.line?, hl, Option.map_some]

theorem lineFeed_not_mem_rowText (h : v.Coherent) (hline : line ∈ v.visibleLines) :
    '\n' ∉ v.rowText line := by
  obtain ⟨text, htext, hbreak⟩ := exists_text hline
  have hmargin := lineFeed_not_mem_margin v line (foldMark_ne_lineFeed v v.doc.lines line)
  rw [plain_row h htext, List.mem_append, List.mem_append, not_or, not_or]
  refine ⟨⟨hmargin, hbreak⟩, ?_⟩
  split <;> decide

/-- **The lines of the rows**, counted from the first row. -/
theorem visibleLines_eq (h : v.Tidy) :
    v.visibleLines = (List.range (v.folds.visibleCount v.doc.lineCount)).map v.folds.toBuffer := by
  rw [h.ordered.visibleCount_eq v.doc.lineCount_pos fun f hf => (h.fit f hf).inside]
  exact h.ordered.filter_range_eq v.doc.lineCount

/-- **The page shows the visible document**, after every run of actions. Its rows end with a line
feed and have none before; there are as many as lines are shown, and the one for a line is its
margin, all its characters, and the placeholder just when a fold starts there. All margins have one
width. -/
theorem page_run (settings : Settings) (value : Text) (listener : Option Listener)
    (actions : List Action) :
    let v := ((ofText settings value listener).run actions).1
    (∃ rows : List Text,
      v.page false = rows.flatMap (fun row => row ++ ['\n']) ∧ (∀ row ∈ rows, '\n' ∉ row) ∧
      rows.length = v.folds.visibleCount v.doc.lineCount ∧
      ∀ k row, rows[k]? = some row →
        let line := v.folds.toBuffer k
        ∃ mark text, v.IsMark line mark ∧ v.doc.line? line = some text ∧
          row = v.margin line mark ++ text ++
            if v.folds.isFolded line = true then " ⋯".toList else []) ∧
    ∃ width, ∀ line < v.doc.lineCount, ∀ mark, (v.margin line mark).length = width := by
  intro v
  have htidy : v.Tidy := tidy_run settings value listener actions
  have hcoherent : v.Coherent := coherent_run (coherent_ofText settings value listener) actions
  have hlines := visibleLines_eq htidy
  refine ⟨⟨v.visibleLines.map v.rowText, page_eq v, ?_, ?_, ?_⟩, _,
    fun line hline mark => length_margin hline mark⟩
  · intro row hrow
    obtain ⟨line, hline, rfl⟩ := List.mem_map.1 hrow
    exact lineFeed_not_mem_rowText hcoherent hline
  · rw [List.length_map, hlines, List.length_map, List.length_range]
  · intro k row hrow line
    rw [List.getElem?_map, Option.map_eq_some_iff] at hrow
    obtain ⟨shown, hshown, rfl⟩ := hrow
    have hmem : shown ∈ v.visibleLines := List.mem_of_getElem? hshown
    obtain ⟨-, hvisible⟩ := (v.mem_visibleLines shown).1 hmem
    obtain ⟨text, htext, -⟩ := exists_text hmem
    obtain rfl : line = shown := by
      rw [hlines, List.getElem?_map, Option.map_eq_some_iff] at hshown
      obtain ⟨j, hj, rfl⟩ := hshown
      obtain ⟨hlt, rfl⟩ := List.getElem?_eq_some_iff.1 hj
      rw [List.getElem_range]
    exact ⟨v.foldMark v.doc.lines line, text, isMark_foldMark hvisible, htext,
      plain_row hcoherent htext⟩

end View

end QueryEditor
