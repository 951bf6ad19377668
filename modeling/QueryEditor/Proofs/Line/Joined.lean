import QueryEditor.Edit.Document

/-!
# Lines of two texts put together

A text is its closed lines, each with a break, and the open line behind the last break. Text put
behind it goes on in the open line, unless a carriage return at its end and a line feed at the
front of the other text make one break.

* `closedLines`, `openLine`, `linesOf_eq_append`;
* **`linesOf_append`**: the lines of two texts put together;
* `lineAt_append`: the line of a position behind given lines;
* **`drop_lineAt_append`**: the lines behind a position do not depend on the text in front of it;
* **`take_texts_append`**: the texts of the lines that a text closes stay whatever follows it.
-/

namespace QueryEditor

/-- The lines of a text that have a break. -/
def closedLines (t : Text) : List Line := (linesOf t).dropLast

/-- The characters behind the last break of a text. -/
def openLine (t : Text) : Text := ((linesOf t).getLast?.map Line.text).getD []

/-- The break between two texts would be cut in two: a carriage return in front of a line feed. -/
def Splits (x s : Text) : Prop := x.getLast? = some '\r' ∧ s.head? = some '\n'

def Line.pushAll (t : Text) (ls : List Line) : List Line := t.foldr Line.push ls

/-! ## One character at the front -/

theorem linesOf_lineFeed (t : Text) : linesOf ('\n' :: t) = ⟨[], some .lineFeed⟩ :: linesOf t := by
  simp [linesOf]

theorem linesOf_both (t : Text) : linesOf ('\r' :: '\n' :: t) = ⟨[], some .both⟩ :: linesOf t := by
  simp [linesOf]

theorem linesOf_carriageReturn {t : Text} (h : t.head? ≠ some '\n') :
    linesOf ('\r' :: t) = ⟨[], some .carriageReturn⟩ :: linesOf t := by
  cases t with
  | nil => simp [linesOf]
  | cons c r =>
    have hc : c ≠ '\n' := fun e => h (by rw [e]; rfl)
    simp [linesOf, hc]

theorem linesOf_push {c : Char} (t : Text) (hn : c ≠ '\n') (hr : c ≠ '\r') :
    linesOf (c :: t) = Line.push c (linesOf t) := by
  simp [linesOf, hn, hr]

theorem linesOf_nil : linesOf [] = [⟨[], none⟩] := rfl

theorem pushAll_empty (t : Text) : Line.pushAll t [⟨[], none⟩] = [⟨t, none⟩] := by
  induction t with
  | nil => rfl
  | cons c t ih => rw [Line.pushAll, List.foldr_cons, ← Line.pushAll, ih]; rfl

theorem pushAll_cons (t : Text) (l : Line) (ls : List Line) :
    Line.pushAll t (l :: ls) = ⟨t ++ l.text, l.ending⟩ :: ls := by
  induction t with
  | nil => rfl
  | cons c t ih => rw [Line.pushAll, List.foldr_cons, ← Line.pushAll, ih]; rfl

theorem linesOf_append_of_not_mem {x : Text} (hn : '\n' ∉ x) (hr : '\r' ∉ x) (s : Text) :
    linesOf (x ++ s) = Line.pushAll x (linesOf s) := by
  induction x with
  | nil => rfl
  | cons c x ih =>
    obtain ⟨hcn, hn⟩ := not_or.1 (mt List.mem_cons.2 hn)
    obtain ⟨hcr, hr⟩ := not_or.1 (mt List.mem_cons.2 hr)
    rw [List.cons_append, linesOf_push _ (Ne.symm hcn) (Ne.symm hcr), ih hn hr]
    rfl

theorem linesOf_break {b : Break} {s : Text} (h : b = .carriageReturn → s.head? ≠ some '\n') :
    linesOf (b.text ++ s) = ⟨[], some b⟩ :: linesOf s := by
  cases b with
  | lineFeed => exact linesOf_lineFeed s
  | carriageReturn => exact linesOf_carriageReturn (h rfl)
  | both => exact linesOf_both s

/-! ## Closed lines and the open line -/

theorem not_splits_nil (x : Text) : ¬ Splits x [] := by simp [Splits]

theorem splits_cons {c : Char} {x s : Text} (h : Splits x s) : Splits (c :: x) s := by
  refine ⟨?_, h.2⟩
  rw [List.getLast?_cons, h.1]
  rfl

theorem exists_linesOf_append (x : Text) : ∃ (closed : List Line) (rest : Text), ∀ s,
    ¬ Splits x s → linesOf (x ++ s) = closed ++ Line.pushAll rest (linesOf s) := by
  fun_induction linesOf x with
  | case1 => exact ⟨[], [], fun s _ => rfl⟩
  | case2 r ih =>
    obtain ⟨closed, rest, h⟩ := ih
    refine ⟨⟨[], some .both⟩ :: closed, rest, fun s hs => ?_⟩
    rw [List.cons_append, List.cons_append, linesOf_both,
      h s fun e => hs (splits_cons (splits_cons e)), List.cons_append]
  | case3 r _ ih =>
    obtain ⟨closed, rest, h⟩ := ih
    refine ⟨⟨[], some .lineFeed⟩ :: closed, rest, fun s hs => ?_⟩
    rw [List.cons_append, linesOf_lineFeed, h s fun e => hs (splits_cons e), List.cons_append]
  | case4 r hr _ ih =>
    obtain ⟨closed, rest, h⟩ := ih
    refine ⟨⟨[], some .carriageReturn⟩ :: closed, rest, fun s hs => ?_⟩
    have hn : (r ++ s).head? ≠ some '\n' := by
      cases r with
      | nil => exact fun e => hs ⟨rfl, e⟩
      | cons c r => exact fun e => hr r rfl (by simpa using e)
    rw [List.cons_append, linesOf_carriageReturn hn, h s fun e => hs (splits_cons e),
      List.cons_append]
  | case5 c r _ hn hr ih =>
    obtain ⟨closed, rest, h⟩ := ih
    have hrest : ∀ s, ¬ Splits (c :: r) s → linesOf (c :: r ++ s) =
        Line.push c (closed ++ Line.pushAll rest (linesOf s)) := by
      intro s hs
      rw [List.cons_append, linesOf_push _ hn hr, h s fun e => hs (splits_cons e)]
    cases closed with
    | nil => exact ⟨[], c :: rest, hrest⟩
    | cons l closed => exact ⟨⟨c :: l.text, l.ending⟩ :: closed, rest, hrest⟩

/-- **A text is its closed lines and its open line.** -/
theorem linesOf_eq_append (t : Text) : linesOf t = closedLines t ++ [⟨openLine t, none⟩] := by
  obtain ⟨closed, rest, h⟩ := exists_linesOf_append t
  have ht : linesOf t = closed ++ [⟨rest, none⟩] := by
    rw [← pushAll_empty rest, ← linesOf_nil, ← h [] (not_splits_nil t), List.append_nil]
  rw [closedLines, openLine, ht]
  simp

/-- **The lines of two texts put together**: the second goes on in the open line of the first. -/
theorem linesOf_append {x s : Text} (h : ¬ Splits x s) :
    linesOf (x ++ s) = closedLines x ++ Line.pushAll (openLine x) (linesOf s) := by
  obtain ⟨closed, rest, hx⟩ := exists_linesOf_append x
  have ht : closed ++ [⟨rest, none⟩] = closedLines x ++ [⟨openLine x, none⟩] := by
    rw [← linesOf_eq_append, ← pushAll_empty rest, ← linesOf_nil, ← hx [] (not_splits_nil x),
      List.append_nil]
  obtain ⟨hclosed, hrest⟩ := List.append_inj' ht rfl
  simp only [List.cons.injEq, Line.mk.injEq, and_true] at hrest
  rw [hx s h, hclosed, hrest]

theorem splits_iff {x s : Text} :
    Splits x s ↔ ∃ y r, x = y ++ ['\r'] ∧ s = '\n' :: r := by
  constructor
  · rintro ⟨hx, hs⟩
    obtain ⟨y, rfl⟩ := List.getLast?_eq_some_iff.1 hx
    obtain ⟨r, rfl⟩ := List.head?_eq_some_iff.1 hs
    exact ⟨y, r, rfl, rfl⟩
  · rintro ⟨y, r, rfl, rfl⟩
    exact ⟨List.getLast?_concat, rfl⟩

theorem not_splits_carriageReturn (x s : Text) : ¬ Splits x ('\r' :: s) := by simp [Splits]

theorem linesOf_append_splits (y r : Text) :
    linesOf (y ++ '\r' :: '\n' :: r) = closedLines y ++ ⟨openLine y, some .both⟩ :: linesOf r := by
  rw [linesOf_append (not_splits_carriageReturn y _), linesOf_both, pushAll_cons, List.append_nil]

theorem closedLines_carriageReturn (y : Text) :
    closedLines (y ++ ['\r']) = closedLines y ++ [⟨openLine y, some .carriageReturn⟩] := by
  rw [closedLines, linesOf_append (not_splits_carriageReturn y _),
    linesOf_carriageReturn (by simp), pushAll_cons, linesOf_nil, List.append_nil]
  simp

/-! ## Positions -/

theorem total_width (ls : List Line) :
    total (ls.map Line.width) = ((ls.map Line.full).flatten).length := by
  induction ls with
  | nil => rfl
  | cons l ls ih => simp [ih, Line.width]

theorem total_width_linesOf (t : Text) : total ((linesOf t).map Line.width) = t.length := by
  rw [total_width, flatten_linesOf]

theorem total_width_closedLines (t : Text) :
    total ((closedLines t).map Line.width) + (openLine t).length = t.length := by
  have h := total_width_linesOf t
  rw [linesOf_eq_append] at h
  simpa [Line.width, Line.full, Line.breakText] using h

theorem lineAt_append (ls : List Line) {ms : List Line} (h : ms ≠ []) (k : Nat) :
    Document.lineAt (ls ++ ms) (total (ls.map Line.width) + k) =
      ls.length + Document.lineAt ms k := by
  induction ls with
  | nil => simp
  | cons l ls ih =>
    obtain ⟨m, ms', hm⟩ := List.exists_cons_of_ne_nil (List.append_ne_nil_of_right_ne_nil ls h)
    have hge : ¬ l.width + total (ls.map Line.width) + k < l.width := by omega
    have hsub : l.width + total (ls.map Line.width) + k - l.width =
        total (ls.map Line.width) + k := by omega
    rw [List.cons_append, List.map_cons, total_cons, hm, Document.lineAt, if_neg hge, hsub, ← hm,
      ih, List.length_cons]
    omega

theorem lineAt_of_lt {l : Line} {k : Nat} (ls : List Line) (h : k < l.width) :
    Document.lineAt (l :: ls) k = 0 := by
  cases ls with
  | nil => rfl
  | cons m ls => rw [Document.lineAt, if_pos h]

theorem width_pos_of_linesOf {t : Text} {l : Line} {ls : List Line} (ht : t ≠ [])
    (h : linesOf t = l :: ls) : 0 < l.width := by
  have width_push : ∀ c ms, Line.push c ms = l :: ls → 0 < l.width := by
    intro c ms e
    cases ms <;>
      · simp only [Line.push, List.cons.injEq] at e
        rw [← e.1]
        simp [Line.width, Line.full]
  fun_cases linesOf t with
  | case1 => exact absurd rfl ht
  | case2 r =>
    rw [linesOf_both, List.cons.injEq] at h
    rw [← h.1]
    decide
  | case3 r =>
    rw [linesOf_lineFeed, List.cons.injEq] at h
    rw [← h.1]
    decide
  | case4 r hr =>
    rw [linesOf_carriageReturn, List.cons.injEq] at h
    · rw [← h.1]
      decide
    · cases r with
      | nil => simp
      | cons c r => exact fun e => hr r rfl (by simpa using e)
  | case5 c r _ hn hr => exact width_push c _ (by rw [← linesOf_push r hn hr, h])

/-- **The line of a position** is the one that is open there. -/
theorem lineAt_length {x s : Text} (h : ¬ Splits x s) :
    Document.lineAt (linesOf (x ++ s)) x.length = (closedLines x).length := by
  obtain ⟨l, ls, hs⟩ := List.exists_cons_of_ne_nil (linesOf_ne_nil s)
  rw [linesOf_append h, ← total_width_closedLines x, hs, pushAll_cons,
    lineAt_append _ (List.cons_ne_nil _ _)]
  by_cases hnil : s = []
  · rw [hnil, linesOf_nil, List.cons.injEq] at hs
    rw [← hs.2]
    rfl
  · have hl := width_pos_of_linesOf hnil hs
    rw [lineAt_of_lt, Nat.add_zero]
    simpa [Line.width, Line.full, Line.breakText] using hl

theorem lineAt_length_splits (y r : Text) :
    Document.lineAt (linesOf (y ++ '\r' :: '\n' :: r)) (y.length + 1) =
      (closedLines y).length := by
  rw [linesOf_append_splits, ← total_width_closedLines y, Nat.add_assoc,
    lineAt_append _ (List.cons_ne_nil _ _), lineAt_of_lt, Nat.add_zero]
  simp [Line.width, Line.full, Line.breakText, Break.text]

/-! ## What lies on the two sides of a position -/

/-- **The lines behind a position do not depend on the text in front of it.** -/
theorem drop_lineAt_append (x s : Text) :
    (linesOf (x ++ s)).drop (Document.lineAt (linesOf (x ++ s)) x.length + 1) =
      (linesOf s).drop 1 := by
  by_cases h : Splits x s
  · obtain ⟨y, r, rfl, rfl⟩ := splits_iff.1 h
    rw [List.append_assoc, List.singleton_append, List.length_append, List.length_singleton,
      lineAt_length_splits, linesOf_append_splits, linesOf_lineFeed]
    simp
  · obtain ⟨l, ls, hs⟩ := List.exists_cons_of_ne_nil (linesOf_ne_nil s)
    rw [lineAt_length h, linesOf_append h, hs, pushAll_cons]
    simp

/-- **Closed lines keep their texts**, whatever follows. -/
theorem take_texts_append (x s : Text) :
    ((linesOf (x ++ s)).map Line.text).take (closedLines x).length =
      (closedLines x).map Line.text := by
  by_cases h : Splits x s
  · obtain ⟨y, r, rfl, rfl⟩ := splits_iff.1 h
    have hclosed : (closedLines (y ++ ['\r'])).map Line.text =
        (closedLines y).map Line.text ++ [openLine y] := by
      rw [closedLines_carriageReturn, List.map_append]
      rfl
    have hlines : (linesOf (y ++ ['\r'] ++ '\n' :: r)).map Line.text =
        (closedLines y).map Line.text ++ [openLine y] ++ (linesOf r).map Line.text := by
      rw [List.append_assoc, List.singleton_append, linesOf_append_splits]
      simp
    rw [hlines, hclosed, List.take_left' (by rw [closedLines_carriageReturn]; simp)]
  · rw [linesOf_append h, List.map_append, List.take_left' (by simp)]

theorem lineAt_length_le (x s : Text) :
    Document.lineAt (linesOf (x ++ s)) x.length ≤ (closedLines x).length := by
  by_cases h : Splits x s
  · obtain ⟨y, r, rfl, rfl⟩ := splits_iff.1 h
    rw [List.append_assoc, List.singleton_append, List.length_append, List.length_singleton,
      lineAt_length_splits, closedLines_carriageReturn]
    simp
  · exact Nat.le_of_eq (lineAt_length h)

end QueryEditor
