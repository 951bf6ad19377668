import QueryEditor.Proofs.Fold.Toggled
import QueryEditor.Proofs.Line.Places
import QueryEditor.Proofs.View.Folds

/-!
# Hidden lines and hidden characters

A fold hides lines, and it hides the characters from the end of its first line to the end of its
last. Both tell the same. A character of a line is hidden when the line is, and a character of a
break when the line behind it is, so the breaks inside a fold go and the one at its end stays. What
is left falls into the lines that are shown: breaks that come together could make one, but a line
where a fold starts is not blank and keeps them apart.

* `FoldRange.holds`, `Text.without`: characters in ranges, and a text without them;
* `Document.GoesWith`: the line that a position is hidden with, `GoesWith.any_ranges`;
* `Folds.left`: what folds leave of lines, **`Folds.On.texts_left`**: its lines;
* `Document.length_closedLines_slice`: the breaks between the ends of two lines;
* `Folds.RangesFit`: how hidden characters and hidden lines belong together;
* **`Folds.ranges_run`**: they do after every run of calls on a document, and in every view.
-/

namespace QueryEditor

def FoldRange.holds (r : FoldRange) (pos : Nat) : Bool :=
  decide (r.start ≤ pos) && decide (pos < r.stop)

namespace Text

/-- A text, the first character of which is at a position, without what lies in the ranges. -/
def withoutFrom (ranges : List FoldRange) : Nat → Text → Text
  | _, [] => []
  | pos, c :: t =>
    if ranges.any (·.holds pos) then withoutFrom ranges (pos + 1) t
    else c :: withoutFrom ranges (pos + 1) t

/-- A text without the characters that lie in the ranges. -/
def without (t : Text) (ranges : List FoldRange) : Text := withoutFrom ranges 0 t

variable {ranges : List FoldRange}

theorem withoutFrom_append (pos : Nat) (x y : Text) :
    withoutFrom ranges pos (x ++ y) =
      withoutFrom ranges pos x ++ withoutFrom ranges (pos + x.length) y := by
  induction x generalizing pos with
  | nil => rfl
  | cons c x ih =>
    have hpos : pos + (c :: x).length = pos + 1 + x.length := by
      rw [List.length_cons]
      omega
    rw [List.cons_append, withoutFrom, withoutFrom, ih, hpos]
    split
    · rfl
    · rfl

theorem withoutFrom_eq {pos : Nat} {t : Text} (b : Bool)
    (h : ∀ p, pos ≤ p → p < pos + t.length → ranges.any (·.holds p) = b) :
    withoutFrom ranges pos t = if b then [] else t := by
  induction t generalizing pos with
  | nil => cases b <;> rfl
  | cons c t ih =>
    rw [List.length_cons] at h
    rw [withoutFrom, h pos (Nat.le_refl _) (by omega),
      ih fun p hlow hhigh => h p (by omega) (by omega)]
    cases b <;> rfl

theorem head?_cut_ne {t : Text} {start stop : Nat} {c : Char} (h : t[start]? ≠ some c) :
    (t.cut start stop).head? ≠ some c := by
  rw [cut, List.head?_drop, List.getElem?_take]
  split
  · exact h
  · exact (Option.some_ne_none c).symm

end Text

/-! ## Ends of lines -/

namespace Document

variable {d : Document} {m n : Nat}

theorem lineEnd_le_lineStart_succ (d : Document) (n : Nat) : d.lineEnd n ≤ d.lineStart (n + 1) := by
  by_cases hn : n < d.lineCount
  · obtain ⟨l, front, rest, hl⟩ := exists_standsAt hn
    rw [lineEnd_eq hl, lineStart_succ hl, Line.full]
    simp
  · have hle : d.lineCount ≤ n := Nat.le_of_not_lt hn
    rw [(d.lines_fit.missing n hle).2.1, lineStart_of_le (Nat.le_succ_of_le hle)]

theorem lineStart_le_lineEnd (d : Document) (n : Nat) : d.lineStart n ≤ d.lineEnd n :=
  Nat.le_add_right _ _

theorem lineEnd_le_lineStart (h : m < n) : d.lineEnd m ≤ d.lineStart n := by
  induction h with
  | refl => exact d.lineEnd_le_lineStart_succ m
  | @step n _ ih =>
    exact Nat.le_trans ih (Nat.le_trans (d.lineStart_le_lineEnd n) (d.lineEnd_le_lineStart_succ n))

theorem lineEnd_mono (h : m ≤ n) : d.lineEnd m ≤ d.lineEnd n := by
  rcases Nat.eq_or_lt_of_le h with rfl | hlt
  · exact Nat.le_refl _
  · exact Nat.le_trans (lineEnd_le_lineStart hlt) (d.lineStart_le_lineEnd n)

theorem lineEnd_lt_lineStart_succ (h : n + 1 < d.lineCount) :
    d.lineEnd n < d.lineStart (n + 1) := by
  obtain ⟨l, front, rest, hl⟩ := exists_standsAt (Nat.lt_of_succ_lt h)
  obtain ⟨b, hb⟩ := Option.isSome_iff_exists.1 (hl.closed h)
  have hbreak : 0 < l.breakText.length := by
    rw [Line.breakText, hb]
    cases b <;> exact Nat.succ_pos _
  have hlength : (front ++ l.text ++ l.breakText).length =
      (front ++ l.text).length + l.breakText.length := List.length_append
  rw [lineEnd_eq hl, lineStart_succ hl, Line.full, ← List.append_assoc]
  omega

theorem lineEnd_lt (h : m < n) (hn : n < d.lineCount) : d.lineEnd m < d.lineEnd n := by
  refine Nat.lt_of_lt_of_le (lineEnd_lt_lineStart_succ (Nat.lt_of_le_of_lt h hn)) ?_
  exact Nat.le_trans (d.lineStart_le_lineEnd (m + 1)) (lineEnd_mono h)

theorem lineEnd_le_length (hn : n < d.lineCount) : d.lineEnd n ≤ d.length := by
  rw [← lineStart_of_le (Nat.le_refl d.lineCount)]
  exact lineEnd_le_lineStart hn

end Document

/-! ## Breaks between the ends of two lines -/

namespace Document

variable {d : Document} {n k : Nat}

theorem length_linesOf_slice (h : n + k < d.lineCount) :
    (linesOf (d.slice (d.lineEnd n) (d.lineEnd (n + k)))).length = k + 1 := by
  induction k generalizing n with
  | zero =>
    have hnil : d.slice (d.lineEnd n) (d.lineEnd (n + 0)) = [] := by simp [slice, Text.cut]
    rw [hnil]
    rfl
  | succ k ih =>
    have hnext : n + 1 < d.lineCount := by omega
    have hindex : n + (k + 1) = n + 1 + k := by omega
    obtain ⟨l, front, rest, hl⟩ := exists_standsAt (Nat.lt_of_succ_lt hnext)
    obtain ⟨m, front', rest', hm⟩ := exists_standsAt hnext
    obtain ⟨b, hb⟩ := Option.isSome_iff_exists.1 (hl.closed hnext)
    have hbreak : l.breakText = b.text := by rw [Line.breakText, hb]; rfl
    -- behind the end of a line come its break, the next line, and the rest up to the other end
    have hline : d.slice (d.lineStart (n + 1)) (d.lineEnd (n + 1 + k)) =
        m.text ++ d.slice (d.lineEnd (n + 1)) (d.lineEnd (n + 1 + k)) := by
      rw [← slice_text hm]
      exact (Text.cut_append_cut _ (lineStart_le_lineEnd d _) (lineEnd_mono (by omega))).symm
    have hparts : d.slice (d.lineEnd n) (d.lineEnd (n + 1 + k)) =
        b.text ++ d.slice (d.lineStart (n + 1)) (d.lineEnd (n + 1 + k)) := by
      rw [← hbreak, ← slice_break hl]
      refine (Text.cut_append_cut _ (d.lineEnd_le_lineStart_succ n) ?_).symm
      exact Nat.le_trans (lineStart_le_lineEnd d _) (lineEnd_mono (by omega))
    have halone : b = .carriageReturn →
        (d.slice (d.lineStart (n + 1)) (d.lineEnd (n + 1 + k))).head? ≠ some '\n' := by
      rintro rfl
      refine Text.head?_cut_ne (get?_lineStart_succ_ne hnext ?_)
      rw [slice_break hl, hbreak]
      rfl
    rw [hindex, hparts, linesOf_break halone, List.length_cons, hline,
      linesOf_append_of_not_mem hm.lineFeed hm.carriageReturn]
    obtain ⟨r, rs, hr⟩ := List.exists_cons_of_ne_nil
      (linesOf_ne_nil (d.slice (d.lineEnd (n + 1)) (d.lineEnd (n + 1 + k))))
    have hlength := ih (n := n + 1) (by omega)
    rw [hr] at hlength ⊢
    rw [pushAll_cons]
    simpa using hlength

/-- **The breaks between the ends of two lines**: as many as lines end there. -/
theorem length_closedLines_slice (h : n + k < d.lineCount) :
    (closedLines (d.slice (d.lineEnd n) (d.lineEnd (n + k)))).length = k := by
  rw [closedLines, List.length_dropLast, length_linesOf_slice h, Nat.add_sub_cancel]

end Document

/-! ## Positions of hidden lines -/

/-- The position goes with a line: it is behind the ends of all lines in front of that line, and in
front of its own end. -/
structure Document.GoesWith (d : Document) (pos n : Nat) : Prop where
  behind : ∀ m < n, d.lineEnd m ≤ pos
  lt : pos < d.lineEnd n

namespace Document.GoesWith

variable {d : Document} {n pos : Nat}

theorem lineEnd_le_iff (h : d.GoesWith pos n) (m : Nat) : d.lineEnd m ≤ pos ↔ m < n := by
  refine ⟨fun hle => ?_, h.behind m⟩
  by_contra hge
  have := d.lineEnd_mono (Nat.le_of_not_lt hge)
  have := h.lt
  omega

theorem holds_range (h : d.GoesWith pos n) (f : Fold) : (f.range d).holds pos = f.hides n := by
  have hlast : pos < d.lineEnd f.last ↔ n ≤ f.last := by
    rw [← Nat.not_le, h.lineEnd_le_iff, Nat.not_lt]
  simp only [FoldRange.holds, Fold.range, hiddenRange, Fold.hides, h.lineEnd_le_iff, hlast]

theorem any_ranges (h : d.GoesWith pos n) (fs : Folds) :
    (fs.ranges d).any (·.holds pos) = fs.isHidden n := by
  rw [Folds.ranges, List.any_map, Folds.isHidden]
  simp only [Function.comp_def, h.holds_range]

end Document.GoesWith

/-! ## What is left -/

namespace Folds

/-- What folds leave of lines that start with line `n`: the lines that are shown, and the breaks in
front of them. -/
def left (fs : Folds) : Nat → List Line → Text
  | _, [] => []
  | n, l :: ls =>
    (if fs.isHidden n then [] else l.text) ++
      ((if fs.isHidden (n + 1) then [] else l.breakText) ++ left fs (n + 1) ls)

variable {fs : Folds} {d : Document} {n : Nat} {ls : List Line}

theorem standsAt_of_drop {l : Line} (h : d.lines.drop n = l :: ls) : ∃ front,
    l.StandsAt d.text n front (ls.map Line.full).flatten ∧ d.lines.drop (n + 1) = ls := by
  have hn : n < d.lineCount := by
    by_contra hge
    rw [List.drop_of_length_le (Nat.le_of_not_lt hge)] at h
    cases h
  have hnext : d.lines.drop (n + 1) = ls := by
    rw [← List.drop_drop, h, List.drop_one]
    rfl
  obtain ⟨l', front, rest, hl⟩ := exists_standsAt hn
  obtain rfl : l' = l := by
    have hget : d.lines[n]? = some l := by rw [← List.head?_drop, h]; rfl
    exact Option.some.inj (hl.get.symm.trans hget)
  have hparts : d.text = ((d.lines.take n).map Line.full).flatten ++
      (l'.full ++ (ls.map Line.full).flatten) := by
    rw [← List.flatten_cons, ← List.map_cons, ← h, ← List.flatten_append, ← List.map_append,
      List.take_append_drop]
    exact (flatten_linesOf d.text).symm
  have hfront : front = ((d.lines.take n).map Line.full).flatten := by
    refine (List.append_inj (hl.text.symm.trans hparts) ?_).1
    rw [← hl.start, total_width]
    rfl
  have hrest : rest = (ls.map Line.full).flatten := by
    rw [hl.text, hfront] at hparts
    exact List.append_cancel_left (List.append_cancel_left hparts)
  exact ⟨front, hrest ▸ hl, hnext⟩

theorem ending_eq_none_iff {l : Line} (h : d.lines.drop n = l :: ls) :
    l.ending = none ↔ ls = [] := by
  obtain ⟨front, hl, hnext⟩ := standsAt_of_drop h
  have hn : n < (linesOf d.text).length := (List.getElem?_eq_some_iff.1 hl.get).1
  have hnil : ls = [] ↔ (linesOf d.text).length ≤ n + 1 := by
    rw [← hnext]
    exact List.drop_eq_nil_iff
  rw [hnil]
  constructor
  · intro hnone
    by_contra hlt
    have hclosed := hl.closed (by omega)
    rw [hnone] at hclosed
    cases hclosed
  · intro hle
    exact (hl.last (by omega)).1

/-- **What lies outside the hidden characters** is what the folds leave of the lines. -/
theorem withoutFrom_lines (hls : d.lines.drop n = ls) :
    Text.withoutFrom (fs.ranges d) (d.lineStart n) (ls.map Line.full).flatten = fs.left n ls := by
  induction ls generalizing n with
  | nil => rfl
  | cons l ls ih =>
    obtain ⟨front, hl, hnext⟩ := standsAt_of_drop hls
    have hend : d.lineStart n + l.text.length = d.lineEnd n := by
      rw [Document.lineStart_eq hl, Document.lineEnd_eq hl, List.length_append]
    have hstart : d.lineEnd n + l.breakText.length = d.lineStart (n + 1) := by
      rw [Document.lineStart_succ hl, Document.lineEnd_eq hl, Line.full]
      simp [Nat.add_assoc]
    have htext : Text.withoutFrom (fs.ranges d) (d.lineStart n) l.text =
        if fs.isHidden n then [] else l.text := by
      refine Text.withoutFrom_eq _ fun pos hlow hhigh => Document.GoesWith.any_ranges ?_ fs
      exact ⟨fun m hm => Nat.le_trans (Document.lineEnd_le_lineStart hm) hlow, by omega⟩
    have hbreak : Text.withoutFrom (fs.ranges d) (d.lineEnd n) l.breakText =
        if fs.isHidden (n + 1) then [] else l.breakText := by
      refine Text.withoutFrom_eq _ fun pos hlow hhigh => Document.GoesWith.any_ranges ?_ fs
      refine ⟨fun m hm => Nat.le_trans (d.lineEnd_mono (Nat.le_of_lt_succ hm)) hlow, ?_⟩
      have := d.lineStart_le_lineEnd (n + 1)
      omega
    rw [List.map_cons, List.flatten_cons, Line.full, List.append_assoc, Text.withoutFrom_append,
      Text.withoutFrom_append, hend, hstart, htext, hbreak, ih hnext, left]

theorem without_ranges (fs : Folds) (d : Document) :
    d.text.without (fs.ranges d) = fs.left 0 d.lines := by
  rw [← withoutFrom_lines List.drop_zero, Document.lines, flatten_linesOf]
  rfl

/-! ## Lines of what is left -/

theorem On.isHidden_succ (h : fs.On d) (hshown : fs.isHidden n = false)
    (hblank : d.isBlankLine n = true) : fs.isHidden (n + 1) = false := by
  refine isHidden_eq_false_iff.2 fun f hf => ?_
  have hne : n ≠ f.first := by
    rintro rfl
    rw [(h.sameBlock_first hf).left] at hblank
    cases hblank
  have := isHidden_eq_false_iff.1 hshown f hf
  have := h.ordered.hides f hf
  omega

theorem On.head?_left (h : fs.On d) (hls : d.lines.drop n = ls) (hshown : fs.isHidden n = false) :
    (fs.left n ls).head? = ((ls.map Line.full).flatten).head? := by
  cases ls with
  | nil => rfl
  | cons l ls =>
    obtain ⟨front, hl, hnext⟩ := standsAt_of_drop hls
    rw [left, hshown, if_neg Bool.false_ne_true, List.map_cons, List.flatten_cons, Line.full,
      List.append_assoc]
    by_cases htext : l.text = []
    · have hblank : d.isBlankLine n = true := by
        rw [Document.isBlankLine, Document.line?_eq hl, htext]
        rfl
      rw [h.isHidden_succ hshown hblank, if_neg Bool.false_ne_true, htext, List.nil_append,
        List.nil_append]
      cases hending : l.ending with
      | some b => cases b <;> simp [Line.breakText, hending, Break.text]
      | none =>
        rw [(ending_eq_none_iff hls).1 hending]
        rfl
    · obtain ⟨c, t, hc⟩ := List.exists_cons_of_ne_nil htext
      rw [hc]
      rfl

theorem not_mem_shown (fs : Folds) {l : Line} (hls : d.lines.drop n = l :: ls) :
    '\n' ∉ (if fs.isHidden n then [] else l.text) ∧
      '\r' ∉ (if fs.isHidden n then [] else l.text) := by
  obtain ⟨front, hl, -⟩ := standsAt_of_drop hls
  split
  · exact ⟨List.not_mem_nil, List.not_mem_nil⟩
  · exact ⟨hl.lineFeed, hl.carriageReturn⟩

/-- The texts of the lines that are shown, of so many from a line on. -/
def shownTexts (fs : Folds) (d : Document) (n count : Nat) : List (Option Text) :=
  ((List.range' n count).filter fun line => !fs.isHidden line).map d.line?

theorem shownTexts_succ (fs : Folds) (d : Document) (n count : Nat) :
    fs.shownTexts d n (count + 1) =
      (if fs.isHidden n then [] else [d.line? n]) ++ fs.shownTexts d (n + 1) count := by
  rw [shownTexts, List.range'_succ, List.filter_cons]
  cases fs.isHidden n <;> rfl

/-- **Lines of what is left**, from a line on: what is left of the line itself, then the lines
behind it that are shown. -/
theorem On.texts_left (h : fs.On d) {l : Line} (hls : d.lines.drop n = l :: ls) :
    (linesOf (fs.left n (l :: ls))).map (some ∘ Line.text) =
      some (if fs.isHidden n then [] else l.text) :: fs.shownTexts d (n + 1) ls.length := by
  induction ls generalizing n l with
  | nil =>
    obtain ⟨hfeed, hreturn⟩ := not_mem_shown fs hls
    have hbreak : l.breakText = [] := by rw [Line.breakText, (ending_eq_none_iff hls).2 rfl]; rfl
    rw [left, hbreak, ite_self, left, List.append_nil, linesOf_append_of_not_mem hfeed hreturn,
      linesOf_nil, pushAll_cons, List.append_nil]
    rfl
  | cons m ls ih =>
    obtain ⟨front, hl, hnext⟩ := standsAt_of_drop hls
    obtain ⟨hfeed, hreturn⟩ := not_mem_shown fs hls
    have hrest := ih hnext
    rw [left, linesOf_append_of_not_mem hfeed hreturn, List.length_cons, shownTexts_succ]
    cases hhidden : fs.isHidden (n + 1) with
    | true =>
      -- the break is hidden, and what the line behind it leaves goes on in this one
      obtain ⟨r, rs, hr⟩ := List.exists_cons_of_ne_nil (linesOf_ne_nil (fs.left (n + 1) (m :: ls)))
      rw [hhidden, if_pos rfl, hr, List.map_cons, List.cons.injEq] at hrest
      obtain ⟨hfirst, hlater⟩ := hrest
      have hnil : r.text = [] := Option.some.inj hfirst
      rw [if_pos rfl, if_pos rfl, List.nil_append, List.nil_append, hr, pushAll_cons, hnil,
        List.append_nil, List.map_cons, hlater]
      rfl
    | false =>
      obtain ⟨b, hb⟩ : ∃ b, l.ending = some b := by
        rw [← Option.ne_none_iff_exists', ne_eq, ending_eq_none_iff hls]
        exact List.cons_ne_nil m ls
      have hbreak : l.breakText = b.text := by rw [Line.breakText, hb]; rfl
      have halone : b = .carriageReturn → (fs.left (n + 1) (m :: ls)).head? ≠ some '\n' := by
        rintro rfl
        rw [h.head?_left hnext hhidden]
        exact hl.alone hb
      obtain ⟨front', hm, -⟩ := standsAt_of_drop hnext
      rw [hhidden, if_neg Bool.false_ne_true] at hrest
      rw [if_neg Bool.false_ne_true, if_neg Bool.false_ne_true, hbreak, linesOf_break halone,
        pushAll_cons, List.append_nil, List.map_cons, hrest, Document.line?_eq hm]
      rfl

/-- **What folds leave of a document** falls into the lines that are shown. -/
theorem On.lineTexts_without (h : fs.On d) :
    (Document.lineTexts ⟨d.text.without (fs.ranges d)⟩).map some =
      ((List.range d.lineCount).filter fun line => !fs.isHidden line).map d.line? := by
  obtain ⟨l, ls, hls⟩ := List.exists_cons_of_ne_nil (linesOf_ne_nil d.text)
  have hdrop : d.lines.drop 0 = l :: ls := hls
  obtain ⟨front, hl, -⟩ := standsAt_of_drop hdrop
  have hshown : fs.isHidden 0 = false := isHidden_eq_false_iff.2 fun _ _ => .inl (Nat.zero_le _)
  have hcount : d.lineCount = ls.length + 1 := by rw [Document.lineCount, Document.lines, hls]; rfl
  have hall := h.texts_left hdrop
  rw [hshown, if_neg Bool.false_ne_true] at hall
  calc (Document.lineTexts ⟨d.text.without (fs.ranges d)⟩).map some
      = (linesOf (fs.left 0 (l :: ls))).map (some ∘ Line.text) := by
        rw [without_ranges, ← List.map_map, Document.lines, hls]
        rfl
    _ = fs.shownTexts d 0 (ls.length + 1) := by
        rw [hall, shownTexts_succ, hshown, Document.line?_eq hl]
        rfl
    _ = ((List.range d.lineCount).filter fun line => !fs.isHidden line).map d.line? := by
        rw [shownTexts, hcount, List.range_eq_range']

/-! ## All together -/

/-- How the characters that folds hide belong together with the lines that they hide. -/
structure RangesFit (fs : Folds) (d : Document) : Prop where
  nonempty : ∀ r ∈ fs.ranges d, r.start < r.stop
  inside : ∀ r ∈ fs.ranges d, r.stop ≤ d.length
  apart : (fs.ranges d).Pairwise fun r s => r.stop < s.start
  block : ∀ f ∈ fs, d.blockRange? f.first = some (f.range d)
  breaks : ∀ f ∈ fs,
    (closedLines (d.slice (f.range d).start (f.range d).stop)).length = f.hiddenCount
  /-- Without the hidden characters, the lines of the text are those that are shown. -/
  left : (Document.lineTexts ⟨d.text.without (fs.ranges d)⟩).map some =
    ((List.range d.lineCount).filter fun line => !fs.isHidden line).map d.line?

theorem On.rangesFit (h : fs.On d) : fs.RangesFit d where
  nonempty := by
    refine List.forall_mem_map.2 fun f hf => ?_
    exact Document.lineEnd_lt (h.ordered.hides f hf) (h.fit f hf).inside
  inside := by
    refine List.forall_mem_map.2 fun f hf => ?_
    exact Document.lineEnd_le_length (h.fit f hf).inside
  apart := by
    refine List.pairwise_map.2 (h.ordered.apart.imp_of_mem fun {f g} _ hg hlt => ?_)
    refine Document.lineEnd_lt hlt (Nat.lt_trans (h.ordered.hides g hg) (h.fit g hg).inside)
  block f hf := by rw [Document.blockRange?, h.blockEnd? hf]; rfl
  breaks f hf := by
    have hlast : f.first + f.hiddenCount = f.last :=
      Nat.add_sub_cancel' (Nat.le_of_lt (h.ordered.hides f hf))
    have hbreaks := Document.length_closedLines_slice (d := d) (n := f.first) (k := f.hiddenCount)
    rw [hlast] at hbreaks
    exact hbreaks (h.fit f hf).inside
  left := h.lineTexts_without

/-- **Hidden characters and hidden lines tell the same**, after every run of calls that bring one
document, and after every run of a view. -/
theorem ranges_run :
    (∀ (d : Document) (calls : List Call), (∀ c ∈ calls, c.Uses d) → (run [] calls).RangesFit d) ∧
    ∀ (settings : Settings) (value : Text) (listener : Option Listener)
      (actions : List View.Action),
      let v := ((View.ofText settings value listener).run actions).1
      v.folds.RangesFit v.doc := by
  refine ⟨fun d calls hcalls => (On.run hcalls).rangesFit, ?_⟩
  intro settings value listener actions
  have h := View.tidy_run settings value listener actions
  exact On.rangesFit ⟨h.ordered, h.fit⟩

def mixedBreaks : Document := ⟨"A\r\nB\r\n\nC\rD".toList⟩

theorem ranges_run_mixedBreaks :
    let calls : List Call := [.foldAll mixedBreaks]
    let ranges := (run [] calls).ranges mixedBreaks
    (∀ c ∈ calls, c.Uses mixedBreaks) ∧ ranges = [⟨1, 4⟩, ⟨8, 10⟩] ∧
      (Document.lineTexts ⟨mixedBreaks.text.without ranges⟩).map some =
        [0, 2, 3].map mixedBreaks.line? := by
  intro calls ranges
  have hcalls : ∀ c ∈ calls, c.Uses mixedBreaks :=
    List.forall_mem_singleton.2 fun d' hd' => (Option.mem_some.1 hd').symm
  have hshown : (List.range mixedBreaks.lineCount).filter
      (fun line => !(run [] calls).isHidden line) = [0, 2, 3] := by decide +kernel
  have hleft := (ranges_run.1 mixedBreaks calls hcalls).left
  rw [hshown] at hleft
  exact ⟨hcalls, by decide +kernel, hleft⟩

end Folds

end QueryEditor
