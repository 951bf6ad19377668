import QueryEditor.Proofs.Line.Joined

/-!
# Where lines start and end

A text falls into lines in one way: the characters of a line break nothing, one break stands behind
each line but the last, and a carriage return is a break of its own only where no line feed follows.
Positions and lines can be turned into one another: lines start one behind the other, and the line
of a position is the last one that starts at it or in front of it.

* `linesOf_cases`: the first line of a text and what is behind it;
* `Line.StandsAt`: a line, between the text in front of it and the text behind it;
* `exists_standsAt`: every line stands somewhere;
* `lineAt_lt`, `start_lineAt_le`, `le_lineAt`: the line of a position;
* **`Document.lines_fit`**: lines, breaks and positions of a document fit together.
-/

namespace QueryEditor

variable {t : Text} {n : Nat}

/-! ## The first line -/

/-- **The first line of a text** is all of it, or what stands in front of its first break. -/
theorem linesOf_cases (t : Text) :
    (linesOf t = [⟨t, none⟩] ∧ '\n' ∉ t ∧ '\r' ∉ t) ∨
    ∃ (first : Text) (b : Break) (rest : Text), t = first ++ (b.text ++ rest) ∧
      linesOf t = ⟨first, some b⟩ :: linesOf rest ∧ '\n' ∉ first ∧ '\r' ∉ first ∧
      (b = .carriageReturn → rest.head? ≠ some '\n') := by
  fun_induction linesOf t with
  | case1 => exact .inl ⟨rfl, List.not_mem_nil, List.not_mem_nil⟩
  | case2 r =>
    exact .inr ⟨[], .both, r, rfl, rfl, List.not_mem_nil, List.not_mem_nil, fun e => by cases e⟩
  | case3 r =>
    exact .inr ⟨[], .lineFeed, r, rfl, rfl, List.not_mem_nil, List.not_mem_nil, fun e => by cases e⟩
  | case4 r hr =>
    refine .inr ⟨[], .carriageReturn, r, rfl, rfl, List.not_mem_nil, List.not_mem_nil, fun _ => ?_⟩
    cases r with
    | nil => exact fun e => by cases e
    | cons c r => exact fun e => hr r rfl (by simpa using e)
  | case5 c r _ hn hr ih =>
    have hcons : ∀ {x : Text}, '\n' ∉ x ∧ '\r' ∉ x → '\n' ∉ c :: x ∧ '\r' ∉ c :: x := fun h =>
      ⟨fun hmem => (List.mem_cons.1 hmem).elim (fun e => hn e.symm) h.1,
        fun hmem => (List.mem_cons.1 hmem).elim (fun e => hr e.symm) h.2⟩
    rcases ih with ⟨hlines, hbreaks⟩ | ⟨first, b, rest, htext, hlines, hfeed, hreturn, halone⟩
    · exact .inl ⟨by rw [hlines]; rfl, hcons hbreaks⟩
    · obtain ⟨hfeed, hreturn⟩ := hcons ⟨hfeed, hreturn⟩
      exact .inr ⟨c :: first, b, rest, by rw [htext]; rfl, by rw [hlines]; rfl, hfeed, hreturn,
        halone⟩

/-! ## The place of a line -/

/-- The line with number `n` of a text, between the text in front of it and the text behind it and
its break. -/
structure Line.StandsAt (t : Text) (n : Nat) (l : Line) (front rest : Text) : Prop where
  get : (linesOf t)[n]? = some l
  text : t = front ++ (l.full ++ rest)
  start : total (((linesOf t).take n).map Line.width) = front.length
  lineFeed : '\n' ∉ l.text
  carriageReturn : '\r' ∉ l.text
  closed : n + 1 < (linesOf t).length → l.ending.isSome = true
  last : n + 1 = (linesOf t).length → l.ending = none ∧ rest = []
  alone : l.ending = some .carriageReturn → rest.head? ≠ some '\n'

/-- **Every line stands somewhere.** -/
theorem exists_standsAt (h : n < (linesOf t).length) :
    ∃ l front rest, Line.StandsAt t n l front rest := by
  induction n generalizing t with
  | zero =>
    rcases linesOf_cases t with ⟨hlines, hfeed, hreturn⟩ |
      ⟨first, b, rest, htext, hlines, hfeed, hreturn, halone⟩
    · refine ⟨⟨t, none⟩, [], [], ?_⟩
      exact
        { get := by rw [hlines]; rfl
          text := by simp [Line.full, Line.breakText]
          start := rfl
          lineFeed := hfeed
          carriageReturn := hreturn
          closed := by simp [hlines]
          last := fun _ => ⟨rfl, rfl⟩
          alone := nofun }
    · refine ⟨⟨first, some b⟩, [], rest, ?_⟩
      exact
        { get := by rw [hlines]; rfl
          text := by rw [htext]; simp [Line.full, Line.breakText]
          start := rfl
          lineFeed := hfeed
          carriageReturn := hreturn
          closed := fun _ => rfl
          last := by simp [hlines, linesOf_ne_nil]
          alone := fun hb => halone (Option.some.inj hb) }
  | succ n ih =>
    rcases linesOf_cases t with ⟨hlines, -⟩ | ⟨first, b, behind, htext, hlines, -⟩
    · rw [hlines, List.length_singleton] at h
      omega
    · rw [hlines, List.length_cons] at h
      obtain ⟨l, front, rest, hl⟩ := ih (t := behind) (by omega)
      refine ⟨l, first ++ (b.text ++ front), rest, ?_⟩
      exact
        { get := by rw [hlines]; exact hl.get
          text := by
            rw [htext, hl.text]
            simp
          start := by
            rw [hlines, List.take_succ_cons, List.map_cons, total_cons, hl.start]
            simp [Line.width, Line.full, Line.breakText, Nat.add_assoc]
          lineFeed := hl.lineFeed
          carriageReturn := hl.carriageReturn
          closed := fun hn => hl.closed (by rw [hlines, List.length_cons] at hn; omega)
          last := fun hn => hl.last (by rw [hlines, List.length_cons] at hn; omega)
          alone := hl.alone }

theorem break_not_mem_text {l : Line} (h : l ∈ linesOf t) : '\n' ∉ l.text ∧ '\r' ∉ l.text := by
  obtain ⟨n, hn⟩ := List.mem_iff_getElem?.1 h
  obtain ⟨m, front, rest, hm⟩ := exists_standsAt (List.getElem?_eq_some_iff.1 hn).1
  obtain rfl : m = l := Option.some.inj (hm.get.symm.trans hn)
  exact ⟨hm.lineFeed, hm.carriageReturn⟩

/-! ## The line of a position -/

section LineAt

variable (ls : List Line) (pos : Nat)

theorem lineAt_lt (h : ls ≠ []) : Document.lineAt ls pos < ls.length := by
  fun_induction Document.lineAt ls pos with
  | case1 => exact absurd rfl h
  | case2 => exact Nat.one_pos
  | case3 => exact Nat.succ_pos _
  | case4 l m ls pos _ ih => exact Nat.succ_lt_succ (ih (List.cons_ne_nil m ls))

theorem start_lineAt_le : total ((ls.take (Document.lineAt ls pos)).map Line.width) ≤ pos := by
  fun_induction Document.lineAt ls pos with
  | case1 => exact Nat.zero_le _
  | case2 => exact Nat.zero_le _
  | case3 => exact Nat.zero_le _
  | case4 l m ls pos hwidth ih =>
    rw [List.take_succ_cons, List.map_cons, total_cons]
    omega

theorem le_lineAt (hn : n < ls.length) (h : total ((ls.take n).map Line.width) ≤ pos) :
    n ≤ Document.lineAt ls pos := by
  fun_induction Document.lineAt ls pos generalizing n with
  | case1 => exact Nat.le_of_lt hn
  | case2 => exact Nat.le_of_lt_succ hn
  | case3 l m ls pos hwidth =>
    cases n with
    | zero => exact Nat.zero_le _
    | succ n =>
      rw [List.take_succ_cons, List.map_cons, total_cons] at h
      omega
  | case4 l m ls pos hwidth ih =>
    cases n with
    | zero => exact Nat.zero_le _
    | succ n =>
      rw [List.take_succ_cons, List.map_cons, total_cons] at h
      exact Nat.succ_le_succ (ih (Nat.lt_of_succ_lt_succ hn) (by omega))

end LineAt

namespace Document

variable {d : Document} {l : Line} {front rest : Text}

/-! ## Starts and ends -/

theorem lineStart_eq (h : l.StandsAt d.text n front rest) : d.lineStart n = front.length := h.start

theorem line?_eq (h : l.StandsAt d.text n front rest) : d.line? n = some l.text := by
  rw [line?, lines, h.get]
  rfl

theorem lineEnd_eq (h : l.StandsAt d.text n front rest) :
    d.lineEnd n = (front ++ l.text).length := by
  rw [lineEnd, lineStart_eq h, lineLength, line?_eq h, List.length_append]
  rfl

theorem lineStart_succ (h : l.StandsAt d.text n front rest) :
    d.lineStart (n + 1) = (front ++ l.full).length := by
  rw [lineStart, lines, List.take_add_one, h.get, List.map_append, total_append, h.start,
    List.length_append]
  simp [Line.width]

theorem slice_text (h : l.StandsAt d.text n front rest) :
    d.slice (d.lineStart n) (d.lineEnd n) = l.text := by
  have htext : d.text = front ++ (l.text ++ (l.breakText ++ rest)) := by
    rw [h.text, Line.full, List.append_assoc]
  rw [lineStart_eq h, lineEnd_eq h, slice, htext, Text.cut_append]

theorem slice_break (h : l.StandsAt d.text n front rest) :
    d.slice (d.lineEnd n) (d.lineStart (n + 1)) = l.breakText := by
  have htext : d.text = (front ++ l.text) ++ (l.breakText ++ rest) := by
    rw [h.text, Line.full]
    simp
  have hfull : front ++ l.full = (front ++ l.text) ++ l.breakText := by
    rw [Line.full, List.append_assoc]
  rw [lineEnd_eq h, lineStart_succ h, hfull, slice, htext, Text.cut_append]

theorem lineStart_of_le (h : d.lineCount ≤ n) : d.lineStart n = d.length := by
  rw [lineStart, List.take_of_length_le h, lines, total_width_linesOf, length]

theorem line?_of_le (h : d.lineCount ≤ n) : d.line? n = none := by
  rw [line?, List.getElem?_eq_none h]
  rfl

theorem lineStart_lt_succ (h : n + 1 < d.lineCount) : d.lineStart n < d.lineStart (n + 1) := by
  obtain ⟨l, front, rest, hl⟩ := exists_standsAt (Nat.lt_of_succ_lt h)
  obtain ⟨b, hb⟩ := Option.isSome_iff_exists.1 (hl.closed h)
  have hbreak : 0 < l.breakText.length := by
    rw [Line.breakText, hb]
    cases b <;> exact Nat.succ_pos _
  rw [lineStart_eq hl, lineStart_succ hl, Line.full, List.length_append, List.length_append]
  omega

theorem lineStart_lt {m : Nat} (hnm : n < m) (hm : m < d.lineCount) :
    d.lineStart n < d.lineStart m := by
  induction hnm with
  | refl => exact lineStart_lt_succ hm
  | step _ ih => exact Nat.lt_trans (ih (Nat.lt_of_succ_lt hm)) (lineStart_lt_succ hm)

/-! ## Breaks -/

theorem slice_break_mem (h : n + 1 < d.lineCount) :
    d.slice (d.lineEnd n) (d.lineStart (n + 1)) ∈ [['\n'], ['\r'], ['\r', '\n']] := by
  obtain ⟨l, front, rest, hl⟩ := exists_standsAt (Nat.lt_of_succ_lt h)
  obtain ⟨b, hb⟩ := Option.isSome_iff_exists.1 (hl.closed h)
  rw [slice_break hl, Line.breakText, hb]
  cases b <;> decide

/-- A carriage return that ends a line has no line feed behind it. -/
theorem get?_lineStart_succ_ne (h : n + 1 < d.lineCount)
    (hreturn : d.slice (d.lineEnd n) (d.lineStart (n + 1)) = ['\r']) :
    d.text[d.lineStart (n + 1)]? ≠ some '\n' := by
  obtain ⟨l, front, rest, hl⟩ := exists_standsAt (Nat.lt_of_succ_lt h)
  obtain ⟨b, hb⟩ := Option.isSome_iff_exists.1 (hl.closed h)
  rw [slice_break hl, Line.breakText, hb] at hreturn
  have hending : l.ending = some .carriageReturn := by
    rw [hb]
    cases b with
    | carriageReturn => rfl
    | lineFeed => exact absurd hreturn (by decide)
    | both => exact absurd hreturn (by decide)
  have htext : d.text = (front ++ l.full) ++ rest := by rw [hl.text, List.append_assoc]
  rw [lineStart_succ hl, htext, List.getElem?_append_right (Nat.le_refl _), Nat.sub_self,
    ← List.head?_eq_getElem?]
  exact hl.alone hending

theorem slice_break_last (h : n + 1 = d.lineCount) :
    d.slice (d.lineEnd n) (d.lineStart (n + 1)) = [] := by
  have hlast : n < (linesOf d.text).length := Nat.lt_of_lt_of_eq (Nat.lt_succ_self n) h
  obtain ⟨l, front, rest, hl⟩ := exists_standsAt hlast
  rw [slice_break hl, Line.breakText, (hl.last h).1]
  rfl

theorem line_append_break (h : n < d.lineCount) : d.lines[n]?.map Line.full =
    some ((d.line? n).getD [] ++ d.slice (d.lineEnd n) (d.lineStart (n + 1))) := by
  obtain ⟨l, front, rest, hl⟩ := exists_standsAt h
  rw [line?_eq hl, slice_break hl, lines, hl.get]
  rfl

/-- **All lines with their breaks** are the text. -/
theorem flatMap_line_append_break (d : Document) : ((List.range d.lineCount).flatMap fun n =>
    (d.line? n).getD [] ++ d.slice (d.lineEnd n) (d.lineStart (n + 1))) = d.text := by
  have hlines : (List.range d.lineCount).map (fun n =>
      (d.line? n).getD [] ++ d.slice (d.lineEnd n) (d.lineStart (n + 1))) =
        d.lines.map Line.full := by
    refine List.ext_getElem? fun n => ?_
    rw [List.getElem?_map, List.getElem?_map]
    by_cases hn : n < d.lineCount
    · rw [List.getElem?_range hn, line_append_break hn]
      rfl
    · have hle : d.lineCount ≤ n := Nat.le_of_not_lt hn
      rw [List.getElem?_eq_none hle, List.getElem?_eq_none (by simpa using hle)]
      rfl
  rw [List.flatMap_def, hlines]
  exact flatten_linesOf d.text

/-! ## The line of a position -/

theorem lineOf_lt (d : Document) (pos : Nat) : d.lineOf pos < d.lineCount :=
  lineAt_lt d.lines _ (linesOf_ne_nil d.text)

theorem lineStart_lineOf_le (d : Document) (pos : Nat) :
    d.lineStart (d.lineOf pos) ≤ min pos d.length := start_lineAt_le d.lines _

theorem le_lineOf {pos : Nat} (hn : n < d.lineCount) (h : d.lineStart n ≤ min pos d.length) :
    n ≤ d.lineOf pos := le_lineAt d.lines _ hn h

theorem lineOf_mono (d : Document) {pos pos' : Nat} (h : pos ≤ pos') :
    d.lineOf pos ≤ d.lineOf pos' := by
  have hstart := d.lineStart_lineOf_le pos
  exact le_lineOf (d.lineOf_lt pos) (by omega)

/-! ## All together -/

/-- How the lines of a document lie in its text: the breaks between them, the positions where they
start and end, and the line of a position. -/
structure LinesFit (d : Document) : Prop where
  start_zero : d.lineStart 0 = 0
  start_lt : ∀ n m, n < m → m < d.lineCount → d.lineStart n < d.lineStart m
  line : ∀ n < d.lineCount, d.line? n = some (d.slice (d.lineStart n) (d.lineEnd n))
  unbroken : ∀ n < d.lineCount, ∀ c ∈ d.slice (d.lineStart n) (d.lineEnd n), c ≠ '\n' ∧ c ≠ '\r'
  ending : ∀ n, n + 1 < d.lineCount →
    d.slice (d.lineEnd n) (d.lineStart (n + 1)) ∈ [['\n'], ['\r'], ['\r', '\n']]
  /-- A carriage return in front of a line feed ends no line by itself. -/
  alone : ∀ n, n + 1 < d.lineCount → d.slice (d.lineEnd n) (d.lineStart (n + 1)) = ['\r'] →
    d.text[d.lineStart (n + 1)]? ≠ some '\n'
  last : ∀ n, n + 1 = d.lineCount → d.slice (d.lineEnd n) (d.lineStart (n + 1)) = []
  whole : ((List.range d.lineCount).flatMap fun n =>
    (d.line? n).getD [] ++ d.slice (d.lineEnd n) (d.lineStart (n + 1))) = d.text
  /-- The line of a position is the greatest one that does not start behind it. -/
  lineOf : ∀ pos, d.lineOf pos < d.lineCount ∧
    d.lineStart (d.lineOf pos) ≤ min pos d.length ∧
    ∀ n < d.lineCount, d.lineStart n ≤ min pos d.length → n ≤ d.lineOf pos
  missing : ∀ n, d.lineCount ≤ n → d.lineStart n = d.length ∧ d.lineEnd n = d.length ∧
    d.line? n = none ∧ d.isBlankLine n = true

/-- **The lines of a document fit together**, whatever its text. -/
theorem lines_fit (d : Document) : d.LinesFit where
  start_zero := rfl
  start_lt _ _ hnm hm := lineStart_lt hnm hm
  line n hn := by
    obtain ⟨l, front, rest, hl⟩ := exists_standsAt hn
    rw [slice_text hl, line?_eq hl]
  unbroken n hn c hc := by
    obtain ⟨l, front, rest, hl⟩ := exists_standsAt hn
    rw [slice_text hl] at hc
    exact ⟨fun e => hl.lineFeed (e ▸ hc), fun e => hl.carriageReturn (e ▸ hc)⟩
  ending _ hn := slice_break_mem hn
  alone _ hn hreturn := get?_lineStart_succ_ne hn hreturn
  last _ hn := slice_break_last hn
  whole := d.flatMap_line_append_break
  lineOf pos := ⟨d.lineOf_lt pos, d.lineStart_lineOf_le pos, fun _ hn h => le_lineOf hn h⟩
  missing n hn := by
    have hline := line?_of_le hn
    refine ⟨lineStart_of_le hn, ?_, hline, ?_⟩
    · rw [lineEnd, lineStart_of_le hn, lineLength, hline]
      rfl
    · rw [isBlankLine, hline]
      rfl

end Document

end QueryEditor
