import QueryEditor.Proofs.Console.Lines

/-!
# Nothing is lost in lines

The splitter takes its output apart without losing, doubling or changing a character. The lines that
it returns, one behind the other, are the text of the output without its breaks, also where a chunk
ends inside a character. No line is empty. The text that waits never has the prompt in it, so a line
has the prompt in it at its end or not at all, however the prompt overlaps with itself.

* `Splitter.allLines`: the lines of an output, up to its end;
* `EndsOnly`: a text has another one in it at its end only;
* `Reading.flatten_readAll`: the lines that are reported and the text that waits;
* `Reading.line_of_mem_readAll`: what every reported line is like;
* `Reading.allLines_encode`: the lines are those reports and that text;
* **`lines_lossless`**: the lines of an output whose bytes are those of a text.
-/

namespace QueryEditor

/-- The lines that the splitter returns for the chunks of an output, and at its end. -/
def Splitter.allLines (s : Splitter) (chunks : List (List UInt8)) : List Text :=
  (s.pushAll chunks).2 ++ (s.pushAll chunks).1.finish.2.toList

theorem Splitter.allLines_eq (s : Splitter) (chunks : List (List UInt8)) :
    s.allLines chunks = (s.outputReports chunks).map Report.line := by
  induction chunks generalizing s with
  | nil =>
    rw [allLines, pushAll, outputReports]
    cases s.finish.2 <;> rfl
  | cons chunk chunks ih =>
    rw [outputReports, List.map_append, map_line_reports, ← ih, allLines, allLines, pushAll,
      List.append_assoc]

/-- Wherever `p` stands in the text, nothing is behind it: it is there once at most, and the text
ends with it then. -/
def EndsOnly (p text : Text) : Prop := ∀ u v, text = u ++ (p ++ v) → v = []

/-- The characters of a text that break no line. -/
def unbrokenPart (t : Text) : Text := t.filter fun c => !(c == '\r' || c == '\n')

theorem endsOnly_of_not_infix {p text : Text} (h : ¬ p <:+: text) : EndsOnly p text := by
  rintro u v rfl
  exact absurd ⟨u, v, List.append_assoc u p v⟩ h

theorem endsOnly_concat {p w : Text} {c : Char} (h : ¬ p <:+: w) : EndsOnly p (w ++ [c]) := by
  intro u v htext
  rcases List.eq_nil_or_concat' v with hv | ⟨v, b, rfl⟩
  · exact hv
  · have hw : w = u ++ p ++ v := by
      rw [← List.append_assoc, ← List.append_assoc] at htext
      exact (List.append_inj' htext rfl).1
    exact absurd ⟨u, v, hw.symm⟩ h

namespace Reading

variable {p w : Text}

theorem flatten_read (p w : Text) (c : Char) :
    ((read p w c).2.toList.map Report.line).flatten ++ (read p w c).1 =
      w ++ unbrokenPart [c] := by
  unfold read
  split
  · rename_i hbreak
    have hpart : unbrokenPart [c] = [] := by rcases hbreak with rfl | rfl <;> rfl
    rw [hpart]
    by_cases hw : w = []
    · rw [hw]
      rfl
    · simp [hw]
  · rename_i hbreak
    have hpart : unbrokenPart [c] = [c] := by simpa [unbrokenPart] using hbreak
    rw [hpart]
    split
    · simp
    · rfl

/-- **What is read is reported or waits**, character by character, the breaks aside. -/
theorem flatten_readAll (p w t : Text) :
    ((readAll p w t).2.map Report.line).flatten ++ (readAll p w t).1 = w ++ unbrokenPart t := by
  induction t generalizing w with
  | nil => exact (List.append_nil w).symm
  | cons c t ih =>
    have hparts : unbrokenPart (c :: t) = unbrokenPart [c] ++ unbrokenPart t :=
      List.filter_append [c] t
    rw [readAll, List.map_append, List.flatten_append, List.append_assoc, ih, ← List.append_assoc,
      flatten_read, List.append_assoc, hparts]

theorem line_of_mem_read {c : Char} (hw : ¬ p <:+: w) {r : Report} (hr : r ∈ (read p w c).2) :
    r.line ≠ [] ∧ EndsOnly p r.line := by
  unfold read at hr
  split at hr
  · by_cases hempty : w = []
    · simp [hempty] at hr
    · rw [if_neg hempty] at hr
      obtain rfl := Option.mem_some.1 hr
      exact ⟨hempty, endsOnly_of_not_infix hw⟩
  · split at hr
    · obtain rfl := Option.mem_some.1 hr
      exact ⟨List.append_ne_nil_of_right_ne_nil w (List.cons_ne_nil c []), endsOnly_concat hw⟩
    · cases hr

/-- **A reported line** has a character, and the prompt at its end only. -/
theorem line_of_mem_readAll {t : Text} (hw : ¬ p <:+: w) {r : Report}
    (hr : r ∈ (readAll p w t).2) : r.line ≠ [] ∧ EndsOnly p r.line := by
  induction t generalizing w with
  | nil => exact absurd hr List.not_mem_nil
  | cons c t ih =>
    rcases List.mem_append.1 hr with hr | hr
    · exact line_of_mem_read hw (Option.mem_toList.1 hr)
    · exact ih (read_report c hw).1 hr

theorem allLines_encode {t : Text} {chunks : List (List UInt8)}
    (h : chunks.flatten = Utf8.encode t) :
    (Splitter.start p).allLines chunks = (readAll p [] t).2.map Report.line ++
      if (readAll p [] t).1 = [] then [] else [(readAll p [] t).1] := by
  rw [Splitter.allLines_eq, outputReports_encode h, List.map_append]
  split
  · rfl
  · rfl

end Reading

open Reading

/-- **Lines lose nothing.** The lines of an output whose bytes are those of a text, in whatever
chunks it comes, are together the text without its breaks; each has a character, and the prompt at
its end only. -/
theorem lines_lossless {p t : Text} (hp : p ≠ []) {chunks : List (List UInt8)}
    (h : chunks.flatten = Utf8.encode t) :
    let lines := (Splitter.start p).allLines chunks
    lines.flatten = unbrokenPart t ∧
      ∀ line ∈ lines, line ≠ [] ∧ EndsOnly p line := by
  intro lines
  have hstart : ¬ p <:+: [] := fun hp' => hp (List.infix_nil.1 hp')
  obtain ⟨hwaiting, -⟩ := reports_readAll t hstart
  have hlines : lines = _ := allLines_encode h
  constructor
  · have hrest : (if (readAll p [] t).1 = [] then [] else [(readAll p [] t).1]).flatten =
        (readAll p [] t).1 := by
      split
      · rename_i hnone
        exact hnone.symm
      · exact List.flatten_singleton
    rw [hlines, List.flatten_append, hrest]
    exact flatten_readAll p [] t
  · intro line hline
    rw [hlines, List.mem_append] at hline
    rcases hline with hline | hline
    · obtain ⟨r, hr, rfl⟩ := List.mem_map.1 hline
      exact line_of_mem_readAll hstart hr
    · split at hline
      · exact absurd hline List.not_mem_nil
      · rename_i hne
        obtain rfl := List.mem_singleton.1 hline
        exact ⟨hne, endsOnly_of_not_infix hwaiting⟩

/-- Two chunks that part the two bytes of the first character of the prompt. -/
theorem lines_lossless_cutCharacter :
    let chunks : List (List UInt8) := [[0x61, 0xC3], [0xA9, 0x3E, 0x62, 0x0D, 0x0A, 0x63]]
    let lines := (Splitter.start "é>".toList).allLines chunks
    chunks.flatten = Utf8.encode "aé>b\r\nc".toList ∧
      lines = ["aé>".toList, "b".toList, "c".toList] ∧
      lines.flatten = "aé>bc".toList ∧ ∀ line ∈ lines, line ≠ [] ∧ EndsOnly "é>".toList line := by
  have hbytes : [[0x61, 0xC3], [0xA9, 0x3E, 0x62, 0x0D, 0x0A, 0x63]].flatten =
      Utf8.encode "aé>b\r\nc".toList := by decide
  exact ⟨hbytes, by decide +kernel, lines_lossless (by decide) hbytes⟩

end QueryEditor
