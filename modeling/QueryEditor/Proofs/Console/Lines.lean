import QueryEditor.Proofs.Console.Reading

/-!
# Lines of a text

What the text that is read does to the text that waits. Without breaks and prompts it waits as a
whole; a prompt is reported where it ends for the first time; a line feed reports what waits. Text
that waits never has the prompt in it, so each line is reported for one reason only.

* `Unbroken`: no break in a text;
* `Reading.readAll_unbroken`, `Reading.readAll_prompt`, `Reading.readAll_lines`;
* `Reading.reports_readAll`: a line reported for the prompt ends with it, no other line has it;
* **`Reading.outputReports_encode`**: all reports of an output whose bytes are those of a text.
-/

namespace QueryEditor

def Unbroken (t : Text) : Prop := ∀ c ∈ t, ¬ (c = '\r' ∨ c = '\n')

instance (t : Text) : Decidable (Unbroken t) := List.decidableBAll _ t

namespace Unbroken

variable {s t : Text}

theorem append_iff : Unbroken (s ++ t) ↔ Unbroken s ∧ Unbroken t := List.forall_mem_append

theorem singleton_iff {c : Char} : Unbroken [c] ↔ ¬ (c = '\r' ∨ c = '\n') :=
  List.forall_mem_singleton

theorem replicate_blank (k : Nat) : Unbroken (List.replicate k ' ') := by
  intro c hc
  rw [List.eq_of_mem_replicate hc]
  decide

end Unbroken

theorem not_infix_append_of_head {p w t : Text} (hp : p ≠ []) (hw : p.head hp ∉ w)
    (ht : t.length < p.length) : ¬ p <:+: w ++ t := by
  induction w with
  | nil => exact fun h => absurd h.length_le (Nat.not_le.2 ht)
  | cons c w ih =>
    obtain ⟨hc, hw'⟩ := not_or.1 (mt List.mem_cons.2 hw)
    rw [List.cons_append, List.infix_cons_iff]
    rintro (hfront | hlater)
    · rcases List.prefix_cons_iff.1 hfront with hnil | ⟨p', rfl, -⟩
      · exact hp hnil
      · exact hc rfl
    · exact ih hw' hlater

namespace Reading

variable {p w t : Text}

theorem readAll_append (p w s t : Text) :
    readAll p w (s ++ t) = ((readAll p (readAll p w s).1 t).1,
      (readAll p w s).2 ++ (readAll p (readAll p w s).1 t).2) := by
  induction s generalizing w with
  | nil => rfl
  | cons c s ih =>
    simp only [List.cons_append, readAll, ih, List.append_assoc]

theorem readAll_lineFeed (p w t : Text) :
    readAll p w ('\n' :: t) = ((readAll p [] t).1,
      (if w = [] then [] else [⟨.lineBreak, w⟩]) ++ (readAll p [] t).2) := by
  by_cases hw : w = []
  · simp [readAll, read, hw]
  · simp [readAll, read, hw]

theorem readAll_unbroken (ht : Unbroken t) (h : ¬ p <:+: w ++ t) :
    readAll p w t = (w ++ t, []) := by
  induction t generalizing w with
  | nil => simp [readAll]
  | cons c t ih =>
    rw [List.append_cons] at h
    have hquiet : ¬ (p ≠ [] ∧ p <:+ w ++ [c]) := fun hsuffix =>
      h (hsuffix.2.isInfix.trans (List.infix_append [] _ t))
    have hread : read p w c = (w ++ [c], none) := by
      rw [read, if_neg (ht c List.mem_cons_self), if_neg hquiet]
    have hrest := ih (fun d hd => ht d (List.mem_cons_of_mem c hd)) h
    simp only [readAll, hread, hrest, Option.toList_none, List.nil_append, List.append_assoc,
      List.singleton_append]

/-- A prompt is reported where it ends, with what waits before it, if its first character is not in
that. -/
theorem readAll_prompt (hp : p ≠ []) (hbreak : Unbroken p) (hw : p.head hp ∉ w) :
    readAll p w p = ([], [⟨.prompt, w ++ p⟩]) := by
  have hparts : p.dropLast ++ [p.getLast hp] = p := List.dropLast_concat_getLast hp
  have hshort : p.dropLast.length < p.length := by
    rw [List.length_dropLast]
    exact Nat.sub_one_lt (mt List.length_eq_zero_iff.1 hp)
  obtain ⟨hinit, hlast⟩ := Unbroken.append_iff.1 (hparts.symm ▸ hbreak)
  have hwhole : w ++ p.dropLast ++ [p.getLast hp] = w ++ p := by
    rw [List.append_assoc, hparts]
  have hread : read p (w ++ p.dropLast) (p.getLast hp) = ([], some ⟨.prompt, w ++ p⟩) := by
    rw [read, if_neg (Unbroken.singleton_iff.1 hlast), hwhole,
      if_pos ⟨hp, List.suffix_append w p⟩]
  calc readAll p w p = readAll p w (p.dropLast ++ [p.getLast hp]) := by rw [hparts]
    _ = ([], [⟨.prompt, w ++ p⟩]) := by
      rw [readAll_append, readAll_unbroken hinit (not_infix_append_of_head hp hw hshort)]
      simp only [readAll, hread]
      rfl

theorem readAll_lines {lines : List Text} (h : ∀ l ∈ lines, Unbroken l ∧ ¬ p <:+: l) :
    readAll p [] (lines.flatMap (· ++ ['\n'])) =
      ([], (lines.filter (· ≠ [])).map (Report.mk .lineBreak)) := by
  induction lines with
  | nil => rfl
  | cons l lines ih =>
    obtain ⟨hbreak, hprompt⟩ := h l List.mem_cons_self
    have hrest := ih fun x hx => h x (List.mem_cons_of_mem l hx)
    rw [List.flatMap_cons, List.append_assoc, readAll_append, readAll_unbroken hbreak hprompt,
      List.nil_append, List.singleton_append, readAll_lineFeed, hrest]
    by_cases hl : l = []
    · simp [hl]
    · simp [hl]

/-! ## Why a line is reported -/

/-- One more character: the prompt is not in what waits, and the report is for the prompt just
when the line ends with it. -/
theorem read_report (c : Char) (hw : ¬ p <:+: w) :
    ¬ p <:+: (read p w c).1 ∧ ∀ r ∈ (read p w c).2,
      r.cause = .prompt ∧ p <:+ r.line ∨ r.cause = .lineBreak ∧ ¬ p <:+: r.line := by
  have hnil : ¬ p <:+: [] := fun h => hw (h.trans List.nil_infix)
  unfold read
  split
  · refine ⟨hnil, fun r hr => .inr ?_⟩
    by_cases hempty : w = []
    · simp [hempty] at hr
    · rw [if_neg hempty] at hr
      obtain rfl := Option.mem_some.1 hr
      exact ⟨rfl, hw⟩
  · split
    · rename_i hsuffix
      refine ⟨hnil, fun r hr => .inl ?_⟩
      obtain rfl := Option.mem_some.1 hr
      exact ⟨rfl, hsuffix.2⟩
    · rename_i hsuffix
      refine ⟨fun h => ?_, fun r hr => by simp at hr⟩
      rcases List.infix_concat_iff.1 h with hlast | hbefore
      · exact hsuffix ⟨fun e => hw (e ▸ List.nil_infix), hlast⟩
      · exact hw hbefore

theorem reports_readAll (t : Text) (hw : ¬ p <:+: w) :
    ¬ p <:+: (readAll p w t).1 ∧ ∀ r ∈ (readAll p w t).2,
      r.cause = .prompt ∧ p <:+ r.line ∨ r.cause = .lineBreak ∧ ¬ p <:+: r.line := by
  induction t generalizing w with
  | nil => exact ⟨hw, fun r hr => absurd hr List.not_mem_nil⟩
  | cons c t ih =>
    obtain ⟨hwaiting, hreport⟩ := read_report c hw
    obtain ⟨hwaiting', hreports⟩ := ih hwaiting
    refine ⟨hwaiting', fun r hr => ?_⟩
    rcases List.mem_append.1 hr with hr | hr
    · exact hreport r (Option.mem_toList.1 hr)
    · exact hreports r hr

/-! ## Whole outputs -/

/-- **All reports of an output** whose bytes are those of a text, in whatever chunks it comes:
those of the text, and at the end what still waits. -/
theorem outputReports_encode {chunks : List (List UInt8)}
    (h : chunks.flatten = Utf8.encode t) :
    (Splitter.start p).outputReports chunks = (readAll p [] t).2 ++
      if (readAll p [] t).1 = [] then [] else [⟨.ending, (readAll p [] t).1⟩] := by
  obtain ⟨hstate, hreports⟩ := push_encode p [] t
  rw [Utf8.encode_nil] at hstate hreports
  rw [Splitter.outputReports_eq, h, start_eq_holding, Splitter.outputReports, hreports,
    Splitter.outputReports, hstate, finish_holding]
  by_cases hw : (readAll p [] t).1 = []
  · rw [if_pos hw, if_pos hw]
    rfl
  · rw [if_neg hw, if_neg hw]
    rfl

end Reading

end QueryEditor
