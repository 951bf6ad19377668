import QueryEditor.Proofs.Console.Deleted
import QueryEditor.Proofs.Console.Echoes
import QueryEditor.Proofs.Console.Prompts
import QueryEditor.Proofs.Console.Transcripts
import QueryEditor.Proofs.Data.Listing

/-!
# Silent lines

A line of output can be silent: it is no echo, but once its control sequences are taken out nothing
of it is visible, as when a colour is reset behind the prompt. The splitter reports it, since it has
bytes; cleaning empties it and does not drop it; and the answer counts it as a line. So an output in
which nothing is visible is answered by line feeds, or by an empty text, and it is called no output
just when no line of it is silent.

* `Noise.IsSilent`: a line of which nothing is visible, **`Noise.clean_eq_nil_iff`**: what becomes
  of it;
* `rawLines`: the lines of an output, `takenLines`: those that its answer takes up;
* `text_transcript`: the answer to an output, by its lines;
* **`silent_lines`**: what silent lines make of the answer.
-/

namespace QueryEditor

open Unicode

/-! ## What cleaning makes of a silent line -/

namespace Noise

/-- Nothing of the line is visible, its control sequences aside. -/
def IsSilent (line : Text) : Prop := ∀ c ∈ stripSequences line, isVisible c = false

instance (line : Text) : Decidable (IsSilent line) := List.decidableBAll _ _

variable {p t rest : Text}

theorem suffix_of_afterDigits? (h : afterDigits? t = some rest) : rest <:+ t := by
  rw [afterDigits?] at h
  split at h
  · obtain rfl := Option.some.inj h
    exact List.dropWhile_suffix _
  · cases h

theorem exists_suffix_of_afterBlanks {q : Text → Bool} (h : afterBlanks q t = true) :
    ∃ s, s <:+ t ∧ q s = true := by
  induction t with
  | nil => cases h
  | cons c t ih =>
    rw [afterBlanks, Bool.and_eq_true, Bool.or_eq_true] at h
    rcases h.2 with hnow | hlater
    · exact ⟨t, List.suffix_cons c t, hnow⟩
    · obtain ⟨s, hs, hq⟩ := ih hlater
      exact ⟨s, hs.trans (List.suffix_cons c t), hq⟩

/-! Every form of echo has a character that is visible. -/

theorem mem_of_isPromptEcho (h : isPromptEcho p t = true) : '$' ∈ t := by
  unfold isPromptEcho at h
  split at h
  · exact List.mem_cons_self
  · cases h

theorem mem_of_isContinuationEcho (h : isContinuationEcho t = true) : '.' ∈ t := by
  unfold isContinuationEcho at h
  split at h
  · rename_i rest hdots
    obtain ⟨after, hafter, hrest⟩ := Option.map_eq_some_iff.1 hdots
    have hmem : '.' ∈ Text.trimStart after := hrest ▸ List.mem_cons_self
    exact (suffix_of_afterDigits? hafter).subset ((Text.trimStart_suffix after).subset hmem)
  · cases h

theorem mem_of_isCommandEcho (h : isCommandEcho t = true) : '.' ∈ t := by
  unfold isCommandEcho at h
  cases hafter : afterDigits? t with
  | none =>
    rw [hafter] at h
    cases h
  | some after =>
    rw [hafter] at h
    obtain ⟨s, hs, hcommand⟩ := exists_suffix_of_afterBlanks h
    split at hcommand
    · exact (suffix_of_afterDigits? hafter).subset (hs.subset List.mem_cons_self)
    · cases hcommand

/-- **A silent line is emptied, not dropped**, and no other line is emptied. -/
theorem clean_eq_nil_iff (p line : Text) : clean p line = some [] ↔ IsSilent line := by
  constructor
  · intro h c hc
    exact Bool.eq_false_iff.2 (List.filter_eq_nil_iff.1 (clean_kept_iff.1 h).2.1.symm c hc)
  · intro h
    have hquiet : ∀ c, isVisible c = true → c ∉ stripSequences line := fun c hc hmem =>
      absurd hc (Bool.eq_false_iff.1 (h c hmem))
    have hdot : '.' ∉ (stripSequences line).trim := fun hmem =>
      hquiet '.' (by decide) ((Text.trim_isInfix _).subset hmem)
    have hempty : (stripSequences line).filter isVisible = [] :=
      List.filter_eq_nil_iff.2 fun c hc hvisible => hquiet c hvisible hc
    refine clean_kept_iff.2 ⟨?_, hempty.symm, by decide⟩
    rintro (hprompt | hcontinuation | hcommand)
    · exact hquiet '$' (by decide) (mem_of_isPromptEcho hprompt)
    · exact hdot (mem_of_isContinuationEcho hcontinuation)
    · exact hdot (mem_of_isCommandEcho hcommand)

theorem mem_of_mem_clean {cleaned : Text} (h : clean p t = some cleaned) {c : Char}
    (hc : c ∈ cleaned) : c ∈ t := by
  obtain rfl := eq_of_clean h
  exact (Text.select_sublist _ t).subset (List.mem_of_mem_filter hc)

end Noise

/-! ## Lines of an output -/

open Noise

def rawLines (p : Text) (chunks : List (List UInt8)) : List Text :=
  ((Splitter.start p).outputReports chunks).map Report.line

/-- The lines that an answer takes up: what is left of lines, the prompts aside. -/
def takenLines (p : Text) (lines : List Text) : List Text :=
  (lines.filterMap (clean p)).filter fun l => !isPrompt l p

/-- Lines as an answer. -/
def answerOf (lines : List Text) : Text := (Response.mk true lines).text

theorem follow_eq_takeAll (p : Text) (s : Splitter) (r : Response) (chunks : List (List UInt8)) :
    follow p s r chunks = r.takeAll p ((s.outputReports chunks).map Report.line) := by
  induction chunks generalizing s r with
  | nil =>
    rw [follow, Splitter.outputReports]
    cases s.finish.2 <;> rfl
  | cons chunk chunks ih =>
    rw [follow_cons, ih, Splitter.outputReports, List.map_append, Splitter.map_line_reports,
      Response.takeAll_append]

theorem lines_accept (p : Text) (r : Response) (line : Text) :
    (r.accept p line).1.lines = r.lines ++ [line].filter fun l => !isPrompt l p := by
  unfold Response.accept
  cases hprompt : isPrompt line p with
  | true => cases r.accepted <;> simp [hprompt]
  | false => simp [hprompt]

theorem lines_takeAll (p : Text) (r : Response) (lines : List Text) :
    (r.takeAll p lines).1.lines = r.lines ++ takenLines p lines := by
  induction lines generalizing r with
  | nil => exact (List.append_nil _).symm
  | cons line lines ih =>
    have hfirst : (r.take p line).1.lines = r.lines ++ takenLines p [line] := by
      unfold Response.take takenLines
      cases hclean : clean p line with
      | none => simp [hclean]
      | some cleaned =>
        rw [List.filterMap_cons_some hclean]
        exact lines_accept p r cleaned
    change ((r.take p line).1.takeAll p lines).1.lines = _
    rw [ih, hfirst, List.append_assoc, takenLines, takenLines, takenLines, ← List.filter_append,
      ← List.filterMap_append, List.singleton_append]

/-- **The answer to an output** has the lines that are taken up. -/
theorem text_transcript (p : Text) (chunks : List (List UInt8)) :
    (transcript p chunks).text = answerOf (takenLines p (rawLines p chunks)) := by
  have hlines := lines_takeAll p .start (rawLines p chunks)
  rw [Response.start, List.nil_append] at hlines
  have htext : (transcript p chunks).text = (follow p (.start p) .start chunks).1.text := rfl
  rw [htext, follow_eq_takeAll, Response.text, ← rawLines, Response.start, hlines]
  rfl

/-! ## Line feeds -/

theorem lineFeed_not_mem_line? {s : Splitter} (h : 10 ∉ s.waiting) :
    ∀ line ∈ s.line?, '\n' ∉ line := by
  intro line hline
  unfold Splitter.line? at hline
  split at hline
  · cases hline
  · obtain rfl := Option.some.inj hline
    exact Utf8.lineFeed_not_mem_decode (mt List.mem_reverse.1 h)

theorem lineFeed_not_mem_feed {s : Splitter} (h : 10 ∉ s.waiting) (b : UInt8) :
    10 ∉ (s.feed b).1.waiting ∧ ∀ line ∈ (s.feed b).2, '\n' ∉ line := by
  simp only [Splitter.feed]
  split
  · exact ⟨List.not_mem_nil, lineFeed_not_mem_line? h⟩
  · rename_i hbreak
    have hb : 10 ∉ b :: s.waiting := by
      refine mt List.mem_cons.1 (not_or.2 ⟨fun e => hbreak ?_, h⟩)
      rw [← e]
      rfl
    split
    · exact ⟨List.not_mem_nil, lineFeed_not_mem_line? (s := ⟨s.prompt, b :: s.waiting⟩) hb⟩
    · exact ⟨hb, fun _ hline => absurd hline (by simp)⟩

theorem lineFeed_not_mem_push {s : Splitter} (h : 10 ∉ s.waiting) (bs : List UInt8) :
    10 ∉ (s.push bs).1.waiting ∧ ∀ line ∈ (s.push bs).2, '\n' ∉ line := by
  induction bs generalizing s with
  | nil => exact ⟨h, fun _ hline => absurd hline List.not_mem_nil⟩
  | cons b bs ih =>
    obtain ⟨hwaiting, hline⟩ := lineFeed_not_mem_feed h b
    obtain ⟨hwaiting', hlines⟩ := ih hwaiting
    refine ⟨hwaiting', fun line hmem => ?_⟩
    rcases List.mem_append.1 hmem with hmem | hmem
    · exact hline line (Option.mem_toList.1 hmem)
    · exact hlines line hmem

theorem lineFeed_not_mem_rawLines {p : Text} {chunks : List (List UInt8)} {line : Text}
    (h : line ∈ rawLines p chunks) : '\n' ∉ line := by
  obtain ⟨hwaiting, hlines⟩ :=
    lineFeed_not_mem_push (s := .start p) List.not_mem_nil chunks.flatten
  rw [rawLines, Splitter.outputReports_eq, Splitter.outputReports, List.map_append,
    Splitter.map_line_reports, List.mem_append] at h
  rcases h with h | h
  · exact hlines line h
  · rw [Splitter.outputReports] at h
    obtain ⟨r, hr, rfl⟩ := List.mem_map.1 h
    obtain ⟨last, hlast, rfl⟩ := Option.map_eq_some_iff.1 (Option.mem_toList.1 hr)
    exact lineFeed_not_mem_line? hwaiting last hlast

theorem lineFeed_not_mem_takenLines {p : Text} {chunks : List (List UInt8)} {line : Text}
    (h : line ∈ takenLines p (rawLines p chunks)) : '\n' ∉ line := by
  obtain ⟨raw, hraw, hclean⟩ := List.mem_filterMap.1 (List.mem_of_mem_filter h)
  exact fun hmem => lineFeed_not_mem_rawLines hraw (mem_of_mem_clean hclean hmem)

/-! ## Answers by their lines -/

variable {lines : List Text}

theorem answerOf_of_ne_nil (h : lines ≠ []) : answerOf lines = Text.joinWith ['\n'] lines := by
  rw [answerOf, Response.text, if_neg (mt List.isEmpty_iff.1 h)]

theorem length_joinWith (h : lines ≠ []) :
    (Text.joinWith ['\n'] lines).length + 1 = lines.flatten.length + lines.length := by
  induction lines with
  | nil => exact absurd rfl h
  | cons l lines ih =>
    cases lines with
    | nil => simp [Text.joinWith_singleton]
    | cons l' lines =>
      have hrest := ih (List.cons_ne_nil _ _)
      rw [Text.joinWith_cons_cons, List.flatten_cons]
      simp only [List.length_append, List.length_cons, List.length_nil] at hrest ⊢
      omega

theorem joinWith_replicate_nil (n : Nat) :
    Text.joinWith ['\n'] (List.replicate (n + 1) []) = List.replicate n '\n' := by
  induction n with
  | zero => rfl
  | succ n ih =>
    rw [List.replicate_succ, List.replicate_succ, Text.joinWith_cons_cons, ← List.replicate_succ, ih]
    rfl

theorem mem_joinWith_of_mem {l : Text} {c : Char} (hl : l ∈ lines) (hc : c ∈ l) :
    c ∈ Text.joinWith ['\n'] lines := by
  induction lines with
  | nil => exact absurd hl List.not_mem_nil
  | cons l' lines ih =>
    cases lines with
    | nil =>
      obtain rfl := List.mem_singleton.1 hl
      rwa [Text.joinWith_singleton]
    | cons l'' lines =>
      rw [Text.joinWith_cons_cons, List.mem_append, List.mem_append]
      rcases List.mem_cons.1 hl with rfl | hl
      · exact .inl hc
      · exact .inr (.inr (ih hl))

/-- An answer has something but line feeds just when one of its lines has something or none of them
is empty. -/
theorem exists_ne_lineFeed_answerOf_iff (h : ∀ l ∈ lines, '\n' ∉ l) :
    (∃ c ∈ answerOf lines, c ≠ '\n') ↔ (∃ l ∈ lines, l ≠ []) ∨ ∀ l ∈ lines, l ≠ [] := by
  by_cases hnil : lines = []
  · subst hnil
    exact iff_of_true ⟨'(', by decide, by decide⟩ (.inr fun l hl => absurd hl List.not_mem_nil)
  · rw [answerOf_of_ne_nil hnil]
    constructor
    · rintro ⟨c, hc, hne⟩
      rcases Text.mem_joinWith hc with ⟨l, hl, hmem⟩ | hsep
      · exact .inl ⟨l, hl, List.ne_nil_of_mem hmem⟩
      · exact absurd (List.mem_singleton.1 hsep) hne
    · intro hshown
      obtain ⟨l, hl, hne⟩ : ∃ l ∈ lines, l ≠ [] := by
        rcases hshown with hsome | hall
        · exact hsome
        · obtain ⟨l, hl⟩ := List.exists_mem_of_ne_nil lines hnil
          exact ⟨l, hl, hall l hl⟩
      obtain ⟨c, rest, rfl⟩ := List.exists_cons_of_ne_nil hne
      refine ⟨c, mem_joinWith_of_mem hl List.mem_cons_self, ?_⟩
      rintro rfl
      exact h _ hl List.mem_cons_self

theorem answerOf_replicate_nil (n : Nat) : answerOf (List.replicate n []) =
    if n = 0 then noOutput else List.replicate (n - 1) '\n' := by
  cases n with
  | zero => rfl
  | succ n =>
    have hne : List.replicate (n + 1) ([] : Text) ≠ [] := List.cons_ne_nil _ _
    rw [answerOf_of_ne_nil hne, joinWith_replicate_nil, if_neg (Nat.succ_ne_zero n)]
    rfl

/-- An answer is that of its lines without the empty ones just when none of them is empty: an empty
line adds a line feed to the others, and alone it is not called no output. -/
theorem answerOf_eq_filter_iff (h : ∀ l ∈ lines, '\n' ∉ l) :
    answerOf lines = answerOf (lines.filter (· ≠ [])) ↔ ∀ l ∈ lines, l ≠ [] := by
  constructor
  · intro heq
    by_cases hheard : lines.filter (· ≠ []) = []
    · have hempty : ¬ ∃ l ∈ lines, l ≠ [] := fun ⟨l, hl, hne⟩ =>
        List.filter_eq_nil_iff.1 hheard l hl (by simpa using hne)
      have hshown : ∃ c ∈ answerOf lines, c ≠ '\n' := by
        rw [heq, hheard]
        exact ⟨'(', by decide, by decide⟩
      exact ((exists_ne_lineFeed_answerOf_iff h).1 hshown).resolve_left hempty
    · have hlines : lines ≠ [] := fun hnil => hheard (by rw [hnil]; rfl)
      have hlength := congrArg List.length heq
      rw [answerOf_of_ne_nil hlines, answerOf_of_ne_nil hheard] at hlength
      have hwhole := length_joinWith hlines
      have hpart := length_joinWith hheard
      rw [List.flatten_filter_ne_nil] at hpart
      have hsame : (lines.filter (· ≠ [])).length = lines.length := by omega
      exact fun l hl => by simpa using List.length_filter_eq_length_iff.1 hsame l hl
  · intro hne
    rw [List.filter_eq_self.2 fun l hl => by simpa using hne l hl]

/-! ## Silent lines and the answer -/

variable {p : Text}

theorem count_nil_takenLines (hp : p ≠ []) (lines : List Text) :
    (takenLines p lines).count [] = lines.countP (IsSilent ·) := by
  have hprompt : isPrompt [] p = false := isPrompt_eq_false fun h => hp (List.infix_nil.1 h)
  rw [takenLines, List.count_filter (by rw [hprompt]; rfl), List.count_filterMap]
  exact List.countP_congr fun line _ => by simp [clean_eq_nil_iff]

theorem nil_not_mem_takenLines_iff (hp : p ≠ []) (lines : List Text) :
    (∀ l ∈ takenLines p lines, l ≠ []) ↔ ∀ line ∈ lines, ¬ IsSilent line := by
  have hcount := count_nil_takenLines hp lines
  constructor
  · intro h
    have hnone : (takenLines p lines).count [] = 0 :=
      List.count_eq_zero.2 fun hmem => h [] hmem rfl
    rw [hnone] at hcount
    exact fun line hline => by simpa using List.countP_eq_zero.1 hcount.symm line hline
  · rintro h l hl rfl
    have hnone : lines.countP (IsSilent ·) = 0 :=
      List.countP_eq_zero.2 fun line hline => by simpa using h line hline
    rw [hnone] at hcount
    exact List.count_eq_zero.1 hcount hl

/-- **What silent lines make of an answer.** Each of them is taken up as an empty line. The answer
is that of the lines in which something is visible just when no line is silent, and it has
something but line feeds just when a line is heard or none is silent. Where nothing but silent lines
is taken up, there is no output if there are none of them, and else the line feeds between them. -/
theorem silent_lines (hp : p ≠ []) (chunks : List (List UInt8)) :
    let lines := rawLines p chunks
    let taken := takenLines p lines
    let heard := taken.filter (· ≠ [])
    let silent := lines.countP (IsSilent ·)
    let text := (transcript p chunks).text
    (text = answerOf taken ∧ taken.length = heard.length + silent) ∧
    (text = answerOf heard ↔ ∀ line ∈ lines, ¬ IsSilent line) ∧
    ((∃ c ∈ text, c ≠ '\n') ↔ heard ≠ [] ∨ ∀ line ∈ lines, ¬ IsSilent line) ∧
    (heard = [] → text = if silent = 0 then noOutput else List.replicate (silent - 1) '\n') := by
  intro lines taken heard silent text
  have htext : text = answerOf taken := text_transcript p chunks
  have hfeeds : ∀ l ∈ taken, '\n' ∉ l := fun l hl => lineFeed_not_mem_takenLines hl
  have hsilent : taken.count [] = silent := count_nil_takenLines hp lines
  have hnone := nil_not_mem_takenLines_iff hp lines
  have hheard : heard ≠ [] ↔ ∃ l ∈ taken, l ≠ [] := by
    simp [heard, List.filter_eq_nil_iff]
  have hlength : taken.length = heard.length + silent := by
    rw [List.length_eq_countP_add_countP (· ≠ ([] : Text)) (l := taken),
      List.countP_eq_length_filter, ← hsilent, List.count]
    congr 1
    exact List.countP_congr fun l _ => by simp
  refine ⟨⟨htext, hlength⟩, ?_, ?_, ?_⟩
  · rw [htext, answerOf_eq_filter_iff hfeeds]
    exact hnone
  · rw [htext, exists_ne_lineFeed_answerOf_iff hfeeds, ← hnone, hheard]
  · intro hquiet
    have hempty : taken = List.replicate silent [] := by
      rw [hquiet, List.length_nil, Nat.zero_add] at hlength
      refine List.eq_replicate_iff.2 ⟨hlength, fun l hl => ?_⟩
      by_contra hne
      exact hheard.2 ⟨l, hl, hne⟩ hquiet
    rw [htext, hempty]
    exact answerOf_replicate_nil silent

/-- A prompt with its colour reset behind it, and the next prompt. -/
def resetBehind : List (List UInt8) := [Utf8.encode ">>>\x1b[0m\n>>>".toList]

theorem rawLines_resetBehind :
    rawLines angles resetBehind = [angles, "\x1b[0m".toList, angles] := by
  have hbytes : resetBehind.flatten = Utf8.encode ">>>\x1b[0m\n>>>".toList := by
    simp [resetBehind]
  rw [rawLines, Reading.outputReports_encode hbytes]
  decide

theorem silent_lines_resetBehind : angles ≠ [] ∧ (transcript angles resetBehind).text = [] := by
  have hp : angles ≠ [] := by decide
  have hcount : [angles, "\x1b[0m".toList, angles].countP (IsSilent ·) = 1 := by decide +kernel
  obtain ⟨-, -, -, hquiet⟩ := silent_lines hp resetBehind
  rw [rawLines_resetBehind, hcount] at hquiet
  exact ⟨hp, hquiet (by decide +kernel)⟩

/-- Where nothing is visible the answer need not say so. -/
theorem not_forall_exists_ne_lineFeed : ¬ ∀ chunks : List (List UInt8),
    ∃ c ∈ (transcript angles chunks).text, c ≠ '\n' := by
  intro h
  obtain ⟨c, hc, -⟩ := h resetBehind
  have htaken : takenLines angles [angles, "\x1b[0m".toList, angles] = [[]] := by decide +kernel
  rw [text_transcript, rawLines_resetBehind, htaken] at hc
  exact absurd hc List.not_mem_nil

end QueryEditor
