import QueryEditor.Console.Response
import QueryEditor.Proofs.Console.Cleaned
import QueryEditor.Proofs.Console.Prompts

/-!
# Screens

A screen is a number of lines, and then the prompt and blanks behind it. The blanks wait, and come
in front of what is shown next: the prompt, which is read as a prompt all the same.

* `IsClear`: a prompt that is read as it is, `IsResult`: a line that is;
* `Opens`: a text that a prompt may come behind;
* `Screen`, `Screen.text`: what is shown, `Screen.answer`: its lines as an answer;
* `readAll_screen`, **`readAll_reply`**: the lines that the splitter makes of a screen;
* `IsClear.clean_opened`: what is left of them when some are noise;
* `collect_between`, **`collect_reply`**: the answer that is collected.
-/

namespace QueryEditor

open Noise Reading

/-- The prompt is printable ASCII without a question mark and with no white space at its ends, and
cleaning leaves it as it is. -/
structure IsClear (p : Text) : Prop where
  ne_nil : p ≠ []
  plain : IsPlain p
  trimmed : p.trim = p
  kept : clean p p = some p

/-- A line of an answer: it is not empty and has no break, the prompt is not in it, and cleaning
leaves it as it is. -/
structure IsResult (p line : Text) : Prop where
  ne_nil : line ≠ []
  unbroken : Unbroken line
  quiet : ¬ p <:+: line
  kept : clean p line = some line

/-- The text that waits lets a prompt behind it be read and taken for one. -/
structure Opens (p waiting : Text) : Prop where
  read : readAll p waiting p = ([], [⟨.prompt, waiting ++ p⟩])
  seen : ∃ seen, clean p (waiting ++ p) = some seen ∧ isPrompt seen p = true

/-- Lines, and the number of blanks behind the prompt that follows them. -/
structure Screen where
  lines : List Text
  blanks : Nat

namespace Screen

def text (p : Text) (s : Screen) : Text :=
  s.lines.flatMap (· ++ ['\n']) ++ p ++ List.replicate s.blanks ' '

def answer (s : Screen) : Text :=
  if s.lines = [] then noOutput else Text.joinWith ['\n'] s.lines

end Screen

theorem Unbroken.of_isPlain {t : Text} (h : IsPlain t) : Unbroken t := by
  rintro c hc (rfl | rfl)
  · exact h.not_mem (by decide) hc
  · exact h.not_mem (by decide) hc

namespace IsClear

variable {p : Text} (h : IsClear p)

include h

theorem unbroken : Unbroken p := .of_isPlain h.plain

theorem head_not_mem (k : Nat) : p.head h.ne_nil ∉ List.replicate k ' ' := by
  intro hmem
  have hblank : p.head h.ne_nil = ' ' := List.eq_of_mem_replicate hmem
  obtain ⟨c, rest, rfl⟩ := List.exists_cons_of_ne_nil h.ne_nil
  obtain rfl : c = ' ' := hblank
  have hstart := ((Text.trim_eq_self_iff _).1 h.trimmed).1
  have hlength := congrArg List.length hstart
  have hshort := (Text.trimStart_suffix rest).length_le
  change (Text.trimStart rest).length = rest.length + 1 at hlength
  omega

theorem isPrompt_blanks_append (k : Nat) : isPrompt (List.replicate k ' ' ++ p) p = true := by
  obtain ⟨hstart, hend⟩ := (Text.trim_eq_self_iff p).1 h.trimmed
  exact (isPrompt_append_iff h.ne_nil _).2 ⟨hend, fun _ => hstart⟩

theorem isPrompt_self : isPrompt p p = true := h.isPrompt_blanks_append 0

/-! ## What the splitter makes of a screen -/

theorem readAll_prompt (k : Nat) : readAll p (List.replicate k ' ') p =
    ([], [⟨.prompt, List.replicate k ' ' ++ p⟩]) :=
  Reading.readAll_prompt h.ne_nil h.unbroken (h.head_not_mem k)

theorem readAll_blanks (k : Nat) :
    readAll p [] (List.replicate k ' ') = (List.replicate k ' ', []) := by
  have hquiet := not_infix_append_of_head (t := []) h.ne_nil (h.head_not_mem k)
    (List.length_pos_of_ne_nil h.ne_nil)
  rw [List.append_nil] at hquiet
  exact readAll_unbroken (Unbroken.replicate_blank k) hquiet

theorem readAll_screen {s : Screen} (hlines : ∀ l ∈ s.lines, Unbroken l ∧ ¬ p <:+: l) :
    readAll p [] (s.text p) = (List.replicate s.blanks ' ',
      (s.lines.filter (· ≠ [])).map (Report.mk .lineBreak) ++ [⟨.prompt, p⟩]) := by
  have hprompt : readAll p [] p = ([], [⟨.prompt, p⟩]) := h.readAll_prompt 0
  rw [Screen.text, readAll_append, readAll_append, readAll_lines hlines, hprompt,
    h.readAll_blanks, List.append_nil]

/-- **The lines of a reply**: what waits and the prompt, and then those of the screen. -/
theorem readAll_reply {s : Screen} (hlines : ∀ l ∈ s.lines, IsResult p l) (k : Nat) :
    readAll p (List.replicate k ' ') (p ++ '\n' :: s.text p) = (List.replicate s.blanks ' ',
      ⟨.prompt, List.replicate k ' ' ++ p⟩ :: (s.lines.map (Report.mk .lineBreak) ++
        [⟨.prompt, p⟩])) := by
  have hfilter : s.lines.filter (· ≠ []) = s.lines :=
    List.filter_eq_self.2 fun l hl => by simpa using (hlines l hl).ne_nil
  have hscreen := h.readAll_screen fun l hl => ⟨(hlines l hl).unbroken, (hlines l hl).quiet⟩
  rw [readAll_append, h.readAll_prompt k, readAll_lineFeed, if_pos rfl, hscreen, hfilter]
  rfl

/-! ## What is collected -/

theorem clean_blanks_append (k : Nat) :
    clean p (List.replicate k ' ' ++ p) = some (List.replicate k ' ' ++ p) :=
  Noise.clean_blanks_append h.plain h.kept k

theorem clean_greeting {s : Screen} (hlines : ∀ l ∈ s.lines, IsPlain l ∧ ¬ p <:+: l) :
    ∃ kept : List Text, (∀ l ∈ kept, isPrompt l p = false) ∧
      ((readAll p [] (s.text p)).2.map Report.line).filterMap (clean p) = kept ++ [p] := by
  refine ⟨(s.lines.filter (· ≠ [])).filterMap (clean p), fun cleaned hcleaned => ?_, ?_⟩
  · obtain ⟨l, hl, hclean⟩ := List.mem_filterMap.1 hcleaned
    obtain ⟨hplain, hquiet⟩ := hlines l (List.mem_of_mem_filter hl)
    rw [((clean_eq_some_iff p hplain cleaned).1 hclean).1]
    exact isPrompt_eq_false hquiet
  · rw [h.readAll_screen fun l hl => ⟨.of_isPlain (hlines l hl).1, (hlines l hl).2⟩]
    simp [Function.comp_def, h.kept]

theorem clean_reply {s : Screen} (hlines : ∀ l ∈ s.lines, IsResult p l) (k : Nat) :
    ((readAll p (List.replicate k ' ') (p ++ '\n' :: s.text p)).2.map Report.line).filterMap
      (clean p) = (List.replicate k ' ' ++ p) :: (s.lines ++ [p]) := by
  have hkept : s.lines.filterMap (clean p) = s.lines := by
    rw [List.filterMap_congr fun l hl => (hlines l hl).kept]
    exact List.filterMap_some
  rw [h.readAll_reply hlines k]
  simp [Function.comp_def, h.clean_blanks_append k, hkept, h.kept]

theorem opens_blanks (k : Nat) : Opens p (List.replicate k ' ') :=
  ⟨h.readAll_prompt k, _, h.clean_blanks_append k, h.isPrompt_blanks_append k⟩

/-- **What is left of a screen behind a prompt**: that prompt, those lines that are no noise, and
the prompt of the screen. -/
theorem clean_opened {waiting : Text} (hopens : Opens p waiting) {s : Screen}
    (hlines : ∀ l ∈ s.lines, Unbroken l ∧ ¬ p <:+: l) : ∃ seen, isPrompt seen p = true ∧
      ((readAll p waiting (p ++ s.text p)).2.map Report.line).filterMap (clean p) =
        seen :: ((s.lines.filter (· ≠ [])).filterMap (clean p) ++ [p]) := by
  obtain ⟨seen, hseen, hprompt⟩ := hopens.seen
  refine ⟨seen, hprompt, ?_⟩
  rw [readAll_append, hopens.read, h.readAll_screen hlines]
  simp [Function.comp_def, hseen, h.kept]

end IsClear

theorem collect_append {p : Text} {lines : List Text} (h : ∀ l ∈ lines, isPrompt l p = false)
    (r : Response) (rest : List Text) : r.collect p (lines ++ rest) =
      ({ r with lines := r.lines ++ lines } : Response).collect p rest := by
  induction lines generalizing r with
  | nil => simp
  | cons l lines ih =>
    rw [List.cons_append, Response.collect, Response.accept, h l List.mem_cons_self,
      if_neg Bool.false_ne_true]
    simp only
    rw [ih fun x hx => h x (List.mem_cons_of_mem l hx), List.append_assoc]
    rfl

theorem collect_between {p seen : Text} {lines : List Text} (hp : isPrompt p p = true)
    (hseen : isPrompt seen p = true) (hlines : ∀ l ∈ lines, isPrompt l p = false)
    (rest : List Text) :
    (Response.start.collect p (seen :: (lines ++ [p]) ++ rest)).1.text =
      (⟨lines, 0⟩ : Screen).answer := by
  have hstart : Response.start.accept p seen = (⟨true, []⟩, .pending) := by
    rw [Response.accept, hseen]
    rfl
  have hend : (⟨true, lines⟩ : Response).accept p p = (⟨true, lines⟩, .done) := by
    rw [Response.accept, hp]
    rfl
  rw [List.cons_append, Response.collect, hstart, List.append_assoc]
  simp only
  rw [collect_append hlines, List.nil_append, List.singleton_append, Response.collect, hend]
  simp [Response.text, Screen.answer]

/-- **The answer that is collected** from the lines of a reply is that of the screen, whatever
comes behind them. -/
theorem collect_reply {p : Text} (h : IsClear p) {s : Screen}
    (hlines : ∀ l ∈ s.lines, IsResult p l) (k : Nat) (rest : List Text) :
    (Response.start.collect p
      ((List.replicate k ' ' ++ p) :: (s.lines ++ [p]) ++ rest)).1.text = s.answer :=
  collect_between h.isPrompt_self (h.isPrompt_blanks_append k)
    (fun l hl => isPrompt_eq_false (hlines l hl).quiet) rest

end QueryEditor
