import QueryEditor.Proofs.Console.Cleaned
import QueryEditor.Proofs.Console.Lines
import QueryEditor.Proofs.Text.Runs

/-!
# Echoes of input at a prompt

A terminal repeats what is typed at a numbered prompt as `$12 >>> input`. The splitter ends a line
behind the prompt, so the input comes as lines of its own, which have nothing in front of them that
tells that they repeat input. The line up to the prompt is dropped, and of the rest just what is
noise by itself.

* `echo`: what the terminal writes, `typedLines`: the lines of the input that it repeats;
* `clean_numbered`: the line up to the prompt is dropped;
* **`lines_echo`**: what is left of an echo.
-/

namespace QueryEditor

open Noise Reading Unicode

/-- The prompt of the interpreter. -/
def angles : Text := ">>>".toList

def IsNumber (digits : Text) : Prop := digits ≠ [] ∧ ∀ c ∈ digits, c.isDigit = true

/-- The number of a prompt, up to the prompt. -/
def numbered (digits : Text) : Text := '$' :: digits ++ [' ']

/-- What a terminal writes when the input `t` is typed at a numbered prompt. -/
def echo (digits t : Text) : Text := numbered digits ++ angles ++ (' ' :: t ++ ['\n'])

/-- The lines that the splitter makes of the input that is repeated. -/
def typedLines (t : Text) : List Text :=
  (readAll angles [] (' ' :: t ++ ['\n'])).2.map Report.line

variable {digits t : Text}

theorem isNumber_repr (n : Nat) : IsNumber n.repr.toList := by
  rw [Nat.toList_repr]
  exact ⟨Nat.toDigits_ne_nil, fun c hc =>
    Nat.isDigit_of_mem_toDigits (by decide) (by decide) hc⟩

theorem isDigit_of_ascii {c : Char} (h : c.isDigit = true) : isDigit c = true :=
  (Ranges.has_iff digitRanges c).2 ⟨(0x30, 0x39), List.mem_cons_self, toNat_of_isDigit h⟩

/-! ## The line up to the prompt -/

theorem not_mem_numbered {c : Char} (h : IsNumber digits) (hc : c.isDigit = false)
    (hdollar : c ≠ '$') (hblank : c ≠ ' ') : c ∉ numbered digits := by
  intro hmem
  rcases List.mem_append.1 hmem with hmem | hmem
  · rcases List.mem_cons.1 hmem with heq | hmem
    · exact hdollar heq
    · exact absurd (h.2 c hmem) (by rw [hc]; decide)
  · exact hblank (List.mem_singleton.1 hmem)

theorem isPromptEcho_numbered (h : IsNumber digits) :
    isPromptEcho angles (numbered digits ++ angles) = true := by
  obtain ⟨hne, hdigits⟩ := h
  have hhead : ((digits ++ (' ' :: angles)).head?.map isDigit).getD false = true := by
    obtain ⟨c, rest, rfl⟩ := List.exists_cons_of_ne_nil hne
    exact isDigit_of_ascii (hdigits c List.mem_cons_self)
  have hafter : afterDigits? (digits ++ (' ' :: angles)) = some (' ' :: angles) := by
    rw [afterDigits?, if_pos hhead,
      List.dropWhile_append_of_pos fun c hc => isDigit_of_ascii (hdigits c hc)]
    rfl
  have hshape : numbered digits ++ angles = '$' :: (digits ++ (' ' :: angles)) := by
    simp [numbered]
  rw [hshape, isPromptEcho, hafter]
  decide

theorem clean_numbered (h : IsNumber digits) :
    clean angles (numbered digits ++ angles) = none := by
  have hescape : '\x1b' ∉ numbered digits ++ angles := by
    refine fun hmem => (List.mem_append.1 hmem).elim ?_ (by decide)
    exact not_mem_numbered h (by decide) (by decide) (by decide)
  rw [clean, stripSequences_of_not_mem hescape]
  simp [isPromptEcho_numbered h]

/-! ## Whole echoes -/

theorem readAll_numbered (h : IsNumber digits) :
    readAll angles [] (numbered digits ++ angles) =
      ([], [⟨.prompt, numbered digits ++ angles⟩]) := by
  have hangle : '>' ∉ numbered digits :=
    not_mem_numbered h (by decide) (by decide) (by decide)
  have hbreak : Unbroken (numbered digits) := by
    rintro c hc (rfl | rfl)
    · exact not_mem_numbered h (by decide) (by decide) (by decide) hc
    · exact not_mem_numbered h (by decide) (by decide) (by decide) hc
  have hwaits : ¬ angles <:+: [] ++ numbered digits := by
    have := not_infix_append_of_head (p := angles) (t := []) (by decide) hangle (by decide)
    rwa [List.append_nil] at this
  rw [readAll_append, readAll_unbroken hbreak hwaits, List.nil_append,
    readAll_prompt (by decide) (by decide) hangle]
  rfl

theorem lines_push_echo (h : IsNumber digits) {chunks : List (List UInt8)}
    (hchunks : chunks.flatten = Utf8.encode (echo digits t)) :
    ((Splitter.start angles).pushAll chunks).2 = (numbered digits ++ angles) :: typedLines t := by
  have hread := (push_encode angles [] (echo digits t)).2
  rw [Utf8.encode_nil] at hread
  rw [Splitter.pushAll_eq, hchunks, ← Splitter.map_line_reports, start_eq_holding, hread, echo,
    readAll_append, readAll_numbered h]
  rfl

/-- Input that the prompt is not in comes as one line, behind the blank that follows the prompt. -/
theorem typedLines_of_not_mem (ht : Unbroken t) (h : ¬ angles <:+: t) :
    typedLines t = [' ' :: t] := by
  have hbreak : Unbroken (' ' :: t) := List.forall_mem_cons.2 ⟨by decide, ht⟩
  have hwaits : ¬ angles <:+: [] ++ ' ' :: t := by
    rw [List.nil_append, List.infix_cons_iff]
    rintro (hfront | hlater)
    · rcases List.prefix_cons_iff.1 hfront with hnil | ⟨rest, hrest, -⟩
      · exact absurd hnil (by decide)
      · exact absurd (List.cons.inj hrest).1 (by decide)
    · exact h hlater
  rw [typedLines, readAll_append, readAll_unbroken hbreak hwaits, readAll_lineFeed]
  rfl

/-- **What is left of an echo**, in whatever chunks it comes: the lines of the input that are no
noise by themselves. Nothing is left just when all of them are noise; input that the prompt is not
in is one such line. -/
theorem lines_echo (h : IsNumber digits) (ht : Unbroken t) {chunks : List (List UInt8)}
    (hchunks : chunks.flatten = Utf8.encode (echo digits t)) :
    ((Splitter.start angles).pushAll chunks).2.filterMap (clean angles) =
        (typedLines t).filterMap (clean angles) ∧
      (((Splitter.start angles).pushAll chunks).2.filterMap (clean angles) = [] ↔
        ∀ line ∈ typedLines t, clean angles line = none) ∧
      (¬ angles <:+: t → typedLines t = [' ' :: t]) := by
  have hlines : ((Splitter.start angles).pushAll chunks).2.filterMap (clean angles) =
      (typedLines t).filterMap (clean angles) := by
    rw [lines_push_echo h hchunks, List.filterMap_cons_none (clean_numbered h)]
  refine ⟨hlines, ?_, typedLines_of_not_mem ht⟩
  rw [hlines, List.filterMap_eq_nil_iff]

/-- The input `Q` is noise by itself. -/
theorem lines_echo_quit : IsNumber (Nat.repr 12).toList ∧ Unbroken ['Q'] ∧
    ((Splitter.start angles).pushAll
      [Utf8.encode (echo (Nat.repr 12).toList ['Q'])]).2.filterMap (clean angles) = [] := by
  have hnumber := isNumber_repr 12
  have hbreak : Unbroken ['Q'] := by decide
  have hchunks : [Utf8.encode (echo (Nat.repr 12).toList ['Q'])].flatten =
      Utf8.encode (echo (Nat.repr 12).toList ['Q']) := by simp
  have hnoise : clean angles [' ', 'Q'] = none := by
    rw [clean, stripSequences_of_not_mem (by decide)]
    decide
  obtain ⟨-, hnone, hone⟩ := lines_echo hnumber hbreak hchunks
  refine ⟨hnumber, hbreak, hnone.2 ?_⟩
  rw [hone (by decide)]
  exact List.forall_mem_singleton.2 hnoise

/-- Most input is not, and is left. -/
theorem not_forall_lines_echo_eq_nil : ¬ ∀ (digits t : Text) (chunks : List (List UInt8)),
    IsNumber digits → Unbroken t → chunks.flatten = Utf8.encode (echo digits t) →
      ((Splitter.start angles).pushAll chunks).2.filterMap (clean angles) = [] := by
  intro h
  have hchunks : [Utf8.encode (echo ['1'] "R;".toList)].flatten =
      Utf8.encode (echo ['1'] "R;".toList) := by simp
  have hnumber : IsNumber ['1'] := isNumber_repr 1
  have hkept : clean angles (' ' :: "R;".toList) = some " R;".toList := by
    rw [clean_eq_some_iff angles (by decide)]
    decide
  have hnone := h ['1'] "R;".toList _ hnumber (by decide) hchunks
  rw [lines_push_echo hnumber hchunks, List.filterMap_cons_none (clean_numbered hnumber),
    typedLines_of_not_mem (by decide) (by decide), List.filterMap_cons_some hkept] at hnone
  exact List.cons_ne_nil _ _ hnone

end QueryEditor
