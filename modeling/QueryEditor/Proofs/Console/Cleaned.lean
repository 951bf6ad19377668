import QueryEditor.Console.Noise
import QueryEditor.Proofs.Text.Trimmed

/-!
# Lines that cleaning leaves alone

A line without control sequences whose characters are all visible is left as it is, or dropped as a
whole. Blanks before a line that is kept make no difference.

* `Noise.IsEcho`: the echoes, `Noise.clean_kept_iff`: the lines that are kept;
* `Noise.IsPlain`: printable ASCII but the question mark;
* `Noise.clean_eq_some_iff`: what becomes of a plain line;
* **`Noise.clean_blanks_append`**: a line that is kept is kept with blanks before it.
-/

namespace QueryEditor.Noise

open Unicode

theorem stripSequences_of_not_mem {t : Text} (h : '\x1b' ∉ t) : stripSequences t = t := by
  induction t using stripSequences.induct with
  | case1 rest rest' hafter ih => exact absurd List.mem_cons_self h
  | case2 rest hafter ih => exact absurd List.mem_cons_self h
  | case3 => rw [stripSequences]
  | case4 c rest hother ih =>
    rw [stripSequences, ih (mt (List.mem_cons_of_mem c) h)]
    exact hother

/-- The line is an echo of input: typed at a prompt, typed on a further line, or a dot-command. -/
def IsEcho (p t : Text) : Prop :=
  isPromptEcho p t = true ∨ isContinuationEcho t.trim = true ∨ isCommandEcho t.trim = true

instance (p t : Text) : Decidable (IsEcho p t) := inferInstanceAs (Decidable (_ ∨ _ ∨ _))

theorem clean_eq (p line : Text) : clean p line =
    if IsEcho p (stripSequences line) then none
    else if Text.trim ((stripSequences line).filter isVisible) = ['Q'] then none
    else some ((stripSequences line).filter isVisible) := by
  have hecho : (isPromptEcho p (stripSequences line) ||
      isContinuationEcho (stripSequences line).trim || isCommandEcho (stripSequences line).trim) =
        true ↔ IsEcho p (stripSequences line) := by
    simp only [IsEcho, Bool.or_eq_true, or_assoc]
  exact if_congr hecho rfl rfl

theorem clean_kept_iff {p line cleaned : Text} : clean p line = some cleaned ↔
    ¬ IsEcho p (stripSequences line) ∧ cleaned = (stripSequences line).filter isVisible ∧
      cleaned.trim ≠ ['Q'] := by
  rw [clean_eq]
  constructor
  · intro h
    split at h
    · cases h
    · rename_i hecho
      split at h
      · cases h
      · rename_i hquit
        obtain rfl := Option.some.inj h
        exact ⟨hecho, rfl, hquit⟩
  · rintro ⟨hecho, rfl, hquit⟩
    rw [if_neg hecho, if_neg hquit]

def IsPlain (t : Text) : Prop := ∀ c ∈ t, ' ' ≤ c ∧ c ≤ '~' ∧ c ≠ '?'

instance (t : Text) : Decidable (IsPlain t) := List.decidableBAll _ t

namespace IsPlain

variable {s t : Text}

theorem append (hs : IsPlain s) (ht : IsPlain t) : IsPlain (s ++ t) :=
  List.forall_mem_append.2 ⟨hs, ht⟩

theorem replicate_blank (k : Nat) : IsPlain (List.replicate k ' ') := by
  intro c hc
  rw [List.eq_of_mem_replicate hc]
  decide

theorem not_mem (h : IsPlain t) {c : Char} (hc : c < ' ') : c ∉ t := fun hmem =>
  absurd (h c hmem).1 (Char.not_le.2 hc)

theorem filter_isVisible (h : IsPlain t) : t.filter isVisible = t := by
  refine List.filter_eq_self.2 fun c hc => ?_
  obtain ⟨hlow, hhigh, hmark⟩ := h c hc
  simp [isVisible, hlow, hhigh, hmark]

end IsPlain

theorem clean_eq_some_iff (p : Text) {t : Text} (h : IsPlain t) (cleaned : Text) :
    clean p t = some cleaned ↔ cleaned = t ∧ isPromptEcho p t = false ∧
      isContinuationEcho t.trim = false ∧ isCommandEcho t.trim = false ∧ t.trim ≠ ['Q'] := by
  have hbare : stripSequences t = t := stripSequences_of_not_mem (h.not_mem (by decide))
  rw [clean_kept_iff, hbare, h.filter_isVisible]
  simp only [IsEcho, not_or, Bool.not_eq_true]
  constructor
  · rintro ⟨⟨hprompt, hcontinuation, hcommand⟩, rfl, hquit⟩
    exact ⟨rfl, hprompt, hcontinuation, hcommand, hquit⟩
  · rintro ⟨rfl, hprompt, hcontinuation, hcommand, hquit⟩
    exact ⟨⟨hprompt, hcontinuation, hcommand⟩, rfl, hquit⟩

theorem isPromptEcho_blank_cons (p t : Text) : isPromptEcho p (' ' :: t) = false := rfl

/-- **Blanks before a line that is kept** are kept with it. -/
theorem clean_blanks_append {p t : Text} (h : IsPlain t) (hclean : clean p t = some t) (k : Nat) :
    clean p (List.replicate k ' ' ++ t) = some (List.replicate k ' ' ++ t) := by
  cases k with
  | zero => exact hclean
  | succ k =>
    obtain ⟨-, -, hcontinuation, hcommand, hquit⟩ := (clean_eq_some_iff p h t).1 hclean
    have htrim := Text.trim_append_of_isBlank (Text.isBlank_replicate (k + 1)) t
    rw [clean_eq_some_iff p ((IsPlain.replicate_blank (k + 1)).append h), htrim]
    exact ⟨rfl, isPromptEcho_blank_cons p _, hcontinuation, hcommand, hquit⟩

end QueryEditor.Noise
