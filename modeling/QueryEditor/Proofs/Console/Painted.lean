import QueryEditor.Proofs.Console.Cleaned

/-!
# Painted text

A terminal paints what is printed with control sequences that set colours, anywhere between its
characters. They are taken out again, so a painted line is cleaned like the plain one, and nothing
in them breaks a line or looks like a prompt.

* `IsPaint`: the parameters of a colour, `Painted`: a text with colours in it;
* `Painted.stripSequences_eq`: the colours are taken out;
* **`Painted.clean_eq`**: a painted line is cleaned like the plain one.
-/

namespace QueryEditor

open Noise

def IsPaint (ps : Text) : Prop := ∀ c ∈ ps, c.isDigit = true ∨ c = ';'

instance (ps : Text) : Decidable (IsPaint ps) := List.decidableBAll _ ps

/-- The second text is the first one with colours between its characters. -/
inductive Painted : Text → Text → Prop where
  | nil : Painted [] []
  | char {t raw : Text} (c : Char) : Painted t raw → Painted (c :: t) (c :: raw)
  | paint {t raw ps : Text} : IsPaint ps → Painted t raw →
      Painted t ('\x1b' :: '[' :: (ps ++ 'm' :: raw))

namespace Painted

variable {t raw : Text}

theorem refl (t : Text) : Painted t t := by
  induction t with
  | nil => exact .nil
  | cons c t ih => exact .char c ih

theorem afterSequence?_paint {ps : Text} (h : IsPaint ps) (raw : Text) :
    afterSequence? (ps ++ 'm' :: raw) = some raw := by
  have hparameters : ∀ c ∈ ps, isParameter c = true := by
    intro c hc
    rcases h c hc with hdigit | rfl
    · simp [isParameter, hdigit]
    · rfl
  rw [afterSequence?, List.dropWhile_append_of_pos hparameters]
  rfl

theorem stripSequences_eq (h : Painted t raw) (ht : '\x1b' ∉ t) : stripSequences raw = t := by
  induction h with
  | nil => rw [stripSequences]
  | char c _ ih =>
    obtain ⟨hc, hrest⟩ := not_or.1 (mt List.mem_cons.2 ht)
    rw [stripSequences, ih hrest]
    exact fun _ hescape _ => hc hescape.symm
  | paint hps _ ih =>
    rw [stripSequences, afterSequence?_paint hps]
    exact ih ht

/-- **A painted line is cleaned like the plain one.** -/
theorem clean_eq (h : Painted t raw) (ht : '\x1b' ∉ t) (p : Text) : clean p raw = clean p t := by
  rw [clean, h.stripSequences_eq ht, clean, stripSequences_of_not_mem ht]

theorem not_mem (h : Painted t raw) {c : Char} (ht : c ∉ t) (hdigit : c.isDigit = false)
    (hc : c ∉ ['\x1b', '[', 'm', ';']) : c ∉ raw := by
  simp only [List.mem_cons, List.not_mem_nil, or_false, not_or] at hc
  obtain ⟨hescape, hbracket, hletter, hsemicolon⟩ := hc
  induction h with
  | nil => exact ht
  | char c' _ ih =>
    obtain ⟨hfirst, hrest⟩ := not_or.1 (mt List.mem_cons.2 ht)
    exact fun hmem => (List.mem_cons.1 hmem).elim hfirst (ih hrest)
  | paint hps _ ih =>
    have hparameters : c ∉ _ := fun hmem => (hps c hmem).elim (by rw [hdigit]; decide) hsemicolon
    simp only [List.mem_cons, List.mem_append, not_or]
    exact ⟨hescape, hbracket, hparameters, hletter, ih ht⟩

end Painted

end QueryEditor
