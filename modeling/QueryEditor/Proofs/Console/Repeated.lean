import QueryEditor.Proofs.Console.Deleted
import QueryEditor.Proofs.Console.Echoes

/-!
# Cleaning a line again

A cleaned line is cleaned again to itself, or it is an echo and dropped. Echoes are looked for when
control sequences are out of the line, but before the characters that are not visible are, so an
echo with such a character in front of its end gets through, and is left as an echo. With nothing
but control sequences in it no echo gets through, and neither does one of which all is visible up to
the prompt or the dots that tell it. A quit is looked for last and never gets through.

* `isMarked_append`: what is told by the front of a line is told by the line;
* **`clean_again`**: what becomes of a cleaned line;
* **`not_forall_clean_again`**: a cleaned line need not be left.
-/

namespace QueryEditor

open Unicode

namespace Noise

/-! ## Echoes by their front -/

variable {p a b t after : Text} {q : Text → Bool}

theorem afterDigits?_append (h : afterDigits? a = some after) (hafter : after ≠ []) (b : Text) :
    afterDigits? (a ++ b) = some (after ++ b) := by
  rw [afterDigits?] at h
  split at h
  · rename_i hdigit
    obtain rfl := Option.some.inj h
    cases a with
    | nil => exact absurd rfl hafter
    | cons c a =>
      have hdigit' : ((c :: a ++ b).head?.map isDigit).getD false = true := hdigit
      rw [afterDigits?, if_pos hdigit', List.dropWhile_append, if_neg (by simpa using hafter)]
  · cases h

theorem afterBlanks_append (hq : ∀ t, q t = true → q (t ++ b) = true)
    (h : afterBlanks q t = true) : afterBlanks q (t ++ b) = true := by
  induction t with
  | nil => cases h
  | cons c t ih =>
    rw [afterBlanks, Bool.and_eq_true, Bool.or_eq_true] at h
    rw [List.cons_append, afterBlanks, Bool.and_eq_true, Bool.or_eq_true]
    exact ⟨h.1, h.2.imp (hq t) ih⟩

theorem startsInput_append (hb : '\n' ∉ b) (h : startsInput p t = true) :
    startsInput p (t ++ b) = true := by
  simp only [startsInput, Bool.and_eq_true, List.isPrefixOf_iff_prefix, Bool.not_eq_true',
    List.contains_eq_mem, decide_eq_false_iff_not] at h ⊢
  obtain ⟨hfront, hfeed⟩ := h
  refine ⟨hfront.trans (List.prefix_append t b), ?_⟩
  rw [List.drop_append_of_le_length hfront.length_le, List.mem_append, not_or]
  exact ⟨hfeed, hb⟩

theorem isPromptEcho_append (hb : '\n' ∉ b) (h : isPromptEcho p a = true) :
    isPromptEcho p (a ++ b) = true := by
  unfold isPromptEcho at h
  split at h
  · rename_i rest
    cases hafter : afterDigits? rest with
    | none =>
      rw [hafter] at h
      cases h
    | some after =>
      rw [hafter] at h
      have hblanks : afterBlanks (startsInput p) after = true := h
      have hne : after ≠ [] := by
        rintro rfl
        cases hblanks
      rw [List.cons_append, isPromptEcho, afterDigits?_append hafter hne]
      exact afterBlanks_append (fun _ => startsInput_append hb) hblanks
  · cases h

theorem isContinuationEcho_append (hb : '\n' ∉ b) (h : isContinuationEcho a = true) :
    isContinuationEcho (a ++ b) = true := by
  unfold isContinuationEcho at h
  split at h
  · rename_i rest hdots
    obtain ⟨after, hafter, hrest⟩ := Option.map_eq_some_iff.1 hdots
    have hblank : ¬ after.isBlank = true := fun hblank => by
      have hnil : after.trimStart = [] :=
        List.dropWhile_eq_nil_iff.2 ((Text.isBlank_iff_forall after).1 hblank)
      rw [hnil] at hrest
      cases hrest
    have hne : after ≠ [] := by
      rintro rfl
      exact hblank rfl
    have hfeed : '\n' ∉ Text.trimStart (rest ++ b) := by
      have hrestFeed : '\n' ∉ Text.trimStart rest := by simpa using h
      by_cases hwhite : Text.isBlank rest = true
      · rw [Text.trimStart_append_of_isBlank hwhite]
        exact fun hmem => hb ((Text.trimStart_suffix b).subset hmem)
      · rw [Text.trimStart_append_of_not_isBlank hwhite, List.mem_append, not_or]
        exact ⟨hrestFeed, hb⟩
    rw [isContinuationEcho, afterDigits?_append hafter hne, Option.map_some,
      Text.trimStart_append_of_not_isBlank hblank, hrest]
    simpa using hfeed
  · cases h

/-- The text is an echo of input, or of a continued input, whatever is behind it. -/
def IsMarked (p t : Text) : Prop := isPromptEcho p t = true ∨ isContinuationEcho t.trim = true

theorem isMarked_append (hline : '\n' ∉ a ++ b) (h : IsMarked p a) : IsMarked p (a ++ b) := by
  have hb : '\n' ∉ b := fun hmem => hline (List.mem_append_right a hmem)
  refine h.imp (isPromptEcho_append hb) fun hcontinuation => ?_
  have hblank : ¬ a.isBlank = true := fun hblank => by
    rw [(Text.isBlank_iff a).1 hblank] at hcontinuation
    cases hcontinuation
  obtain ⟨rest, hrest⟩ := Text.trim_isPrefix_append hblank b
  have hfeed : '\n' ∉ rest := fun hmem => by
    have hwhole : '\n' ∈ (a ++ b).trim := hrest ▸ List.mem_append_right _ hmem
    exact hline ((Text.trim_isInfix _).subset hwhole)
  rw [← hrest]
  exact isContinuationEcho_append hfeed hcontinuation

/-! ## Cleaning twice -/

variable {raw cleaned : Text}

theorem clean_of_clean (h : clean p raw = some cleaned) :
    clean p cleaned = if IsEcho p cleaned then none else some cleaned := by
  have hvisible := isVisible_of_mem_clean h
  obtain ⟨-, -, hquit⟩ := clean_kept_iff.1 h
  have hescape : '\x1b' ∉ cleaned := fun hmem => absurd (hvisible _ hmem) (by decide)
  rw [clean_eq, stripSequences_of_not_mem hescape, List.filter_eq_self.2 hvisible, if_neg hquit]

/-- **What becomes of a cleaned line** that is cleaned again. It is no quit. It is left as it is or
dropped, and dropped just when it is an echo. It is none if only control sequences were taken out of
it. In a line without line feeds, no front that was all visible is told to be an echo. -/
theorem clean_again (h : clean p raw = some cleaned) :
    cleaned.trim ≠ ['Q'] ∧
    (clean p cleaned = some cleaned ↔ ¬ IsEcho p cleaned) ∧
    (clean p cleaned = none ↔ IsEcho p cleaned) ∧
    ((∀ c ∈ stripSequences raw, isVisible c = true) → ¬ IsEcho p cleaned) ∧
    ('\n' ∉ raw → ∀ front, front <+: stripSequences raw → (∀ c ∈ front, isVisible c = true) →
      front <+: cleaned ∧ ¬ IsMarked p front) := by
  obtain ⟨hecho, hcleaned, hquit⟩ := clean_kept_iff.1 h
  have hagain := clean_of_clean h
  refine ⟨hquit, ?_, ?_, ?_, ?_⟩
  · rw [hagain]
    split
    · rename_i hnoise
      exact iff_of_false (Option.some_ne_none _).symm (not_not_intro hnoise)
    · rename_i hkept
      exact iff_of_true rfl hkept
  · rw [hagain]
    split
    · rename_i hnoise
      exact iff_of_true rfl hnoise
    · rename_i hkept
      exact iff_of_false (Option.some_ne_none _) hkept
  · intro hvisible
    rwa [hcleaned, List.filter_eq_self.2 hvisible]
  · rintro hfeed front ⟨rest, hrest⟩ hvisible
    have hline : '\n' ∉ front ++ rest := fun hmem => by
      rw [hrest, stripSequences_eq_outside] at hmem
      exact hfeed ((Text.select_sublist _ raw).subset hmem)
    constructor
    · rw [hcleaned, ← hrest, List.filter_append, List.filter_eq_self.2 hvisible]
      exact List.prefix_append front _
    · intro hmarked
      have hwhole := isMarked_append hline hmarked
      rw [hrest] at hwhole
      exact hecho (hwhole.imp_right .inl)

/-- A line of a table in colours, with characters that are taken out. -/
theorem clean_again_painted :
    clean angles "\x1b[1m| é |?\x1b[0m".toList = some "|  |".toList ∧
      clean angles "|  |".toList = some "|  |".toList := by
  have hclean : clean angles "\x1b[1m| é |?\x1b[0m".toList = some "|  |".toList := by
    decide +kernel
  have hecho : ¬ IsEcho angles "|  |".toList := by decide +kernel
  obtain ⟨-, hkept, -⟩ := clean_again hclean
  exact ⟨hclean, hkept.2 hecho⟩

/-- A bell in front of an echo is all that is taken out of it. -/
theorem not_forall_clean_again : ¬ ∀ raw cleaned : Text,
    clean angles raw = some cleaned → clean angles cleaned = some cleaned := by
  intro h
  have hclean : clean angles "\x07$1 >>> R;".toList = some "$1 >>> R;".toList := by decide +kernel
  have hdropped : clean angles "$1 >>> R;".toList = none := by decide +kernel
  have hkept := h _ _ hclean
  rw [hdropped] at hkept
  exact Option.some_ne_none _ hkept.symm

end Noise

end QueryEditor
