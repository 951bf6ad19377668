import Mathlib
import QueryEditor.Proofs.Console.Echoes
import QueryEditor.Proofs.Data.Listing

/-!
# Identifiers

An identifier is a letter or an underscore and then letters, digits and underscores, all of them
ASCII. A table whose name and attributes are identifiers can be listed, and cleaning leaves its line
as it is, whatever the prompt.

* `isIdentifier`, `Table.IsNamed`;
* `Table.IsNamed.isListable`: such a table is read back from its line;
* **`Table.IsNamed.clean_line`**: its line is kept.
-/

namespace QueryEditor

open Noise Unicode

/-- The character can start an identifier. -/
def startsIdentifier (c : Char) : Bool := c.isAlpha || c == '_'

/-- The character can be in an identifier. -/
def isInIdentifier (c : Char) : Bool := c.isAlphanum || c == '_'

def isIdentifier : Text → Bool
  | [] => false
  | c :: rest => startsIdentifier c && rest.all isInIdentifier

/-! ## Characters of identifiers -/

section Character

variable {c : Char}

theorem toNat_of_startsIdentifier (h : startsIdentifier c = true) :
    65 ≤ c.toNat ∧ c.toNat ≤ 122 := by
  rcases Bool.or_eq_true_iff.1 h with hletter | hscore
  · have := toNat_of_isAlpha hletter
    omega
  · rw [beq_iff_eq.1 hscore]
    decide

theorem isInIdentifier_of_starts (h : startsIdentifier c = true) : isInIdentifier c = true := by
  rcases Bool.or_eq_true_iff.1 h with hletter | hscore
  · simp [isInIdentifier, Char.isAlphanum, hletter]
  · simp [isInIdentifier, hscore]

theorem toNat_of_isInIdentifier (h : isInIdentifier c = true) :
    48 ≤ c.toNat ∧ c.toNat ≤ 122 ∧ c.toNat ≠ 63 := by
  rcases Bool.or_eq_true_iff.1 h with halphanum | hscore
  · rcases Bool.or_eq_true_iff.1 halphanum with hletter | hdigit
    · have := toNat_of_isAlpha hletter
      omega
    · have := toNat_of_isDigit hdigit
      omega
  · rw [beq_iff_eq.1 hscore]
    decide

theorem isWhite_of_isInIdentifier (h : isInIdentifier c = true) : isWhite c = false := by
  have houtside : ∀ r ∈ whiteRanges, r.2 < 48 ∨ 122 < r.1 := by decide
  refine Bool.eq_false_iff.2 fun hwhite => ?_
  obtain ⟨r, hr, hlow, hhigh⟩ := (Ranges.has_iff whiteRanges c).1 hwhite
  have := houtside r hr
  have := toNat_of_isInIdentifier h
  omega

theorem isDigit_of_startsIdentifier (h : startsIdentifier c = true) : isDigit c = false := by
  have houtside : ∀ r ∈ digitRanges, r.2 < 65 ∨ 122 < r.1 := by decide
  refine Bool.eq_false_iff.2 fun hdigit => ?_
  obtain ⟨r, hr, hlow, hhigh⟩ := (Ranges.has_iff digitRanges c).1 hdigit
  have := houtside r hr
  have := toNat_of_startsIdentifier h
  omega

theorem isPlain_of_isInIdentifier (h : isInIdentifier c = true) : ' ' ≤ c ∧ c ≤ '~' ∧ c ≠ '?' := by
  obtain ⟨hlow, hhigh, hmark⟩ := toNat_of_isInIdentifier h
  refine ⟨Char.le_def.2 (UInt32.le_iff_toNat_le.2 ?_), Char.le_def.2 (UInt32.le_iff_toNat_le.2 ?_),
    ?_⟩
  · exact (by decide : 32 ≤ 48).trans hlow
  · exact hhigh.trans (by decide)
  · rintro rfl
    exact hmark rfl

end Character

/-! ## Texts -/

section Identifier

variable {t : Text} (h : isIdentifier t = true)

include h

theorem ne_nil_of_isIdentifier : t ≠ [] := by
  rintro rfl
  cases h

theorem startsIdentifier_head (ht : t ≠ []) : startsIdentifier (t.head ht) = true := by
  obtain ⟨c, rest, rfl⟩ := List.exists_cons_of_ne_nil ht
  exact (Bool.and_eq_true_iff.1 h).1

theorem isInIdentifier_of_mem : ∀ c ∈ t, isInIdentifier c = true := by
  obtain ⟨c, rest, rfl⟩ := List.exists_cons_of_ne_nil (ne_nil_of_isIdentifier h)
  obtain ⟨hfirst, hrest⟩ := Bool.and_eq_true_iff.1 h
  exact List.forall_mem_cons.2 ⟨isInIdentifier_of_starts hfirst, List.all_eq_true.1 hrest⟩

theorem not_mem_of_isIdentifier {c : Char} (hc : isInIdentifier c = false) : c ∉ t := fun hmem =>
  absurd (isInIdentifier_of_mem h c hmem) (Bool.eq_false_iff.1 hc)

theorem trim_of_isIdentifier : t.trim = t := by
  have hwhite : ∀ c ∈ t, isWhite c = false := fun c hc =>
    isWhite_of_isInIdentifier (isInIdentifier_of_mem h c hc)
  exact Text.trim_eq_self (ne_nil_of_isIdentifier h) (hwhite _ (List.head_mem _))
    (hwhite _ (List.getLast_mem _))

theorem isEntry_of_isIdentifier : Table.IsEntry t where
  ne_nil := ne_nil_of_isIdentifier h
  trimmed := trim_of_isIdentifier h
  comma := not_mem_of_isIdentifier h (by decide)
  colon := not_mem_of_isIdentifier h (by decide)
  opening := not_mem_of_isIdentifier h (by decide)
  closing := not_mem_of_isIdentifier h (by decide)

end Identifier

/-! ## Tables -/

namespace Table

/-- The name and the attributes are identifiers. -/
structure IsNamed (t : Table) : Prop where
  name : isIdentifier t.name = true
  attributes : ∀ a ∈ t.attributes, isIdentifier a = true

/-- The characters around the identifiers of a line. -/
def lineMarks : Text := [' ', ',', ':', '\x7b', '\x7d']

namespace IsNamed

variable {t : Table} (h : t.IsNamed)

include h

theorem isListable : t.IsListable where
  name_trimmed := trim_of_isIdentifier h.name
  name_colon := not_mem_of_isIdentifier h.name (by decide)
  attributes := fun a ha => isEntry_of_isIdentifier (h.attributes a ha)

theorem mem_line {blanks : Nat} {c : Char} (hc : c ∈ t.line blanks) :
    isInIdentifier c = true ∨ c ∈ lineMarks := by
  simp only [line, List.mem_append, List.mem_singleton] at hc
  rcases hc with ((hname | hmarks) | hinner) | rfl
  · exact .inl (isInIdentifier_of_mem h.name c hname)
  · have hsubset : [' ', ':', ' ', '\x7b'] ⊆ lineMarks := by simp [lineMarks]
    exact .inr (hsubset hmarks)
  · rcases mem_inner hinner with ⟨a, ha, hmem⟩ | rfl | rfl
    · exact .inl (isInIdentifier_of_mem (h.attributes a ha) c hmem)
    · exact .inr (by decide)
    · exact .inr (by decide)
  · exact .inr (by decide)

theorem not_mem_line {c : Char} (hc : isInIdentifier c = false)
    (hmarks : c ∉ lineMarks) (blanks : Nat) : c ∉ t.line blanks := fun hmem =>
  (h.mem_line hmem).elim (Bool.eq_false_iff.1 hc) hmarks

theorem isPlain_line (blanks : Nat) : IsPlain (t.line blanks) := by
  intro c hc
  rcases h.mem_line hc with hin | hmarks
  · exact isPlain_of_isInIdentifier hin
  · have hplain : IsPlain lineMarks := by decide
    exact hplain c hmarks

theorem exists_line (blanks : Nat) :
    ∃ c rest, startsIdentifier c = true ∧ t.line blanks = c :: rest := by
  have hne := ne_nil_of_isIdentifier h.name
  have hstart := startsIdentifier_head h.name hne
  obtain ⟨c, rest, hname⟩ := List.exists_cons_of_ne_nil hne
  simp only [hname, List.head_cons] at hstart
  exact ⟨c, rest ++ (" : \x7b".toList ++ t.inner blanks ++ ['\x7d']), hstart, by simp [line, hname]⟩

theorem trim_line (blanks : Nat) : (t.line blanks).trim = t.line blanks := by
  obtain ⟨c, rest, hstart, hline⟩ := h.exists_line blanks
  have hne : t.line blanks ≠ [] := by
    rw [hline]
    exact List.cons_ne_nil c rest
  have hhead : (t.line blanks).head hne = c := by simp only [hline, List.head_cons]
  have hlast : (t.line blanks).getLast hne = '\x7d' := List.getLast_concat
  refine Text.trim_eq_self hne ?_ ?_
  · rw [hhead]
    exact isWhite_of_isInIdentifier (isInIdentifier_of_starts hstart)
  · rw [hlast]
    decide

/-- **The line is kept** as it is: it starts with neither a dollar sign nor a digit, so it is no
echo of input. -/
theorem clean_line (p : Text) (blanks : Nat) : clean p (t.line blanks) = some (t.line blanks) := by
  obtain ⟨c, rest, hstart, hline⟩ := h.exists_line blanks
  have hdigits : afterDigits? (t.line blanks) = none := by
    rw [hline, afterDigits?, if_neg]
    simp [isDigit_of_startsIdentifier hstart]
  have hcolon : t.line blanks ≠ ['Q'] := by
    have hmem : ':' ∈ t.line blanks := by simp [line]
    intro heq
    rw [heq] at hmem
    exact absurd hmem (by decide)
  have hdollar : isPromptEcho p (t.line blanks) = false := by
    have hne : c ≠ '$' := by
      rintro rfl
      exact absurd hstart (by decide)
    rw [hline, isPromptEcho]
    exact fun _ heq => hne (List.cons.inj heq).1
  rw [clean_eq_some_iff p (h.isPlain_line blanks), h.trim_line]
  refine ⟨rfl, hdollar, ?_, ?_, hcolon⟩
  · rw [isContinuationEcho, hdigits]
    rfl
  · simp only [isCommandEcho, hdigits]
    rfl

end IsNamed

end Table

end QueryEditor
