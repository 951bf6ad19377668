import Mathlib.Data.List.DropRight
import QueryEditor.Text.Basic

/-!
# Trimmed texts

What trimming leaves is a part of the text. Blanks at either end make no difference to it, and it
ends with a given text when the text does, provided that the end itself is not white.

* `trim_isInfix`, `trim_append_of_isBlank`, `trim_append_right_of_isBlank`;
* `trim_eq_self_iff`: a text that trimming leaves as it is has no white space at either end;
* `trim_trim`: trimming twice is trimming once;
* **`suffix_trim_append_iff`**: when trimming keeps the end of a text.
-/

namespace QueryEditor.Text

open Unicode

theorem isBlank_iff_forall (t : Text) : t.isBlank = true ↔ ∀ c ∈ t, isWhite c = true :=
  List.all_eq_true

theorem isBlank_replicate (k : Nat) : isBlank (List.replicate k ' ') = true := by
  refine (isBlank_iff_forall _).2 fun c hc => ?_
  rw [List.eq_of_mem_replicate hc]
  decide

theorem trimStart_suffix (t : Text) : t.trimStart <:+ t := List.dropWhile_suffix _

theorem trimEnd_isPrefix (t : Text) : t.trimEnd <+: t := List.rdropWhile_prefix isWhite t

theorem trim_isInfix (t : Text) : t.trim <:+: t :=
  (trimEnd_isPrefix t.trimStart).isInfix.trans (trimStart_suffix t).isInfix

theorem trimStart_append_of_isBlank {u : Text} (hu : u.isBlank = true) (t : Text) :
    (u ++ t).trimStart = t.trimStart :=
  List.dropWhile_append_of_pos ((isBlank_iff_forall u).1 hu)

theorem trim_append_of_isBlank {u : Text} (hu : u.isBlank = true) (t : Text) :
    (u ++ t).trim = t.trim := by
  rw [trim, trimStart_append_of_isBlank hu, trim]

theorem trimStart_append_of_not_isBlank {u : Text} (hu : ¬ u.isBlank = true) (t : Text) :
    (u ++ t).trimStart = u.trimStart ++ t := by
  have hne : u.dropWhile isWhite ≠ [] := fun e =>
    hu ((isBlank_iff_forall u).2 (List.dropWhile_eq_nil_iff.1 e))
  rw [trimStart, List.dropWhile_append, if_neg (by simpa using hne), trimStart]

theorem trimEnd_append_of_isBlank {u : Text} (hu : u.isBlank = true) (t : Text) :
    (t ++ u).trimEnd = t.trimEnd := by
  have hreverse : ∀ c ∈ u.reverse, isWhite c = true := fun c hc =>
    (isBlank_iff_forall u).1 hu c (List.mem_reverse.1 hc)
  rw [trimEnd, List.reverse_append, List.dropWhile_append_of_pos hreverse, trimEnd]

theorem trim_append_right_of_isBlank {u : Text} (hu : u.isBlank = true) (t : Text) :
    (t ++ u).trim = t.trim := by
  by_cases ht : t.isBlank = true
  · rw [trim_append_of_isBlank ht, (isBlank_iff u).1 hu, (isBlank_iff t).1 ht]
  · rw [trim, trimStart_append_of_not_isBlank ht, trimEnd_append_of_isBlank hu, trim]

theorem trimEnd_append_of_not_isBlank {u : Text} (hu : ¬ u.isBlank = true) (t : Text) :
    (t ++ u).trimEnd = t ++ u.trimEnd := by
  have hreverse : ¬ isBlank u.reverse = true := by rwa [isBlank, List.all_reverse]
  have hstart := trimStart_append_of_not_isBlank hreverse t.reverse
  rw [trimStart, trimStart] at hstart
  rw [trimEnd, List.reverse_append, hstart, List.reverse_append, List.reverse_reverse, trimEnd]

theorem trimEnd_isPrefix_append (t u : Text) : t.trimEnd <+: (t ++ u).trimEnd := by
  by_cases hu : u.isBlank = true
  · exact (trimEnd_append_of_isBlank hu t).symm ▸ List.prefix_refl t.trimEnd
  · rw [trimEnd_append_of_not_isBlank hu]
    exact (trimEnd_isPrefix t).trans (List.prefix_append t _)

theorem trim_isPrefix_append {t : Text} (ht : ¬ t.isBlank = true) (u : Text) :
    t.trim <+: (t ++ u).trim := by
  rw [trim, trim, trimStart_append_of_not_isBlank ht]
  exact trimEnd_isPrefix_append _ u

theorem trim_eq_self_iff (t : Text) : t.trim = t ↔ t.trimStart = t ∧ t.trimEnd = t := by
  constructor
  · intro h
    have hstart : t.trimStart = t := by
      refine (trimStart_suffix t).eq_of_length_le ?_
      calc t.length = t.trim.length := by rw [h]
        _ ≤ t.trimStart.length := (trimEnd_isPrefix t.trimStart).length_le
    refine ⟨hstart, ?_⟩
    rwa [trim, hstart] at h
  · rintro ⟨hstart, hend⟩
    rw [trim, hstart, hend]

theorem trimStart_of_isPrefix {s t : Text} (h : s <+: t) (ht : t.trimStart = t) :
    s.trimStart = s := by
  obtain ⟨rest, rfl⟩ := h
  cases s with
  | nil => rfl
  | cons c s =>
    have hc : ¬ isWhite c = true := fun hc => by
      have hlength := (List.dropWhile_suffix isWhite (l := s ++ rest)).length_le
      rw [trimStart, List.cons_append, List.dropWhile_cons_of_pos hc] at ht
      rw [ht, List.length_cons] at hlength
      omega
    rw [trimStart, List.dropWhile_cons_of_neg hc]

theorem trim_trim (t : Text) : t.trim.trim = t.trim :=
  (trim_eq_self_iff _).2 ⟨trimStart_of_isPrefix (trimEnd_isPrefix _) (List.dropWhile_idempotent ..),
    List.rdropWhile_idempotent ..⟩

theorem isWhite_ends_of_trim_eq {t : Text} (h : t.trim = t) :
    (∀ c ∈ t.head?, isWhite c = false) ∧ ∀ c ∈ t.getLast?, isWhite c = false := by
  obtain ⟨hstart, hend⟩ := (trim_eq_self_iff t).1 h
  constructor
  · intro c hc
    have hnot := List.head?_dropWhile_not isWhite t
    rw [← hstart] at hc
    rwa [show t.dropWhile isWhite = t.trimStart from rfl, hc] at hnot
  · intro c hc
    obtain ⟨hne, rfl⟩ := List.mem_getLast?_eq_getLast hc
    exact Bool.eq_false_iff.2 (List.rdropWhile_eq_self_iff.1 hend hne)

theorem trim_eq_self {t : Text} (ht : t ≠ []) (hhead : isWhite (t.head ht) = false)
    (hlast : isWhite (t.getLast ht) = false) : t.trim = t := by
  refine (trim_eq_self_iff t).2 ⟨?_, ?_⟩
  · obtain ⟨c, rest, rfl⟩ := List.exists_cons_of_ne_nil ht
    exact List.dropWhile_cons_of_neg (Bool.eq_false_iff.1 hhead)
  · exact List.rdropWhile_eq_self_iff.2 fun _ => Bool.eq_false_iff.1 hlast

/-- The last character of a text decides whether its end is kept. -/
theorem suffix_trimEnd_iff {t p : Text} (hp : p ≠ []) (h : p <:+ t) :
    p <:+ t.trimEnd ↔ p.trimEnd = p := by
  have hself : ∀ l : Text, l.trimEnd = l ↔ ∀ hl : l ≠ [], ¬ isWhite (l.getLast hl) = true :=
    fun l => List.rdropWhile_eq_self_iff
  obtain ⟨u, rfl⟩ := h
  have hne : u ++ p ≠ [] := List.append_ne_nil_of_right_ne_nil u hp
  constructor
  · intro hkept
    have hend : trimEnd (u ++ p) ≠ [] := fun e => hp (List.suffix_nil.1 (e ▸ hkept))
    have hlast := List.rdropWhile_last_not isWhite (u ++ p) hend
    obtain ⟨v, hv⟩ := hkept
    refine (hself p).2 fun _ => ?_
    have hget : (trimEnd (u ++ p)).getLast hend = p.getLast hp := by
      simp only [← hv, List.getLast_append_of_right_ne_nil _ _ hp]
    exact hget ▸ hlast
  · intro hkept
    have hwhole : trimEnd (u ++ p) = u ++ p := by
      refine (hself _).2 fun _ => ?_
      rw [List.getLast_append_of_right_ne_nil _ _ hp]
      exact (hself p).1 hkept hp
    rw [hwhole]
    exact List.suffix_append u p

/-- **When trimming keeps the end of a text**: the end is not white itself, and what stands in
front of it is not blank unless the end starts with no white space either. -/
theorem suffix_trim_append_iff {u p : Text} (hp : p ≠ []) :
    p <:+ (u ++ p).trim ↔ p.trimEnd = p ∧ (u.isBlank = true → p.trimStart = p) := by
  have hstart : p <:+ (u ++ p).trimStart ↔ (u.isBlank = true → p.trimStart = p) := by
    by_cases hu : u.isBlank = true
    · rw [trimStart_append_of_isBlank hu]
      exact ⟨fun h _ => (trimStart_suffix p).eq_of_length_le h.length_le,
        fun h => ⟨[], (h hu).symm⟩⟩
    · rw [trimStart_append_of_not_isBlank hu]
      exact iff_of_true (List.suffix_append _ _) fun h => absurd h hu
  constructor
  · intro h
    have hkept : p <:+ (u ++ p).trimStart :=
      List.suffix_of_suffix_length_le (List.suffix_append u p) (trimStart_suffix _)
        (h.length_le.trans (trimEnd_isPrefix _).length_le)
    exact ⟨(suffix_trimEnd_iff hp hkept).1 h, hstart.1 hkept⟩
  · rintro ⟨hend, hblank⟩
    exact (suffix_trimEnd_iff hp (hstart.2 hblank)).2 hend

end QueryEditor.Text
