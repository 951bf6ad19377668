import QueryEditor.Console.Request
import QueryEditor.Proofs.Text.Normalized
import QueryEditor.Proofs.Text.Trimmed

/-!
# Requests of texts

The request of a text is what trimming leaves of it, with a semicolon behind it if it is neither a
dot-command nor ends with one. So a request has no white space at its ends, needs no semicolon and
is its own request, and the request of a text in plain punctuation is in plain punctuation itself.

* `Request.IsClosed`: a text that needs no semicolon, `Request.prepare_eq_some_iff`: the request of
  a text;
* `Request.trim_of_prepare`, `Request.isClosed_of_prepare`, `Request.prepare_of_prepare`: requests;
* `Request.IsPrepared`, **`Request.isPrepared_of_prepare`**: the request of a text in plain
  punctuation.
-/

namespace QueryEditor.Request

open Unicode

/-- The text needs no semicolon: it is a dot-command, or it ends with one. -/
def IsClosed (t : Text) : Prop := t.head? = some '.' ∨ t.getLast? = some ';'

variable {t r : Text}

theorem prepare_eq_some_iff : prepare t = some r ↔ t.trim ≠ [] ∧
    (IsClosed t.trim ∧ r = t.trim ∨ ¬ IsClosed t.trim ∧ r = t.trim ++ [';']) := by
  simp only [prepare, List.isEmpty_iff]
  split
  · rename_i hempty
    exact iff_of_false (Option.some_ne_none r).symm fun h => h.1 hempty
  · rename_i hne
    split
    · rename_i hclosed
      rw [Option.some.injEq, eq_comm]
      exact ⟨fun h => ⟨hne, .inl ⟨hclosed, h⟩⟩,
        fun h => h.2.elim And.right fun hopen => absurd hclosed hopen.1⟩
    · rename_i hopen
      rw [Option.some.injEq, eq_comm]
      exact ⟨fun h => ⟨hne, .inr ⟨hopen, h⟩⟩,
        fun h => h.2.elim (fun hclosed => absurd hclosed.1 hopen) And.right⟩

theorem exists_prepare (h : t.isBlank = false) : ∃ r, prepare t = some r :=
  Option.ne_none_iff_exists'.1 (mt (prepare_eq_none_iff t).1 (Bool.eq_false_iff.1 h))

/-! ## Requests are their own requests -/

section Prepared

variable (h : prepare t = some r)

include h

theorem isClosed_of_prepare : IsClosed r := by
  obtain ⟨-, ⟨hclosed, rfl⟩ | ⟨-, rfl⟩⟩ := prepare_eq_some_iff.1 h
  · exact hclosed
  · exact .inr List.getLast?_concat

theorem trim_of_prepare : r.trim = r := by
  obtain ⟨hne, ⟨-, rfl⟩ | ⟨-, rfl⟩⟩ := prepare_eq_some_iff.1 h
  · exact Text.trim_trim t
  · obtain ⟨hstart, -⟩ := (Text.trim_eq_self_iff t.trim).1 (Text.trim_trim t)
    have hfilled : ¬ Text.isBlank [';'] = true := by decide
    refine (Text.trim_eq_self_iff _).2 ⟨?_, ?_⟩
    · rw [Text.trimStart_append_of_not_isBlank, hstart]
      rwa [Text.isBlank_iff, Text.trim_trim]
    · rw [Text.trimEnd_append_of_not_isBlank hfilled]
      rfl

theorem ne_nil_of_prepare : r ≠ [] := by
  obtain ⟨hne, ⟨-, rfl⟩ | ⟨-, rfl⟩⟩ := prepare_eq_some_iff.1 h
  · exact hne
  · exact List.append_ne_nil_of_right_ne_nil _ (List.cons_ne_nil _ _)

/-- **Preparing once is enough.** -/
theorem prepare_of_prepare : prepare r = some r := by
  have htrim := trim_of_prepare h
  rw [prepare_eq_some_iff, htrim]
  exact ⟨ne_nil_of_prepare h, .inl ⟨isClosed_of_prepare h, rfl⟩⟩

end Prepared

/-! ## Requests in plain punctuation -/

/-- The line `r` that is sent for the text `t`. -/
structure IsPrepared (t r : Text) : Prop where
  normal : normalize r = r
  again : prepare r = some r
  start : ∀ c ∈ r.head?, isWhite c = false
  stop : ∀ c ∈ r.getLast?, isWhite c = false
  closed : r.head? = some '.' ∨ r.getLast? = some ';'
  text : r = (normalize t).trim ∨ r = (normalize t).trim ++ [';']
  /-- No semicolon is put behind one, be it full-width or followed by white space. -/
  kept : ∀ (u : Text) (c : Char) (w : Text), t = u ++ c :: w → c = ';' ∨ c = '；' →
    w.isBlank = true → r = (normalize t).trim

theorem getLast?_trim_of_closed {u w : Text} {c : Char} (hc : c = ';' ∨ c = '；')
    (hw : w.isBlank = true) : (normalize (u ++ c :: w)).trim.getLast? = some ';' := by
  have hsplit : normalize (u ++ c :: w) = (normalize u ++ [';']) ++ normalize w := by
    have hplain : halfWidth c = ';' := by rcases hc with rfl | rfl <;> decide
    simp [normalize, hplain]
  have hend : [';'] <:+ (normalize u ++ [';']).trim :=
    (Text.suffix_trim_append_iff (List.cons_ne_nil _ _)).2 ⟨by decide, fun _ => by decide⟩
  rw [hsplit, Text.trim_append_right_of_isBlank ((isBlank_normalize w).trans hw)]
  obtain ⟨v, hv⟩ := hend
  rw [← hv]
  exact List.getLast?_concat

/-- **The request of a text in plain punctuation.** -/
theorem isPrepared_of_prepare (h : prepare (normalize t) = some r) : IsPrepared t r where
  normal := by
    have hplain : normalize (normalize t).trim = (normalize t).trim := by
      rw [← trim_normalize, normalize_normalize]
    obtain ⟨-, ⟨-, rfl⟩ | ⟨-, rfl⟩⟩ := prepare_eq_some_iff.1 h
    · exact hplain
    · rw [normalize, List.map_append, ← normalize, hplain]
      rfl
  again := prepare_of_prepare h
  start := (Text.isWhite_ends_of_trim_eq (trim_of_prepare h)).1
  stop := (Text.isWhite_ends_of_trim_eq (trim_of_prepare h)).2
  closed := isClosed_of_prepare h
  text := (prepare_eq_some_iff.1 h).2.imp And.right And.right
  kept u c w ht hc hw := by
    have hclosed : IsClosed (normalize t).trim := .inr (ht ▸ getLast?_trim_of_closed hc hw)
    exact (prepare_eq_some_iff.1 h).2.elim And.right fun hopen => absurd hclosed hopen.1

end QueryEditor.Request
