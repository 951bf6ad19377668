import QueryEditor.Proofs.Language.Words
import QueryEditor.Proofs.Line.Replaced

/-!
# Offers while typing

An offer may be kept while a text is typed on behind its word. If the text has no white space, an
offer made behind it starts at the same place, its word is the old one with the text behind it, and
it matches nothing that the old one does not match. If the text has white space, another word has
begun. To choose an option is to replace the word of the offer, and nothing else.

* `Document.putIn`: a document with a text put in;
* `Document.IsWordAt.putIn`, `Document.IsWordAt.lt_of_putIn`: the word that ends behind that text;
* `Completion.matching_sublist`: a longer word matches less;
* `Document.IsWordAt.replace`: a word replaced;
* **`complete_kept`**: what becomes of an offer.
-/

namespace QueryEditor

open Unicode

namespace Document

variable {d : Document} {pos start : Nat} {word new : Text}

/-! ## A text put in -/

def putIn (d : Document) (pos : Nat) (new : Text) : Document :=
  d.replace (.insertion (min pos d.length) new)

theorem putIn_eq (d : Document) (pos : Nat) (new : Text) : d.putIn pos new =
    ⟨d.text.take (min pos d.length) ++ (new ++ d.text.drop (min pos d.length))⟩ := by
  have hinside : (Change.insertion (min pos d.length) new).Inside d.length :=
    ⟨Nat.le_refl _, Nat.min_le_right _ _⟩
  rw [putIn, replace_eq hinside, Text.splice, Change.insertion, List.append_assoc]

theorem length_putIn (d : Document) (pos : Nat) (new : Text) :
    (d.putIn pos new).length = d.length + new.length := by
  simp only [putIn_eq, length, List.length_append, List.length_take, List.length_drop]
  omega

/-- **A word goes on** in a text without white space behind it. -/
theorem IsWordAt.putIn (h : d.IsWordAt (min pos d.length) start word)
    (hnew : ∀ c ∈ new, isWhite c = false) :
    (d.putIn pos new).IsWordAt (min pos d.length + new.length) start (word ++ new) := by
  obtain ⟨front, rest, hd, rfl, hlength, hfront⟩ := h.exists_parts (Nat.min_le_right _ _)
  have htext : d.text = (front ++ word) ++ rest := by rw [hd, List.append_assoc]
  have hput : d.putIn pos new = ⟨front ++ ((word ++ new) ++ rest)⟩ := by
    rw [putIn_eq, hlength, htext, List.take_left, List.drop_left]
    simp only [List.append_assoc]
  have hword : ∀ c ∈ word ++ new, isWhite c = false := fun c hc =>
    (List.mem_append.1 hc).elim (h.unbroken c) (hnew c)
  have hstop : (front ++ word).length + new.length = (front ++ (word ++ new)).length := by
    rw [← List.length_append, List.append_assoc]
  rw [hput, hlength, hstop]
  exact isWordAt_append hfront hword rest

theorem IsWordAt.lt_of_putIn
    (h : (d.putIn pos new).IsWordAt (min pos d.length + new.length) start word)
    (hnew : ∃ c ∈ new, isWhite c = true) : min pos d.length < start := by
  obtain ⟨c, hc, hwhite⟩ := hnew
  have hfront : (d.text.take (min pos d.length)).length = min pos d.length :=
    List.length_take_of_le (Nat.min_le_right _ _)
  by_contra hle
  have hstart : start ≤ (d.text.take (min pos d.length)).length := by omega
  have hword : word = (d.text.take (min pos d.length)).drop start ++ new := by
    rw [h.eq_slice, putIn_eq, slice, Text.cut, ← List.append_assoc,
      List.take_left' (by rw [List.length_append, hfront]),
      List.drop_append_of_le_length hstart]
  rw [h.unbroken c (hword ▸ List.mem_append_right _ hc)] at hwhite
  exact Bool.noConfusion hwhite

theorem IsWordAt.replace {stop : Nat} (h : d.IsWordAt stop start word) (hstop : stop ≤ d.length)
    (new : Text) : ∃ front rest, d.text = front ++ (word ++ rest) ∧ start = front.length ∧
      stop = (front ++ word).length ∧ (d.replace ⟨start, stop, new⟩).text = front ++ (new ++ rest) := by
  obtain ⟨front, rest, rfl, rfl, rfl, -⟩ := h.exists_parts hstop
  refine ⟨front, rest, rfl, rfl, rfl, ?_⟩
  rw [replace_eq ⟨h.start_le, hstop⟩]
  simp only [Text.splice]
  rw [List.take_left, ← List.append_assoc front word, List.drop_left, List.append_assoc]

end Document

namespace Completion

variable {offer later : Completion}

theorem isValidFor_iff (offer : Completion) (new : Text) :
    offer.isValidFor new = true ↔ ∀ c ∈ new, isWhite c = false := by
  simp [isValidFor]

theorem isValidFor_eq_false_iff (offer : Completion) (new : Text) :
    offer.isValidFor new = false ↔ ∃ c ∈ new, isWhite c = true := by
  simp [isValidFor]

theorem matching_sublist (hoptions : later.options = offer.options)
    (hword : offer.word <+: later.word) : later.matching.Sublist offer.matching := by
  rw [matching, matching, hoptions]
  refine List.monotone_filter_right _ fun option hoption => ?_
  rw [List.isPrefixOf_iff_prefix] at hoption ⊢
  exact hword.trans hoption

/-- What becomes of an offer when a text is put in at its position. -/
structure Kept (offer : Completion) (d : Document) (pos : Nat) (new : Text) : Prop where
  /-- As long as no white space is put in, an offer behind the text is the old one for a longer
  word. -/
  grown : offer.isValidFor new = true → ∀ explicit later,
    complete (d.putIn pos new) (min pos d.length + new.length) explicit = some later →
      later.start = offer.start ∧ later.word = offer.word ++ new ∧
        later.options = offer.options ∧ later.matching.Sublist offer.matching
  offered : offer.isValidFor new = true → ∀ explicit,
    ((complete (d.putIn pos new) (min pos d.length + new.length) explicit).isSome = true ↔
      offer.word ≠ [] ∨ new ≠ [] ∨ explicit = true)
  moved : offer.isValidFor new = false →
    offer.start < (wordBefore (d.putIn pos new) (min pos d.length + new.length)).1
  /-- To choose an option changes the word of the offer and nothing else. -/
  chosen : ∀ option ∈ offer.options, ∃ front rest,
    d.text = front ++ (offer.word ++ rest) ∧ offer.start = front.length ∧
      offer.stop = (front ++ offer.word).length ∧
      (d.replace ⟨offer.start, offer.stop, option.label⟩).text = front ++ (option.label ++ rest)

end Completion

variable {d : Document} {pos : Nat} {explicit : Bool} {offer : Completion}

/-- **An offer may be kept** while no white space is typed, and choosing replaces its word. -/
theorem complete_kept (h : complete d pos explicit = some offer) (new : Text) :
    offer.Kept d pos new := by
  obtain ⟨hword, hstop, hoptions, -⟩ := complete_eq_some_iff.1 h
  have hpos : min (min pos d.length + new.length) (d.putIn pos new).length =
      min pos d.length + new.length := by
    rw [d.length_putIn, Nat.add_min_add_right, Nat.min_assoc, Nat.min_self]
  have hbehind := isWordAt_wordBefore (d.putIn pos new) (min pos d.length + new.length)
  rw [hpos] at hbehind
  constructor
  · intro hvalid explicit later hlater
    obtain ⟨hlater, -, hoptions', -⟩ := complete_eq_some_iff.1 hlater
    rw [hpos] at hlater
    obtain ⟨hstart, htyped⟩ := hlater.unique (hword.putIn ((offer.isValidFor_iff new).1 hvalid))
    have hsame : later.options = offer.options := hoptions'.trans hoptions.symm
    exact ⟨hstart, htyped, hsame,
      Completion.matching_sublist hsame (htyped ▸ List.prefix_append offer.word new)⟩
  · intro hvalid explicit
    have hnone := complete_eq_none_iff (d.putIn pos new) (min pos d.length + new.length) explicit
    obtain ⟨-, htyped⟩ := hbehind.unique (hword.putIn ((offer.isValidFor_iff new).1 hvalid))
    rw [htyped, List.append_eq_nil_iff] at hnone
    rw [Option.isSome_iff_ne_none, ne_eq, hnone, not_and_or, not_and_or, Bool.not_eq_false, or_assoc]
  · intro hinvalid
    have hlt := hbehind.lt_of_putIn ((offer.isValidFor_eq_false_iff new).1 hinvalid)
    exact Nat.lt_of_le_of_lt hword.start_le hlt
  · intro option _
    rw [hstop]
    exact hword.replace (Nat.min_le_right _ _) option.label

/-- In the second line of a document a dot-command is typed on. -/
theorem complete_kept_tables :
    let d : Document := ⟨"R\r\n.t".toList⟩
    let offer : Completion := ⟨3, 5, ".t".toList, Word.vocabulary⟩
    complete d 5 false = some offer ∧ offer.Kept d 5 "a".toList ∧
      offer.matching.map Word.label = [".tables".toList, ".tree".toList] ∧
      (complete (d.putIn 5 "a".toList) 6 false).map (fun later => later.matching.map Word.label) =
        some [".tables".toList] := by
  intro d offer
  have hoffer : complete d 5 false = some offer := by decide +kernel
  exact ⟨hoffer, complete_kept hoffer _, by decide +kernel, by decide +kernel⟩

end QueryEditor
