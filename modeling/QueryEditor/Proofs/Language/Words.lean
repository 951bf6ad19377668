import Mathlib.Data.List.DropRight
import QueryEditor.Language.Completion
import QueryEditor.Proofs.Line.Places
import QueryEditor.Proofs.Text.Runs

/-!
# Words before the cursor

The word before a position has no white space, and there is nothing in front of it or white space.
It is looked for in the line of the position only, and that is enough: a line starts at the start of
the text or behind a break, and breaks are white space. So it is the word that a search through the
whole text would find.

* `EndsWhite`: a text that may be cut off at its end without cutting a word;
* `lastWord_append`, `exists_lastWord`: the last word of a text, and what is in front of it;
* `Document.endsWhite_lineStart`: what is in front of a line;
* `Document.IsWordAt`: the word that ends at a position;
* `wordBefore_eq_iff`, `complete_eq_some_iff`: the word before a position, and the offer there;
* **`wordBefore_maximal`**: the word before a position is the longest one that ends there.
-/

namespace QueryEditor

open Unicode

/-! ## The last word of a text -/

/-- The text is empty or ends with white space. -/
def EndsWhite (t : Text) : Prop := ∀ c ∈ t.getLast?, isWhite c = true

instance (t : Text) : Decidable (EndsWhite t) := Option.decidableForallMem t.getLast?

section LastWord

variable {x front word : Text}

theorem endsWhite_nil : EndsWhite [] := nofun

theorem EndsWhite.append {y : Text} (hy : EndsWhite y) (hx : y = [] → EndsWhite x) :
    EndsWhite (x ++ y) := by
  cases y with
  | nil => rw [List.append_nil]; exact hx rfl
  | cons c y => rwa [EndsWhite, List.getLast?_append_of_ne_nil _ (List.cons_ne_nil c y)]

theorem lastWord_append (hfront : EndsWhite front) (hword : ∀ c ∈ word, isWhite c = false) :
    lastWord (front ++ word) = word := by
  have hrun : word.reverse.all (fun c => !isWhite c) = true := by simpa using hword
  have hstop : ∀ c ∈ front.reverse.head?, (!isWhite c) = false := by
    simpa [EndsWhite] using hfront
  rw [lastWord, List.reverse_append, takeWhile_append hrun hstop, List.reverse_reverse]

theorem exists_lastWord (t : Text) : ∃ front, t = front ++ lastWord t ∧ EndsWhite front ∧
    ∀ c ∈ lastWord t, isWhite c = false := by
  refine ⟨t.rdropWhile fun c => !isWhite c, List.rdropWhile_append_rtakeWhile.symm, ?_, ?_⟩
  · intro c hc
    obtain ⟨hne, rfl⟩ := List.mem_getLast?_eq_getLast hc
    simpa using List.rdropWhile_last_not (fun c => !isWhite c) t hne
  · intro c hc
    simpa using List.mem_rtakeWhile_imp hc

theorem lastWord_append_of_endsWhite (hx : EndsWhite x) (y : Text) :
    lastWord (x ++ y) = lastWord y := by
  obtain ⟨front, hy, hfront, hword⟩ := exists_lastWord y
  conv_lhs => rw [hy, ← List.append_assoc]
  exact lastWord_append (hfront.append fun _ => hx) hword

end LastWord

namespace Document

variable {d : Document}

/-! ## In front of a line -/

theorem endsWhite_lineStart {n : Nat} (h : n < d.lineCount) :
    EndsWhite (d.text.take (d.lineStart n)) := by
  cases n with
  | zero => exact endsWhite_nil
  | succ n =>
    obtain ⟨l, front, rest, hl⟩ := exists_standsAt (Nat.lt_of_succ_lt h)
    obtain ⟨b, hb⟩ := Option.isSome_iff_exists.1 (hl.closed h)
    have hfront : d.text.take (d.lineStart (n + 1)) = front ++ l.text ++ b.text := by
      have hfull : l.full = l.text ++ b.text := by rw [Line.full, Line.breakText, hb]; rfl
      rw [lineStart_succ hl, hl.text, ← List.append_assoc, List.take_left, hfull,
        List.append_assoc]
    have hbreak : EndsWhite b.text ∧ b.text ≠ [] := by cases b <;> decide
    rw [hfront]
    exact hbreak.1.append fun hnil => absurd hnil hbreak.2

/-- **A search through the line of a position** finds what one through the whole text finds. -/
theorem lastWord_line (d : Document) (pos : Nat) :
    lastWord (d.slice (d.lineStart (d.lineOf pos)) (min pos d.length)) =
      lastWord (d.slice 0 (min pos d.length)) := by
  have hparts := Text.cut_append_cut d.text (Nat.zero_le _) (d.lineStart_lineOf_le pos)
  have hline := lastWord_append_of_endsWhite (d.endsWhite_lineStart (d.lineOf_lt pos))
    (d.slice (d.lineStart (d.lineOf pos)) (min pos d.length))
  rw [← hline, slice, slice, ← hparts]
  rfl

/-! ## The word at a position -/

/-- The word that ends at the position `stop`: it has no white space, and it starts with the text or
behind white space. -/
structure IsWordAt (d : Document) (stop start : Nat) (word : Text) : Prop where
  start_le : start ≤ stop
  eq_slice : word = d.slice start stop
  unbroken : ∀ c ∈ word, isWhite c = false
  bounded : start = 0 ∨ ∃ c, d.text[start - 1]? = some c ∧ isWhite c = true

variable {front word rest : Text} {stop start : Nat}

theorem isWordAt_append (hfront : EndsWhite front) (hword : ∀ c ∈ word, isWhite c = false)
    (rest : Text) : IsWordAt ⟨front ++ (word ++ rest)⟩ (front ++ word).length front.length word where
  start_le := by rw [List.length_append]; exact Nat.le_add_right _ _
  eq_slice := (Text.cut_append front word rest).symm
  unbroken := hword
  bounded := by
    cases hlast : front.getLast? with
    | none => exact .inl (by rw [List.getLast?_eq_none_iff.1 hlast]; rfl)
    | some c =>
      obtain ⟨front, rfl⟩ := List.getLast?_eq_some_iff.1 hlast
      exact .inr ⟨c, by simp, hfront c hlast⟩

theorem IsWordAt.start_add_length (h : d.IsWordAt stop start word) (hstop : stop ≤ d.length) :
    start + word.length = stop := by
  rw [h.eq_slice, slice, Text.cut, List.length_drop, List.length_take_of_le hstop,
    Nat.add_sub_cancel' h.start_le]

theorem IsWordAt.exists_parts (h : d.IsWordAt stop start word) (hstop : stop ≤ d.length) :
    ∃ front rest, d = ⟨front ++ (word ++ rest)⟩ ∧ start = front.length ∧
      stop = (front ++ word).length ∧ EndsWhite front := by
  have hlength : (d.text.take start).length = start :=
    List.length_take_of_le (Nat.le_trans h.start_le hstop)
  refine ⟨d.text.take start, d.text.drop stop, ?_, hlength.symm, ?_, ?_⟩
  · rw [h.eq_slice, slice, Text.cut_append_drop _ h.start_le, List.take_append_drop]
  · rw [List.length_append, hlength, h.start_add_length hstop]
  · intro c hc
    rw [Option.mem_def, List.getLast?_eq_getElem?, hlength, List.getElem?_take] at hc
    rcases h.bounded with hzero | ⟨c', hc', hwhite⟩
    · rw [hzero] at hc
      cases hc
    · split at hc
      · rwa [Option.some.inj (hc.symm.trans hc')]
      · cases hc

/-- No text without white space that ends at the position is longer. -/
theorem IsWordAt.le_of_unbroken (h : d.IsWordAt stop start word) {start' : Nat}
    (hunbroken : ∀ c ∈ d.slice start' stop, isWhite c = false) : start ≤ start' := by
  by_contra hlt
  rcases h.bounded with hzero | ⟨c, hc, hwhite⟩
  · omega
  · have hle := h.start_le
    have hmem : c ∈ d.slice start' stop := by
      refine List.mem_iff_getElem?.2 ⟨start - 1 - start', ?_⟩
      rw [slice, Text.cut, List.getElem?_drop, List.getElem?_take_of_lt (by omega), ← hc]
      congr 1
      omega
    rw [hunbroken c hmem] at hwhite
    exact Bool.noConfusion hwhite

theorem IsWordAt.unique (h : d.IsWordAt stop start word) {start' : Nat} {word' : Text}
    (h' : d.IsWordAt stop start' word') : start = start' ∧ word = word' := by
  have hstart : start = start' := Nat.le_antisymm
    (h.le_of_unbroken (h'.eq_slice ▸ h'.unbroken)) (h'.le_of_unbroken (h.eq_slice ▸ h.unbroken))
  exact ⟨hstart, by rw [h.eq_slice, h'.eq_slice, hstart]⟩

end Document

/-! ## The word before a position -/

variable {d : Document} {pos start : Nat} {word : Text}

theorem wordBefore_eq (d : Document) (pos : Nat) : wordBefore d pos =
    (min pos d.length - (lastWord (d.slice 0 (min pos d.length))).length,
      lastWord (d.slice 0 (min pos d.length))) := by
  have hsame : d.lineOf (min pos d.length) = d.lineOf pos := by
    rw [Document.lineOf, Document.lineOf, Nat.min_assoc, Nat.min_self]
  rw [wordBefore, hsame, d.lastWord_line pos]

theorem isWordAt_wordBefore (d : Document) (pos : Nat) :
    d.IsWordAt (min pos d.length) (wordBefore d pos).1 (wordBefore d pos).2 := by
  have hstop : (d.text.take (min pos d.length)).length = min pos d.length :=
    List.length_take_of_le (Nat.min_le_right _ _)
  obtain ⟨front, htake, hfront, hword⟩ := exists_lastWord (d.slice 0 (min pos d.length))
  change d.text.take (min pos d.length) = _ at htake
  have hd : d = ⟨front ++ (lastWord (d.slice 0 (min pos d.length)) ++
      d.text.drop (min pos d.length))⟩ := by
    rw [← List.append_assoc, ← htake, List.take_append_drop]
  have h := Document.isWordAt_append hfront hword (d.text.drop (min pos d.length))
  rw [htake, List.length_append] at hstop
  rw [← hd, List.length_append, hstop] at h
  rwa [wordBefore_eq, Nat.sub_eq_of_eq_add hstop.symm]

/-- **The word before a position** is the one that ends there. -/
theorem wordBefore_eq_iff :
    wordBefore d pos = (start, word) ↔ d.IsWordAt (min pos d.length) start word := by
  constructor
  · intro h
    have hword := isWordAt_wordBefore d pos
    rwa [h] at hword
  · intro h
    obtain ⟨hstart, hword⟩ := (isWordAt_wordBefore d pos).unique h
    exact Prod.ext hstart hword

/-- **The offer at a position** is for the word that ends there; for no word it is made on request
only. -/
theorem complete_eq_some_iff {explicit : Bool} {offer : Completion} :
    complete d pos explicit = some offer ↔
      d.IsWordAt (min pos d.length) offer.start offer.word ∧ offer.stop = min pos d.length ∧
        offer.options = Word.vocabulary ∧ (offer.word ≠ [] ∨ explicit = true) := by
  have hlength := (isWordAt_wordBefore d pos).start_add_length (Nat.min_le_right _ _)
  obtain ⟨start', stop, word', options⟩ := offer
  rw [← wordBefore_eq_iff, complete]
  rcases hfound : wordBefore d pos with ⟨start, word⟩
  rw [hfound] at hlength
  simp only at hlength ⊢
  split
  · rename_i hnone
    simp only [Bool.and_eq_true, List.isEmpty_iff, Bool.not_eq_true'] at hnone
    refine iff_of_false (Option.some_ne_none _).symm ?_
    rintro ⟨hword, -, -, hoffered⟩
    obtain ⟨rfl, rfl⟩ := Prod.mk.inj hword
    rcases hoffered with hne | hexplicit
    · exact hne hnone.1
    · exact Bool.noConfusion (hnone.2.symm.trans hexplicit)
  · rename_i hsome
    have hoffered : word ≠ [] ∨ explicit = true := by
      cases explicit <;> simp_all
    constructor
    · intro h
      obtain ⟨rfl, rfl, rfl, rfl⟩ := Completion.mk.inj (Option.some.inj h)
      exact ⟨rfl, hlength, rfl, hoffered⟩
    · rintro ⟨hword, hstop, hoptions, -⟩
      obtain ⟨rfl, rfl⟩ := Prod.mk.inj hword
      rw [hlength, ← hstop, ← hoptions]

/-! ## All together -/

/-- **The word before a position is the longest one that ends there**, in the whole text as in its
line. With no word there, words are offered on request only. -/
theorem wordBefore_maximal (d : Document) (pos : Nat) :
    (∀ start word, wordBefore d pos = (start, word) ↔
      d.IsWordAt (min pos d.length) start word) ∧
    (∀ start, (∀ c ∈ d.slice start (min pos d.length), isWhite c = false) →
      (wordBefore d pos).1 ≤ start) ∧
    wordBefore d pos =
      (min pos d.length - (lastWord (d.slice 0 (min pos d.length))).length,
        lastWord (d.slice 0 (min pos d.length))) ∧
    ∀ explicit, complete d pos explicit = none ↔
      d.slice (wordBefore d pos).1 (min pos d.length) = [] ∧ explicit = false := by
  have hword := isWordAt_wordBefore d pos
  refine ⟨fun _ _ => wordBefore_eq_iff, fun _ => hword.le_of_unbroken, wordBefore_eq d pos,
    fun explicit => ?_⟩
  rw [complete_eq_none_iff, hword.eq_slice]

/-- Between the two characters of a break there is no word. -/
example : wordBefore ⟨"R\r\n<S".toList⟩ 2 = (2, []) := by decide

end QueryEditor
