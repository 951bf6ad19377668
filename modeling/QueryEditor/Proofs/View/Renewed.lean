import Mathlib.Data.Nat.PSub
import QueryEditor.Proofs.Live.Touched
import QueryEditor.Proofs.View.Highlights

/-!
# Highlights renewed with any line numbers

Highlights are renewed with three line numbers that nobody promises to be right. They may belong to
another document or to highlights that were never made. Whatever they are, no entry is replaced that
is not there, and afterwards every line has its entry. Where the numbers fit, only the entries that
they name are made anew, and the others are where their lines are.

In a view the numbers come with the change that was applied. They fit always but in one case: the
change takes out what stood between a carriage return and a line feed.

* `Highlights.splice?`, `Highlights.edit?`: the renewal with every step that may fail;
* `Highlights.getElem?_edit_front`, `getElem?_edit_fresh`, `getElem?_edit_behind`: the entries;
* `Highlights.edit?_eq_some`: no step fails;
* `Highlights.Renews`: what a renewal does, `View.misfit_iff`: when a view reads everything;
* **`View.renewed_run`**: all renewals, and those of every view that a run of actions leads to.
-/

namespace QueryEditor

namespace Highlights

variable {h : Highlights} {d : Document} {first oldLast newLast line : Nat}

/-! ## Steps that may fail -/

/-- The entries from `first` to `last` replaced, if all of them are there. -/
def splice? (h : Highlights) (first last : Nat) (new : Highlights) : Option Highlights :=
  if first ≤ last + 1 ∧ last + 1 ≤ h.length then
    some (h.take first ++ new ++ h.drop (last + 1))
  else none

/-- The lines from `first` to `last` read one by one, a missing one as if it were empty. -/
def read (d : Document) (first last : Nat) : Highlights :=
  (List.range' first (last + 1 - first)).map fun line => highlight ((d.line? line).getD [])

/-- The highlights after a change, and the number of lines that were read, if all entries that are
replaced are there. A difference below zero is no count of lines. -/
def edit? (h : Highlights) (d : Document) (first oldLast newLast : Nat) :
    Option (Highlights × Nat) :=
  if h.length ≤ oldLast ∨ oldLast < first ∨ newLast < first ∨
      (h.length + newLast).psub oldLast ≠ some d.lineCount then
    some (of d, d.lineCount)
  else
    (h.splice? first oldLast (read d first newLast)).map fun after =>
      (after, (read d first newLast).length)

theorem misfit_iff : h.misfit d first oldLast newLast = true ↔
    h.length ≤ oldLast ∨ oldLast < first ∨ newLast < first ∨
      (h.length + newLast).psub oldLast ≠ some d.lineCount := by
  simp only [misfit, Bool.or_eq_true, decide_eq_true_eq, ne_eq, Nat.psub_eq_some, or_assoc,
    eq_comm (a := h.length + newLast)]

theorem line?_eq_getElem? (d : Document) (line : Nat) : d.line? line = d.lineTexts[line]? := by
  rw [Document.line?, Document.lineTexts, List.getElem?_map]

theorem read_eq_fresh (hfirst : first ≤ newLast) (hlast : newLast < d.lineCount) :
    read d first newLast = fresh d first newLast := by
  refine List.ext_getElem? fun i => ?_
  rw [read, fresh, List.getElem?_map, List.getElem?_map, List.getElem?_take, List.getElem?_drop]
  by_cases hi : i < newLast + 1 - first
  · have hline : first + i < d.lineTexts.length := by
      rw [Document.length_lineTexts]
      omega
    rw [List.getElem?_range' hi, if_pos (by omega), Nat.one_mul, Option.map_some,
      line?_eq_getElem?, List.getElem?_eq_getElem hline]
    rfl
  · have hnone : (List.range' first (newLast + 1 - first))[i]? = none :=
      List.getElem?_eq_none (by simpa using hi)
    rw [hnone, if_neg (by omega)]
    rfl

theorem length_fresh (hlast : newLast < d.lineCount) (hfirst : first ≤ newLast) :
    (fresh d first newLast).length = newLast - first + 1 := by
  rw [← read_eq_fresh hfirst hlast, read, List.length_map, List.length_range']
  omega

/-! ## Line numbers that fit -/

section Fits

variable (hfits : h.misfit d first oldLast newLast = false)
include hfits

theorem newLast_lt : newLast < d.lineCount := by
  have := misfit_eq_false_iff.1 hfits
  omega

theorem edit_of_fits : h.edit d first oldLast newLast =
    (h.take first ++ fresh d first newLast ++ h.drop (oldLast + 1), newLast - first + 1) := by
  rw [edit, if_neg (Bool.eq_false_iff.1 hfits)]

theorem splice?_of_fits : h.splice? first oldLast (read d first newLast) =
    some (h.take first ++ fresh d first newLast ++ h.drop (oldLast + 1)) := by
  obtain ⟨hold, hfirst, hnew, -⟩ := misfit_eq_false_iff.1 hfits
  rw [splice?, if_pos ⟨Nat.le_succ_of_le hfirst, hold⟩, read_eq_fresh hnew (newLast_lt hfits)]

theorem length_take_first : (h.take first).length = first := by
  obtain ⟨hold, hfirst, -⟩ := misfit_eq_false_iff.1 hfits
  exact List.length_take_of_le (by omega)

theorem length_take_append_fresh : (h.take first ++ fresh d first newLast).length = newLast + 1 := by
  obtain ⟨-, -, hnew, -⟩ := misfit_eq_false_iff.1 hfits
  rw [List.length_append, length_take_first hfits, length_fresh (newLast_lt hfits) hnew]
  omega

theorem getElem?_edit_front (hline : line < first) :
    (h.edit d first oldLast newLast).1[line]? = h[line]? := by
  have hin : line < (h.take first).length := by rwa [length_take_first hfits]
  rw [edit_of_fits hfits, List.append_assoc, List.getElem?_append_left hin, List.getElem?_take,
    if_pos hline]

theorem getElem?_edit_fresh (hfirst : first ≤ line) (hlast : line ≤ newLast) :
    (h.edit d first oldLast newLast).1[line]? = (d.line? line).map highlight := by
  have hin : line < (h.take first ++ fresh d first newLast).length := by
    rw [length_take_append_fresh hfits]
    omega
  have hbehind : (h.take first).length ≤ line := by rwa [length_take_first hfits]
  rw [edit_of_fits hfits, List.getElem?_append_left hin, List.getElem?_append_right hbehind,
    length_take_first hfits, fresh, List.getElem?_map, List.getElem?_take, if_pos (by omega),
    List.getElem?_drop, Nat.add_sub_cancel' hfirst, line?_eq_getElem?]

theorem getElem?_edit_behind (hline : oldLast < line) :
    (h.edit d first oldLast newLast).1[line + newLast - oldLast]? = h[line]? := by
  have hbehind : (h.take first ++ fresh d first newLast).length ≤ line + newLast - oldLast := by
    rw [length_take_append_fresh hfits]
    omega
  have hindex : oldLast + 1 + (line + newLast - oldLast - (newLast + 1)) = line := by omega
  rw [edit_of_fits hfits, List.getElem?_append_right hbehind, length_take_append_fresh hfits,
    List.getElem?_drop, hindex]

end Fits

/-! ## Every renewal -/

/-- **No step of a renewal fails**, whatever the line numbers. -/
theorem edit?_eq_some (h : Highlights) (d : Document) (first oldLast newLast : Nat) :
    h.edit? d first oldLast newLast = some (h.edit d first oldLast newLast) := by
  rw [edit?]
  by_cases hmisfit : h.misfit d first oldLast newLast = true
  · rw [if_pos (misfit_iff.1 hmisfit), edit, if_pos hmisfit]
  · have hfits := Bool.eq_false_iff.2 hmisfit
    obtain ⟨-, -, hnew, -⟩ := misfit_eq_false_iff.1 hfits
    have hlength : (read d first newLast).length = newLast - first + 1 := by
      rw [read_eq_fresh hnew (newLast_lt hfits), length_fresh (newLast_lt hfits) hnew]
    rw [if_neg (mt misfit_iff.2 hmisfit), edit_of_fits hfits, hlength, splice?_of_fits hfits,
      Option.map_some]

/-- What a renewal does, whether or not the line numbers belong to the highlights and the
document. -/
structure Renews (h : Highlights) (d : Document) (first oldLast newLast : Nat) : Prop where
  /-- No entry is replaced that is not there. -/
  safe : h.edit? d first oldLast newLast = some (h.edit d first oldLast newLast)
  length : (h.edit d first oldLast newLast).1.length = d.lineCount
  anew : h.misfit d first oldLast newLast = true →
    h.edit d first oldLast newLast = (of d, d.lineCount)
  count : h.misfit d first oldLast newLast = false →
    (h.edit d first oldLast newLast).2 = newLast - first + 1
  front : h.misfit d first oldLast newLast = false → ∀ line < first,
    (h.edit d first oldLast newLast).1[line]? = h[line]?
  fresh : h.misfit d first oldLast newLast = false → ∀ line, first ≤ line → line ≤ newLast →
    line < d.lineCount ∧
      (h.edit d first oldLast newLast).1[line]? = (d.line? line).map highlight
  /-- Entries behind the lines that were read move with their lines. -/
  behind : h.misfit d first oldLast newLast = false → ∀ line, oldLast < line →
    (h.edit d first oldLast newLast).1[line + newLast - oldLast]? = h[line]?

/-- **Every renewal is safe**, and where the line numbers fit it touches no other entry. -/
theorem renews (h : Highlights) (d : Document) (first oldLast newLast : Nat) :
    Renews h d first oldLast newLast where
  safe := edit?_eq_some h d first oldLast newLast
  length := length_edit h d first oldLast newLast
  anew hmisfit := by rw [edit, if_pos hmisfit]
  count hfits := by rw [edit_of_fits hfits]
  front hfits _ hline := getElem?_edit_front hfits hline
  fresh hfits _ hfirst hlast :=
    ⟨Nat.lt_of_le_of_lt hlast (newLast_lt hfits), getElem?_edit_fresh hfits hfirst hlast⟩
  behind hfits _ hline := getElem?_edit_behind hfits hline

end Highlights

/-! ## Views -/

namespace View

variable {v : View} {e : Edit} {a : Applied}

theorem highlights_edit (ha : (v.live.step e).2.applied = some a) :
    (v.edit e).1.highlights =
      (v.highlights.edit (v.edit e).1.doc a.firstLine a.oldLastLine a.newLastLine).1 := by
  simp only [edit, ha, doc]

/-- **A view reads everything again** only where the first line touched is behind the last one. -/
theorem misfit_iff (h : v.Coherent) {origin : Origin} {c : Change}
    (happly : v.live.Applies origin c (v.live.step e))
    (ha : (v.live.step e).2.applied = some a) :
    v.highlights.misfit (v.edit e).1.doc a.firstLine a.oldLastLine a.newLastLine = true ↔
      a.newLastLine < a.firstLine := by
  have hdescribes := happly.describes ha
  have hold := hdescribes.old_lt
  have hcount := hdescribes.length
  rw [Document.length_lineTexts] at hold
  rw [Document.length_lineTexts, Document.length_lineTexts] at hcount
  have hlength : v.highlights.length = v.live.doc.lineCount := by
    rw [h, Highlights.length_of]
    rfl
  have hfits : v.highlights.misfit (v.edit e).1.doc a.firstLine a.oldLastLine a.newLastLine =
      false ↔ a.firstLine ≤ a.newLastLine := by
    rw [Highlights.misfit_eq_false_iff, hlength, doc, live_edit]
    exact ⟨fun hfits => hfits.2.2.1,
      fun hnew => ⟨hold, hdescribes.first_le_old, hnew, hcount.symm⟩⟩
  rw [← Bool.not_eq_false, hfits, Nat.not_le]

/-- **Highlights are renewed safely and sparingly.** No renewal replaces entries that are not there,
whatever the highlights, the document and the line numbers, and where these fit only the lines that
they name are read. In every view that a run of actions leads to they fit, unless the change joined
a carriage return and a line feed from its two sides. -/
theorem renewed_run :
    (∀ h d first oldLast newLast, Highlights.Renews h d first oldLast newLast) ∧
      ∀ settings value listener actions e,
        let v := ((ofText settings value listener).run actions).1
        let after := (v.edit e).1
        ∀ a, (v.edit e).2.applied = some a →
          after.highlights =
              (v.highlights.edit after.doc a.firstLine a.oldLastLine a.newLastLine).1 ∧
            (v.highlights.misfit after.doc a.firstLine a.oldLastLine a.newLastLine = true ↔
              a.newLastLine < a.firstLine) ∧
            ∃ c, v.live.Applies a.origin c (v.live.step e) ∧
              (a.newLastLine < a.firstLine ↔ c.Joins v.text) := by
  refine ⟨Highlights.renews, fun settings value listener actions e => ?_⟩
  intro v after a ha
  rw [outcome_edit] at ha
  have hcoherent : v.Coherent := coherent_run (coherent_ofText settings value listener) actions
  rcases v.live.step_cases e with hkeep | ⟨origin, c, happly⟩
  · rw [hkeep.outcome] at ha
    cases ha
  · have hnamed := happly.applied
    rw [ha, Option.some.injEq] at hnamed
    refine ⟨highlights_edit ha, misfit_iff hcoherent happly ha, c, ?_, ?_⟩
    · rw [hnamed]
      exact happly
    · rw [hnamed]
      exact Document.lt_lineOf_start_iff happly.inside

/-- Deleting the letter between a carriage return and a line feed makes a view read all its lines
again. -/
theorem renewed_run_joining :
    let v := ((ofText {} ['a', '\r', 'x', '\n', 'b'] none).run []).1
    let e := Edit.change (.deletion 2 3)
    let a : Applied := ⟨.localEdit, 1, 1, 0, 1⟩
    let after := (v.edit e).1
    (v.edit e).2.applied = some a ∧
      v.highlights.misfit after.doc a.firstLine a.oldLastLine a.newLastLine = true ∧
      ∃ c, v.live.Applies a.origin c (v.live.step e) ∧ c.Joins v.text := by
  intro v e a after
  have ha : (v.edit e).2.applied = some a := by decide
  obtain ⟨-, hmisfit, c, happly, hjoins⟩ := renewed_run.2 {} _ none [] e a ha
  exact ⟨ha, hmisfit.2 (by decide), c, happly, hjoins.1 (by decide)⟩

end View

end QueryEditor
