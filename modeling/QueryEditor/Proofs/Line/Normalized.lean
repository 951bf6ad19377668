import QueryEditor.Proofs.Line.Joined
import QueryEditor.Proofs.Text.Normalized

/-!
# Lines in plain punctuation

No full-width form and no plain form is a character of a break, so a text in plain punctuation falls
into the lines of the text, each in plain punctuation and with the break that it had. Every line
starts and ends where it did.

* `Line.normalized`, `linesOf_normalize`: lines in plain punctuation;
* `Document.BrokenAlike`: two documents with their breaks at the same positions;
* **`Document.brokenAlike_normalize`**: normalizing leaves all breaks where they are.
-/

namespace QueryEditor

/-- The line in plain punctuation, with its break. -/
def Line.normalized (l : Line) : Line := ⟨normalize l.text, l.ending⟩

theorem Line.width_normalized (l : Line) : l.normalized.width = l.width := by
  simp [Line.width, Line.full, Line.normalized, Line.breakText, length_normalize]

theorem Line.push_normalized (c : Char) (ls : List Line) :
    Line.push (halfWidth c) (ls.map Line.normalized) = (Line.push c ls).map Line.normalized := by
  cases ls <;> rfl

/-- **The lines of a text in plain punctuation** are its lines in plain punctuation. -/
theorem linesOf_normalize (t : Text) :
    linesOf (normalize t) = (linesOf t).map Line.normalized := by
  have hfeed : ∀ c, halfWidth c = '\n' ↔ c = '\n' := halfWidth_eq_iff (by decide)
  have hreturn : ∀ c, halfWidth c = '\r' ↔ c = '\r' := halfWidth_eq_iff (by decide)
  have hcons : ∀ c r, normalize (c :: r) = halfWidth c :: normalize r := fun _ _ => rfl
  fun_induction linesOf t with
  | case1 => rfl
  | case2 r ih =>
    rw [hcons, hcons, (hreturn _).2 rfl, (hfeed _).2 rfl, linesOf_both, ih]
    rfl
  | case3 r _ ih =>
    rw [hcons, (hfeed _).2 rfl, linesOf_lineFeed, ih]
    rfl
  | case4 r hr _ ih =>
    have hnext : (normalize r).head? ≠ some '\n' := by
      rw [Ne, head?_normalize_eq_some_iff (by decide)]
      cases r with
      | nil => exact (Option.some_ne_none _).symm
      | cons c r => exact fun e => hr r rfl (by simpa using e)
    rw [hcons, (hreturn _).2 rfl, linesOf_carriageReturn hnext, ih]
    rfl
  | case5 c r _ hn hr ih =>
    rw [hcons, linesOf_push _ (mt (hfeed c).1 hn) (mt (hreturn c).1 hr), ih, Line.push_normalized]

namespace Document

/-- The two documents have as many characters and the same breaks at the same positions. -/
structure BrokenAlike (d d' : Document) : Prop where
  length : d.length = d'.length
  lineFeed : ∀ i : Nat, d.text[i]? = some '\n' ↔ d'.text[i]? = some '\n'
  carriageReturn : ∀ i : Nat, d.text[i]? = some '\r' ↔ d'.text[i]? = some '\r'
  endings : d.lines.map Line.ending = d'.lines.map Line.ending
  start : ∀ n, d.lineStart n = d'.lineStart n
  stop : ∀ n, d.lineEnd n = d'.lineEnd n

theorem getElem?_normalize_eq_some_iff {c : Char}
    (hc : ∀ p ∈ fullWidthForms, p.1 ≠ c ∧ p.2 ≠ c) (t : Text) (i : Nat) :
    (normalize t)[i]? = some c ↔ t[i]? = some c := by
  simp only [normalize, List.getElem?_map, Option.map_eq_some_iff, halfWidth_eq_iff hc,
    exists_eq_right]

theorem lineStart_normalize (t : Text) (n : Nat) :
    lineStart ⟨normalize t⟩ n = lineStart ⟨t⟩ n := by
  have hwidth : Line.width ∘ Line.normalized = Line.width := funext Line.width_normalized
  simp only [lineStart, lines, linesOf_normalize, ← List.map_take, List.map_map, hwidth]

theorem lineLength_normalize (t : Text) (n : Nat) :
    lineLength ⟨normalize t⟩ n = lineLength ⟨t⟩ n := by
  have hlength : List.length ∘ Line.text ∘ Line.normalized = List.length ∘ Line.text :=
    funext fun l => length_normalize l.text
  simp only [lineLength, line?, lines, linesOf_normalize, List.getElem?_map, Option.map_map,
    hlength]

/-- **Normalizing leaves every break where it is.** -/
theorem brokenAlike_normalize (t : Text) : BrokenAlike ⟨normalize t⟩ ⟨t⟩ where
  length := length_normalize t
  lineFeed := getElem?_normalize_eq_some_iff (by decide) t
  carriageReturn := getElem?_normalize_eq_some_iff (by decide) t
  endings := by
    simp only [lines, linesOf_normalize, List.map_map]
    rfl
  start := lineStart_normalize t
  stop n := by rw [lineEnd, lineEnd, lineStart_normalize, lineLength_normalize]

end Document

end QueryEditor
