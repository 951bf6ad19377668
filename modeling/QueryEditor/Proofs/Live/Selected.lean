import QueryEditor.Proofs.Edit.Positions
import QueryEditor.Proofs.Live.Accounts

/-!
# The selection of a live document

The ends of the selection are positions of the text: they are brought inside it when they are
placed, and a change maps positions of the text to positions of the new one, in order. So the
selection cuts the text in three, what is in front of it, what is selected and what is behind it.
Typing writes between the first and the last part, and so does deleting, which writes nothing.

* `Selection.Inside`, `Selection.KeepsOrder`: the ends against a text, and against each other;
* `LiveDocument.InBounds`: the selection lies inside the text; `inBounds_step`, `inBounds_run`;
* `LiveDocument.Selects`: the three parts of a text at its selection;
* `LiveDocument.Writes`: an operation that wrote between two parts and put the cursor behind it;
* **`insertText_writes`**, **`deleteBackward_selected`**, **`deleteBackward_cursor`**;
* **`LiveDocument.selection_run`**: what holds of the selection after every run.
-/

namespace QueryEditor

namespace Selection

def Inside (s : Selection) (length : Nat) : Prop := s.anchor ≤ length ∧ s.head ≤ length

/-- The ends of `after` do not lie the other way round than those of `s`; they may meet. -/
structure KeepsOrder (s after : Selection) : Prop where
  forward : s.anchor ≤ s.head → after.anchor ≤ after.head
  backward : s.head ≤ s.anchor → after.head ≤ after.anchor

variable {s : Selection} {c : Change} {length : Nat}

theorem clamp_inside (s : Selection) (length : Nat) : (s.clamp length).Inside length :=
  ⟨Nat.min_le_right _ _, Nat.min_le_right _ _⟩

theorem clamp_of_inside (h : s.Inside length) : s.clamp length = s := by
  rw [clamp, Nat.min_eq_left h.1, Nat.min_eq_left h.2]

theorem keepsOrder_refl (s : Selection) : s.KeepsOrder s := ⟨id, id⟩

theorem keepsOrder_cursor (s : Selection) (pos : Nat) : s.KeepsOrder (.cursor pos) :=
  ⟨fun _ => Nat.le_refl _, fun _ => Nat.le_refl _⟩

theorem keepsOrder_map (h : c.start ≤ c.stop) : s.KeepsOrder (s.map c) :=
  ⟨Change.mapPos_mono h, Change.mapPos_mono h⟩

theorem map_inside {d : Document} (hc : c.Inside d.length) (h : s.Inside d.length) :
    (s.map c).Inside (d.replace c).length := by
  rw [← Document.mapPos_length hc]
  exact ⟨Change.mapPos_mono hc.1 h.1, Change.mapPos_mono hc.1 h.2⟩

theorem range_inside (h : s.Inside length) : s.range.1 ≤ s.range.2 ∧ s.range.2 ≤ length := by
  obtain ⟨hanchor, hhead⟩ := h
  simp only [range]
  omega

theorem map_deletion {start stop : Nat} (h : start < stop)
    (hanchor : s.anchor = start ∨ s.anchor = stop) (hhead : s.head = start ∨ s.head = stop) :
    s.map (.deletion start stop) = .cursor start := by
  have hfirst : (Change.deletion start stop).mapPos start = start := Change.mapPos_start h
  have hlast : (Change.deletion start stop).mapPos stop = start := by
    have hmapped := Change.mapPos_of_le (c := .deletion start stop) (Nat.le_of_lt h) (Nat.le_refl _)
    simpa [Change.deletion, Change.newLength] using hmapped
  rw [map, cursor]
  rcases hanchor with e | e <;> rcases hhead with e' | e' <;> simp only [e, e', hfirst, hlast]

end Selection

theorem Document.replace_between (front out new rest : Text) :
    replace ⟨front ++ out ++ rest⟩ ⟨front.length, (front ++ out).length, new⟩ =
      ⟨front ++ new ++ rest⟩ := by
  have hinside : (Change.mk front.length (front ++ out).length new).Inside
      (front ++ out ++ rest).length := by
    simp only [Change.Inside, List.length_append]
    omega
  rw [replace_eq hinside, Text.splice, List.drop_left, List.append_assoc front out,
    List.take_left]

namespace LiveDocument

variable {d : LiveDocument} {front out new rest : Text}

/-! ## The selection lies inside the text -/

def InBounds (d : LiveDocument) : Prop := d.selection.Inside d.doc.length

theorem apply_of_not_isEmpty {c : Change} (h : (c.clamp d.doc.length).isEmpty = false)
    (origin : Origin) : ∃ outcome, outcome.applied.isSome = true ∧
      d.apply origin c =
        ({ d with
          doc := d.doc.replace (c.clamp d.doc.length)
          selection := d.selection.map (c.clamp d.doc.length)
          revision := d.revision + 1 }, outcome) := by
  refine ⟨(d.apply origin c).2, ?_, ?_⟩
  · simp only [apply, h]
    rfl
  · simp only [apply, h]
    rfl

theorem selection_apply_cases (d : LiveDocument) (origin : Origin) (c : Change) :
    d.apply origin c = (d, .unchanged) ∨ ∃ c', c'.Inside d.doc.length ∧
      (d.apply origin c).1.doc = d.doc.replace c' ∧
      (d.apply origin c).1.selection = d.selection.map c' := by
  cases h : (c.clamp d.doc.length).isEmpty with
  | true => exact .inl (apply_of_isEmpty h origin)
  | false =>
    obtain ⟨outcome, -, happly⟩ := apply_of_not_isEmpty h origin
    rw [happly]
    exact .inr ⟨c.clamp d.doc.length, c.clamp_inside d.doc.length, rfl, rfl⟩

/-- Where an operation that answers leaves the selection: as it was, mapped by the change that was
applied, or as a plain cursor. -/
theorem selection_step_cases (d : LiveDocument) {e : Edit} (he : e.isAnswered = true) :
    d.step e = (d, .unchanged) ∨
    (∃ c, c.Inside d.doc.length ∧ (d.step e).1.doc = d.doc.replace c ∧
      (d.step e).1.selection = d.selection.map c) ∨
    ∃ pos, (d.step e).1.selection = (Selection.cursor pos).clamp (d.step e).1.doc.length := by
  cases e with
  | change c => exact (selection_apply_cases d .localEdit c).imp_right .inl
  | push value =>
    simp only [step, push]
    split
    · exact .inl rfl
    · exact (selection_apply_cases d .external _).imp_right .inl
  | insert new =>
    simp only [step, insertText]
    split
    · exact .inr (.inr ⟨d.selection.range.1 + new.length, rfl⟩)
    · exact (selection_apply_cases d .localEdit _).imp_right .inl
  | backspace =>
    simp only [step, deleteBackward]
    split
    · exact (selection_apply_cases d .localEdit _).imp_right .inl
    · split
      · exact .inl rfl
      · exact (selection_apply_cases d .localEdit _).imp_right .inl
  | select s => cases he

theorem inBounds_ofText (first : Text) (listener : Option Listener) :
    ((ofText first).listen listener).InBounds := ⟨Nat.zero_le _, Nat.zero_le _⟩

theorem inBounds_step (h : d.InBounds) (e : Edit) : (d.step e).1.InBounds := by
  cases he : e.isAnswered with
  | true =>
    rcases selection_step_cases d he with hsame | ⟨c, hinside, hdoc, hmap⟩ | ⟨pos, hcursor⟩
    · rwa [hsame]
    · rw [InBounds, hdoc, hmap]
      exact Selection.map_inside hinside h
    · rw [InBounds, hcursor]
      exact Selection.clamp_inside _ _
  | false =>
    cases e with
    | select s => exact s.clamp_inside d.doc.length
    | change c | push value | insert new | backspace => cases he

theorem keepsOrder_step (d : LiveDocument) {e : Edit} (he : e.isAnswered = true) :
    d.selection.KeepsOrder (d.step e).1.selection := by
  rcases selection_step_cases d he with hsame | ⟨c, hinside, -, hmap⟩ | ⟨pos, hcursor⟩
  · rw [hsame]
    exact Selection.keepsOrder_refl _
  · rw [hmap]
    exact Selection.keepsOrder_map hinside.1
  · rw [hcursor]
    exact Selection.keepsOrder_cursor _ _

theorem inBounds_run (h : d.InBounds) (events : List Event) : (d.run events).1.InBounds := by
  induction events generalizing d with
  | nil => exact h
  | cons e events ih =>
    refine ih ?_
    cases e with
    | edit e => exact inBounds_step h e
    | listen l => exact h

/-! ## The three parts of a text -/

/-- The selection has `front` in front of it and `rest` behind it, and `out` is selected. -/
structure Selects (d : LiveDocument) (front out rest : Text) : Prop where
  text : d.text = front ++ out ++ rest
  range : d.selection.range = (front.length, (front ++ out).length)

/-- What a deletion leaves in front of the cursor: `front`, or if nothing is selected all of it but
its last character. -/
def keptInFront (front out : Text) : Text := if out = [] then front.dropLast else front

/-- The answer `r` to an operation on `d` that wrote `new` between `front` and `rest`, with the
cursor right behind it. -/
structure Writes (d : LiveDocument) (front new rest : Text) (r : LiveDocument × Outcome) :
    Prop where
  text : r.1.text = front ++ new ++ rest
  selection : r.1.selection = .cursor (front ++ new).length
  revision : r.1.revision = d.revision + 1
  applied : r.2.applied.isSome = true

theorem InBounds.selects (h : d.InBounds) : d.Selects (d.text.take d.selection.range.1)
    (d.text.cut d.selection.range.1 d.selection.range.2) (d.text.drop d.selection.range.2) := by
  obtain ⟨hle, hstop⟩ := Selection.range_inside h
  have hfront : (d.text.take d.selection.range.1).length = d.selection.range.1 :=
    List.length_take_of_le (Nat.le_trans hle hstop)
  have hcut : (d.text.cut d.selection.range.1 d.selection.range.2).length =
      d.selection.range.2 - d.selection.range.1 := by
    have htake : (d.text.take d.selection.range.2).length = d.selection.range.2 :=
      List.length_take_of_le hstop
    rw [Text.cut, List.length_drop, htake]
  constructor
  · rw [List.append_assoc, Text.cut_append_drop _ hle, List.take_append_drop]
  · rw [List.length_append, hfront, hcut, Nat.add_sub_cancel' hle]

section Parts

variable (h : d.Selects front out rest)
include h

theorem Selects.start_eq : d.selection.range.1 = front.length := by rw [h.range]

theorem Selects.stop_eq : d.selection.range.2 = (front ++ out).length := by rw [h.range]

theorem Selects.take : d.text.take d.selection.range.1 = front := by
  rw [h.start_eq, h.text, List.append_assoc, List.take_left]

theorem Selects.drop : d.text.drop d.selection.range.2 = rest := by
  rw [h.stop_eq, h.text, List.drop_left]

theorem Selects.lt_iff : d.selection.range.1 < d.selection.range.2 ↔ out ≠ [] := by
  rw [h.start_eq, h.stop_eq, List.length_append, ← List.length_pos_iff]
  omega

end Parts

theorem Selects.selection_eq (h : d.Selects front [] rest) :
    d.selection = .cursor front.length := by
  have hrange := h.range
  simp only [Selection.range, Prod.mk.injEq, List.append_nil] at hrange
  have hanchor : d.selection.anchor = front.length := by omega
  have hhead : d.selection.head = front.length := by omega
  calc d.selection
    _ = ⟨d.selection.anchor, d.selection.head⟩ := rfl
    _ = .cursor front.length := by rw [hanchor, hhead, Selection.cursor]

theorem Writes.selects {r : LiveDocument × Outcome} (h : d.Writes front new rest r) :
    r.1.Selects (front ++ new) [] rest := by
  constructor
  · rw [List.append_nil, h.text]
  · rw [h.selection, List.append_nil]
    simp [Selection.range, Selection.cursor]

theorem dispatch_between (htext : d.text = front ++ out ++ rest) (new : Text)
    (hne : out ≠ [] ∨ new ≠ []) :
    ∃ outcome, outcome.applied.isSome = true ∧
      d.dispatch ⟨front.length, (front ++ out).length, new⟩ =
        ({ d with
          doc := ⟨front ++ new ++ rest⟩
          selection := d.selection.map ⟨front.length, (front ++ out).length, new⟩
          revision := d.revision + 1 }, outcome) := by
  have hdoc : d.doc = ⟨front ++ out ++ rest⟩ := congrArg Document.mk htext
  have hclamp : (Change.mk front.length (front ++ out).length new).clamp d.doc.length =
      ⟨front.length, (front ++ out).length, new⟩ := by
    rw [hdoc]
    refine Change.clamp_of_inside ?_
    simp only [Change.Inside, Document.length, List.length_append]
    omega
  have hempty : (Change.mk front.length (front ++ out).length new).isEmpty = false := by
    rcases hne with hout | hnew
    · have : 0 < out.length := List.length_pos_iff.2 hout
      simp only [Change.isEmpty, List.length_append, Bool.and_eq_false_iff,
        decide_eq_false_iff_not]
      omega
    · simp [Change.isEmpty, hnew]
  have happly := apply_of_not_isEmpty (hclamp.symm ▸ hempty) .localEdit
  rw [hclamp, hdoc, Document.replace_between] at happly
  exact happly

/-! ## Typing and deleting -/

/-- **Typing writes over the selection.** -/
theorem insertText_writes (h : d.Selects front out rest) (hne : out ≠ [] ∨ new ≠ []) :
    d.Writes front new rest (d.insertText new) := by
  obtain ⟨outcome, happlied, hdispatch⟩ := dispatch_between h.text new hne
  simp only [insertText, h.range, hdispatch, happlied, if_true]
  refine ⟨rfl, ?_, rfl, happlied⟩
  have hinside : (front ++ new).length ≤ (front ++ new ++ rest).length := by simp
  rw [← List.length_append]
  exact Selection.clamp_of_inside ⟨hinside, hinside⟩

theorem insertText_nil (h : d.Selects front [] rest) : d.insertText [] = (d, .unchanged) := by
  have hrange := h.range
  rw [List.append_nil] at hrange
  have hdispatch : d.dispatch ⟨front.length, front.length, []⟩ = (d, .unchanged) := by
    refine apply_of_isEmpty ?_ _
    simp [Change.clamp, Change.isEmpty]
  simp only [insertText, hrange, hdispatch, Outcome.unchanged]
  rfl

theorem writes_deletion (htext : d.text = front ++ out ++ rest) (hout : out ≠ [])
    (hanchor : d.selection.anchor = front.length ∨ d.selection.anchor = (front ++ out).length)
    (hhead : d.selection.head = front.length ∨ d.selection.head = (front ++ out).length) :
    d.Writes front [] rest (d.dispatch (.deletion front.length (front ++ out).length)) := by
  have hlt : front.length < (front ++ out).length := by
    have : 0 < out.length := List.length_pos_iff.2 hout
    rw [List.length_append]
    omega
  obtain ⟨outcome, happlied, hdispatch⟩ := dispatch_between htext [] (.inl hout)
  rw [Change.deletion, hdispatch]
  refine ⟨rfl, ?_, rfl, happlied⟩
  rw [List.append_nil]
  exact Selection.map_deletion hlt hanchor hhead

/-- **Deleting a selection** writes nothing in its place. -/
theorem deleteBackward_selected (h : d.Selects front out rest) (hout : out ≠ []) :
    d.Writes front [] rest d.deleteBackward := by
  have hne : front.length ≠ (front ++ out).length := by
    have : 0 < out.length := List.length_pos_iff.2 hout
    rw [List.length_append]
    omega
  have hends := h.range
  simp only [Selection.range, Prod.mk.injEq] at hends
  simp only [deleteBackward, h.range, if_pos hne]
  exact writes_deletion h.text hout (by omega) (by omega)

/-- **Deleting at a plain cursor** takes out the character in front of it. -/
theorem deleteBackward_cursor {x : Char} (h : d.Selects (front ++ [x]) [] rest) :
    d.Writes front [] rest d.deleteBackward := by
  have htext : d.text = front ++ [x] ++ rest := by rw [h.text, List.append_nil]
  have hrange : d.selection.range = ((front ++ [x]).length, (front ++ [x]).length) := by
    rw [h.range, List.append_nil]
  have hlength : (front ++ [x]).length = front.length + 1 := by simp
  have hsub : (front ++ [x]).length - 1 = front.length := by omega
  have hpos : (front ++ [x]).length ≠ 0 := by omega
  simp only [deleteBackward, hrange, ne_eq, not_true_eq_false, if_false, if_neg hpos, hsub]
  have hanchor : d.selection.anchor = (front ++ [x]).length :=
    congrArg Selection.anchor h.selection_eq
  have hhead : d.selection.head = (front ++ [x]).length := congrArg Selection.head h.selection_eq
  exact writes_deletion htext (List.cons_ne_nil x []) (.inr hanchor) (.inr hhead)

theorem deleteBackward_start (h : d.Selects [] [] rest) : d.deleteBackward = (d, .unchanged) := by
  have hrange : d.selection.range = (0, 0) := h.range
  simp only [deleteBackward, hrange]
  rfl

theorem Selects.insertText (h : d.Selects front out rest) (new : Text) :
    ((d.insertText new).2.applied.isSome = true ↔ out ≠ [] ∨ new ≠ []) ∧
      (d.insertText new).1.text = front ++ new ++ rest ∧
      (d.insertText new).1.selection = .cursor (front ++ new).length := by
  by_cases hne : out ≠ [] ∨ new ≠ []
  · have hwrites := insertText_writes h hne
    exact ⟨iff_of_true hwrites.applied hne, hwrites.text, hwrites.selection⟩
  · simp only [not_or, ne_eq, Decidable.not_not] at hne
    obtain ⟨rfl, rfl⟩ := hne
    rw [insertText_nil h]
    refine ⟨by simp [Outcome.unchanged], h.text, ?_⟩
    rw [List.append_nil]
    exact h.selection_eq

theorem Selects.deleteBackward (h : d.Selects front out rest) :
    (d.deleteBackward.2.applied.isSome = true ↔ front ++ out ≠ []) ∧
      d.deleteBackward.1.text = keptInFront front out ++ rest ∧
      d.deleteBackward.1.selection = .cursor (keptInFront front out).length := by
  by_cases hout : out = []
  · subst hout
    rcases List.eq_nil_or_concat front with rfl | ⟨first, x, rfl⟩
    · rw [deleteBackward_start h]
      exact ⟨by simp [Outcome.unchanged], h.text, h.selection_eq⟩
    · rw [List.concat_eq_append] at h
      have hwrites := deleteBackward_cursor h
      have hkept : keptInFront (first.concat x) [] = first ++ [] := by simp [keptInFront]
      rw [hkept]
      exact ⟨iff_of_true hwrites.applied (by simp), hwrites.text, hwrites.selection⟩
  · have hwrites := deleteBackward_selected h hout
    have hkept : keptInFront front out = front ++ [] := by simp [keptInFront, hout]
    rw [hkept]
    exact ⟨iff_of_true hwrites.applied (by simp [hout]), hwrites.text, hwrites.selection⟩

theorem Selects.take_kept (h : d.Selects front out rest) :
    let start := d.selection.range.1
    let kept := if start < d.selection.range.2 then start else start - 1
    d.text.take kept = keptInFront front out ∧ (keptInFront front out).length = kept := by
  intro start kept
  have htake : d.text.take start = front := h.take
  have hstart : start = front.length := h.start_eq
  by_cases hout : out = []
  · have hkept : kept = front.length - 1 := by
      rw [← hstart]
      exact if_neg fun hlt => h.lt_iff.1 hlt hout
    have hle : kept ≤ start := by omega
    rw [keptInFront, if_pos hout]
    constructor
    · calc d.text.take kept
        _ = (d.text.take start).take kept := by rw [List.take_take, Nat.min_eq_left hle]
        _ = front.dropLast := by rw [htake, hkept, List.dropLast_eq_take]
    · rw [List.length_dropLast, hkept]
  · have hkept : kept = start := if_pos (h.lt_iff.2 hout)
    rw [keptInFront, if_neg hout, hkept]
    exact ⟨htake, hstart.symm⟩

/-! ## Runs -/

/-- **Selections are safe.** After every run the ends of the selection are inside the text, and no
operation but placing them turns them round, as positions are mapped in order. Typing replaces the
selected characters, and the cursor is right behind what was typed; a deletion takes out the
selected characters or the one in front of a plain cursor, and the cursor is where they were. Both
answer with a change exactly when there is something to write or to take out. -/
theorem selection_run (first : Text) (listener : Option Listener) (events : List Event) :
    let d := (((ofText first).listen listener).run events).1
    let start := d.selection.range.1
    let stop := d.selection.range.2
    (d.selection.anchor ≤ d.doc.length ∧ d.selection.head ≤ d.doc.length) ∧
    (∀ c : Change, c.start ≤ c.stop → ∀ p q, p ≤ q → c.mapPos p ≤ c.mapPos q) ∧
    (∀ e : Edit, e.isAnswered = true → d.selection.KeepsOrder (d.step e).1.selection) ∧
    (∀ new, ((d.insertText new).2.applied.isSome = true ↔ start < stop ∨ new ≠ []) ∧
      (d.insertText new).1.text = d.text.take start ++ new ++ d.text.drop stop ∧
      (d.insertText new).1.selection = .cursor (start + new.length)) ∧
    (d.deleteBackward.2.applied.isSome = true ↔ 0 < stop) ∧
      let kept := if start < stop then start else start - 1
      d.deleteBackward.1.text = d.text.take kept ++ d.text.drop stop ∧
      d.deleteBackward.1.selection = .cursor kept := by
  intro d start stop
  have hbounds : d.InBounds := inBounds_run (inBounds_ofText first listener) events
  refine ⟨hbounds, fun c hc p q hpq => Change.mapPos_mono hc hpq,
    fun e he => keepsOrder_step d he, fun new => ?_, ?_⟩
  · have hinsert := hbounds.selects.insertText new
    rw [List.length_append, hbounds.selects.start_eq.symm, ← hbounds.selects.lt_iff] at hinsert
    exact hinsert
  · obtain ⟨hsome, htext, hselection⟩ := hbounds.selects.deleteBackward
    obtain ⟨htake, hlength⟩ := hbounds.selects.take_kept
    rw [← List.length_pos_iff, ← hbounds.selects.stop_eq] at hsome
    rw [← htake] at htext
    rw [hlength] at hselection
    exact ⟨hsome, htext, hselection⟩

/-- A selection from behind the end of the text back to its second character, which a letter typed
in front of it moves along and a letter typed over it replaces. -/
theorem selection_run_backward :
    let d := (((ofText "R S".toList).listen none).run [.edit (.select ⟨9, 1⟩)]).1
    let e := Edit.change (.insertion 0 ['x'])
    (d.selection = ⟨3, 1⟩ ∧ e.isAnswered = true) ∧
      (d.step e).1.selection = ⟨4, 2⟩ ∧ d.selection.KeepsOrder (d.step e).1.selection ∧
      (d.insertText ['x']).1.text = "Rx".toList :=
  have h := selection_run "R S".toList none [.edit (.select ⟨9, 1⟩)]
  ⟨by decide, by decide, h.2.2.1 _ rfl, (h.2.2.2.1 ['x']).2.1⟩

end LiveDocument

end QueryEditor
