import Mathlib.Data.List.TakeWhile
import QueryEditor.Display.Fold

/-!
# Folds stay in order

Every fold hides a line or more, and ends before the next one starts. A new fold starts at a line
that no fold hides and takes in the folds that start inside it, so folds that were in order stay in
order, whatever documents the calls bring. In order, no fold hides the line where another starts.

* `Folds.Ordered`;
* `Folds.mem_insert`: the folds after one is put in;
* `Folds.toggle_cases`: what a toggle can do;
* **`Folds.ordered_run`**: folds are in order after every run of calls.
-/

namespace QueryEditor

namespace Fold

theorem hides_iff {f : Fold} {line : Nat} : f.hides line = true ↔ f.first < line ∧ line ≤ f.last := by
  simp [hides]

end Fold

namespace Folds

/-- Every fold hides a line or more, and ends before the next one starts. -/
structure Ordered (fs : Folds) : Prop where
  hides : ∀ f ∈ fs, f.first < f.last
  apart : fs.Pairwise fun f g => f.last < g.first

variable {fs gs : Folds} {f g : Fold} {line : Nat}

theorem isHidden_iff : fs.isHidden line = true ↔ ∃ f ∈ fs, f.first < line ∧ line ≤ f.last := by
  simp [isHidden, Fold.hides_iff]

theorem isHidden_eq_false_iff :
    fs.isHidden line = false ↔ ∀ f ∈ fs, line ≤ f.first ∨ f.last < line := by
  rw [← Bool.not_eq_true, isHidden_iff]
  constructor
  · intro h f hf
    by_contra hc
    exact h ⟨f, hf, by omega, by omega⟩
  · rintro h ⟨f, hf, hlt, hle⟩
    have := h f hf
    omega

theorem isFolded_iff : fs.isFolded line = true ↔ ∃ f ∈ fs, f.first = line := by
  simp [isFolded]

/-! ## Folds in order -/

theorem ordered_nil : Ordered [] := ⟨fun _ h => absurd h List.not_mem_nil, .nil⟩

theorem ordered_cons_iff : Ordered (f :: fs) ↔
    f.first < f.last ∧ (∀ g ∈ fs, f.last < g.first) ∧ Ordered fs := by
  constructor
  · intro h
    obtain ⟨hf, hfs⟩ := List.forall_mem_cons.1 h.hides
    obtain ⟨hapart, hrest⟩ := List.pairwise_cons.1 h.apart
    exact ⟨hf, hapart, hfs, hrest⟩
  · rintro ⟨hf, hapart, h⟩
    exact ⟨List.forall_mem_cons.2 ⟨hf, h.hides⟩, List.pairwise_cons.2 ⟨hapart, h.apart⟩⟩

theorem Ordered.sublist (h : Ordered fs) (hs : gs.Sublist fs) : Ordered gs :=
  ⟨fun f hf => h.hides f (hs.subset hf), h.apart.sublist hs⟩

theorem Ordered.increasing (h : Ordered fs) : fs.Pairwise fun f g => f.first < g.first :=
  h.apart.imp_of_mem fun hf _ hlt => Nat.lt_trans (h.hides _ hf) hlt

theorem Ordered.eq_or_apart (h : Ordered fs) (hf : f ∈ fs) (hg : g ∈ fs) :
    f = g ∨ f.last < g.first ∨ g.last < f.first := by
  obtain ⟨i, hi, rfl⟩ := List.mem_iff_getElem.1 hf
  obtain ⟨j, hj, rfl⟩ := List.mem_iff_getElem.1 hg
  have hapart := List.pairwise_iff_getElem.1 h.apart
  rcases Nat.lt_trichotomy i j with hlt | rfl | hgt
  · exact .inr (.inl (hapart i j hi hj hlt))
  · exact .inl rfl
  · exact .inr (.inr (hapart j i hj hi hgt))

/-- **No line where a fold starts is hidden.** -/
theorem Ordered.isHidden_first (h : Ordered fs) (hf : f ∈ fs) : fs.isHidden f.first = false := by
  rw [isHidden_eq_false_iff]
  intro g hg
  have := h.hides g hg
  rcases h.eq_or_apart hf hg with rfl | hlt | hlt
  · exact .inl (Nat.le_refl _)
  · exact .inl (by have := h.hides f hf; omega)
  · exact .inr hlt

/-! ## One fold more -/

theorem mem_outside : g ∈ fs.outside f ↔ g ∈ fs ∧ (g.first < f.first ∨ f.last < g.first) := by
  simp [outside]

theorem mem_insert : g ∈ fs.insert f ↔ g = f ∨ g ∈ fs.outside f := by
  have hparts : g ∈ fs.outside f ↔
      g ∈ (fs.outside f).takeWhile (fun g => decide (g.first ≤ f.first)) ∨
        g ∈ (fs.outside f).dropWhile (fun g => decide (g.first ≤ f.first)) := by
    rw [← List.mem_append, List.takeWhile_append_dropWhile]
  rw [hparts, insert, List.mem_append, List.mem_cons, or_left_comm]

theorem lt_of_mem_dropWhile (h : fs.Pairwise fun f g => f.first < g.first)
    (hg : g ∈ fs.dropWhile fun g => decide (g.first ≤ line)) : line < g.first := by
  induction fs with
  | nil => exact absurd hg List.not_mem_nil
  | cons f fs ih =>
    obtain ⟨hf, hfs⟩ := List.pairwise_cons.1 h
    by_cases hle : f.first ≤ line
    · rw [List.dropWhile_cons_of_pos (by simpa using hle)] at hg
      exact ih hfs hg
    · rw [List.dropWhile_cons_of_neg (by simpa using hle)] at hg
      rcases List.mem_cons.1 hg with rfl | hg
      · omega
      · have := hf g hg
        omega

/-- **A fold that starts at a line that is shown finds its place.** -/
theorem Ordered.insert (h : Ordered fs) (hf : f.first < f.last)
    (hshown : fs.isHidden f.first = false) : Ordered (fs.insert f) := by
  have houtside : Ordered (fs.outside f) := h.sublist List.filter_sublist
  have hapart : ∀ g ∈ fs.outside f, g.last < f.first ∨ f.last < g.first := by
    intro g hg
    obtain ⟨hmem, hlt⟩ := mem_outside.1 hg
    have := isHidden_eq_false_iff.1 hshown g hmem
    omega
  -- what comes in front of the new fold ends before it, what comes behind starts after its end
  have hfront : ∀ g ∈ (fs.outside f).takeWhile (fun g => decide (g.first ≤ f.first)),
      g.last < f.first := by
    intro g hg
    have hle : g.first ≤ f.first := by simpa using List.mem_takeWhile_imp hg
    have := hapart g ((List.takeWhile_sublist _).subset hg)
    omega
  have hback : ∀ g ∈ (fs.outside f).dropWhile (fun g => decide (g.first ≤ f.first)),
      f.last < g.first := by
    intro g hg
    have hlt := lt_of_mem_dropWhile houtside.increasing hg
    have hmem := (List.dropWhile_sublist _).subset hg
    have := hapart g hmem
    have := houtside.hides g hmem
    omega
  constructor
  · intro g hg
    rcases mem_insert.1 hg with rfl | hmem
    · exact hf
    · exact houtside.hides g hmem
  · refine List.pairwise_append.2 ⟨houtside.apart.sublist (List.takeWhile_sublist _),
      List.pairwise_cons.2 ⟨hback, houtside.apart.sublist (List.dropWhile_sublist _)⟩, ?_⟩
    intro a ha b hb
    have hlt := hfront a ha
    rcases List.mem_cons.1 hb with rfl | hb
    · exact hlt
    · have := hback b hb
      omega

/-! ## Calls -/

theorem lt_of_blockEnd? {d : Document} {last : Nat} (h : d.blockEnd? line = some last) :
    line < last := by
  unfold Document.blockEnd? blockEndIn? at h
  split at h
  · cases h
    omega
  · cases h

/-- What a toggle can do: open the fold at the line, fold the block from a line that is shown, or
nothing. -/
theorem toggle_cases (fs : Folds) (d : Document) (line : Nat) :
    (fs.isFolded line = true ∧ fs.toggle d line = (fs.eraseP (·.first == line), true)) ∨
    (fs.isFolded line = false ∧ fs.isHidden line = false ∧ ∃ last, d.blockEnd? line = some last ∧
      fs.toggle d line = (fs.insert ⟨line, last⟩, true)) ∨
    (fs.isFolded line = false ∧ (fs.isHidden line = true ∨ d.blockEnd? line = none) ∧
      fs.toggle d line = (fs, false)) := by
  cases hfolded : fs.isFolded line with
  | true => exact .inl ⟨rfl, isFolded_toggle fs d line hfolded⟩
  | false =>
    cases hhidden : fs.isHidden line with
    | true => exact .inr (.inr ⟨rfl, .inl rfl, by simp [toggle, hfolded, hhidden]⟩)
    | false =>
      cases hblock : d.blockEnd? line with
      | some last => exact .inr (.inl ⟨rfl, rfl, last, rfl, by simp [toggle, hfolded, hhidden, hblock]⟩)
      | none => exact .inr (.inr ⟨rfl, .inr rfl, by simp [toggle, hfolded, hhidden, hblock]⟩)

theorem Ordered.toggle (h : Ordered fs) (d : Document) (line : Nat) :
    Ordered (fs.toggle d line).1 := by
  rcases toggle_cases fs d line with ⟨-, he⟩ | ⟨-, hshown, last, hblock, he⟩ | ⟨-, -, he⟩
  · rw [he]
    exact h.sublist List.eraseP_sublist
  · rw [he]
    exact h.insert (lt_of_blockEnd? hblock) hshown
  · rw [he]
    exact h

theorem ordered_blocksFrom (line : Nat) (lines : List Line) :
    Ordered (blocksFrom line lines) ∧ ∀ f ∈ blocksFrom line lines, line ≤ f.first := by
  -- where the folds start carries the induction: the next block starts behind the end of this one
  fun_induction blocksFrom line lines with
  | case1 line => exact ⟨ordered_nil, fun _ h => absurd h List.not_mem_nil⟩
  | case2 line l ls n hblock ih =>
    obtain ⟨hordered, hfrom⟩ := ih
    constructor
    · refine ordered_cons_iff.2 ⟨?_, fun g hg => ?_, hordered⟩
      · change line < line + n + 1
        omega
      · have := hfrom g hg
        change line + n + 1 < g.first
        omega
    · refine List.forall_mem_cons.2 ⟨Nat.le_refl _, fun g hg => ?_⟩
      have := hfrom g hg
      omega
  | case3 line l ls hblock ih =>
    obtain ⟨hordered, hfrom⟩ := ih
    refine ⟨hordered, fun g hg => ?_⟩
    have := hfrom g hg
    omega

theorem Ordered.call (h : Ordered fs) (c : Call) : Ordered (fs.call c) := by
  cases c with
  | toggle d line => exact h.toggle d line
  | foldAll d => exact (ordered_blocksFrom 0 d.lines).1
  | unfoldAll => exact ordered_nil
  | clear => exact ordered_nil

theorem run_induction {P : Folds → Prop} {calls : List Call}
    (step : ∀ c ∈ calls, ∀ fs, P fs → P (fs.call c)) (h : P fs) : P (fs.run calls) := by
  induction calls generalizing fs with
  | nil => exact h
  | cons c calls ih =>
    obtain ⟨hc, hcalls⟩ := List.forall_mem_cons.1 step
    exact ih hcalls (hc fs h)

/-- **Folds stay in order**, whatever documents the calls of a run bring. -/
theorem ordered_run (h : Ordered fs) (calls : List Call) : Ordered (fs.run calls) :=
  run_induction (P := Ordered) (fun c _ _ h => h.call c) h

end Folds

end QueryEditor
