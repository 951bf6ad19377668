import Mathlib.Data.List.Sort
import QueryEditor.Proofs.Fold.Blocks

/-!
# Folds after a toggle

Folds in order are known by which of them there are, so two ways to fold a document come to the
same when they leave the same folds. A toggle looks at the folds of its own block and changes no
other, so toggles in two blocks do not notice each other. In its block it opens the one fold or
makes one, and a second toggle takes that back, but for a fold that the first one took in.

* `Document.SameBlock.symm`, `Document.SameBlock.trans`: lines of one block;
* `Fold.Fits.blockEnd?`: a fold that fits is the one that its first line would get;
* `Folds.Ordered.ext`: folds in order with the same members are the same;
* `Folds.On`: folds in order that fit a document;
* `Folds.Swallows`: a toggle takes in a fold that starts later in the block;
* `Folds.On.mem_toggle`, `Folds.On.toggle_congr`: a toggle keeps to its block;
* `Folds.On.toggle_comm`, `Folds.On.toggle_toggle`: two toggles;
* **`Folds.toggles_run`**: toggles after every run of calls that bring one document.
-/

namespace QueryEditor

namespace Document

variable {d : Document} {a b c : Nat}

theorem SameBlock.left (h : d.SameBlock a b) : d.isBlankLine a = false :=
  h a (Nat.min_le_left a b) (Nat.le_max_left a b)

theorem SameBlock.symm (h : d.SameBlock a b) : d.SameBlock b a := by
  intro line hle hge
  exact h line (by omega) (by omega)

theorem SameBlock.trans (h : d.SameBlock a b) (h' : d.SameBlock b c) : d.SameBlock a c := by
  intro line hle hge
  by_cases hline : min a b ≤ line ∧ line ≤ max a b
  · exact h line hline.1 hline.2
  · exact h' line (by omega) (by omega)

end Document

/-! ## The block of a fold -/

theorem blockLength_eq {ls : List Line} {n : Nat}
    (hfilled : ∀ i < n, ∃ l, ls[i]? = some l ∧ l.text.isBlank = false)
    (hends : ¬ ∃ l, ls[n]? = some l ∧ l.text.isBlank = false) : blockLength ls = n := by
  obtain ⟨hfilled', hends'⟩ := blockLength_spec ls
  rcases Nat.lt_trichotomy (blockLength ls) n with hlt | heq | hgt
  · exact absurd (hfilled _ hlt) hends'
  · exact heq
  · exact absurd (hfilled' _ hgt) hends

namespace Fold.Fits

variable {d : Document} {f : Fold} {line : Nat}

theorem sameBlock (h : f.Fits d) (hfirst : f.first ≤ line) (hlast : line ≤ f.last) :
    d.SameBlock f.first line := by
  intro l hle hge
  exact h.filled l (by omega) (by omega)

theorem le_last (h : f.Fits d) (hf : f.first < f.last) (hblock : d.SameBlock f.first line) :
    line ≤ f.last := by
  by_contra hlt
  have hblank := hblock (f.last + 1) (by omega) (by omega)
  rw [h.ends] at hblank
  exact Bool.noConfusion hblank

/-- **A fold that fits** is the one that its first line would get. -/
theorem blockEnd? (h : f.Fits d) (hf : f.first < f.last) : d.blockEnd? f.first = some f.last := by
  have hlength : blockLength (d.lines.drop f.first) = f.last - f.first - 1 + 2 := by
    apply blockLength_eq
    · intro i hi
      rw [List.getElem?_drop]
      exact Document.isBlankLine_eq_false_iff.1 (h.filled _ (by omega) (by omega))
    · have hbehind : f.first + (f.last - f.first - 1 + 2) = f.last + 1 := by omega
      rw [List.getElem?_drop, hbehind, ← Document.isBlankLine_eq_false_iff, h.ends]
      exact Bool.noConfusion
  rw [Document.blockEnd?, blockEndIn?, hlength]
  simp only [Option.some.injEq]
  omega

end Fold.Fits

namespace Folds

variable {fs gs : Folds} {f g : Fold} {d : Document} {line other : Nat}

/-- The folds are in order and fit the document, as they do when they are made on it. -/
structure On (fs : Folds) (d : Document) : Prop where
  ordered : fs.Ordered
  fit : fs.Fit d

/-- The toggle at a line takes in a fold that starts later in the same block. -/
def Swallows (fs : Folds) (d : Document) (line : Nat) : Prop :=
  ∃ f ∈ fs, line < f.first ∧ d.SameBlock line f.first ∧ f ∉ (fs.toggle d line).1

/-! ## Which folds there are -/

/-- **Folds in order are known by which of them there are.** -/
theorem Ordered.ext (h : Ordered fs) (h' : Ordered gs) (hmem : ∀ f, f ∈ fs ↔ f ∈ gs) : fs = gs := by
  have : Std.Antisymm fun f g : Fold => f.first < g.first :=
    ⟨fun _ _ hlt hgt => absurd hlt (Nat.lt_asymm hgt)⟩
  have : Std.Irrefl fun f g : Fold => f.first < g.first := ⟨fun f => Nat.lt_irrefl f.first⟩
  exact h.increasing.eq_of_mem_iff h'.increasing hmem

theorem Ordered.mem_eraseP (h : Ordered fs) :
    f ∈ fs.eraseP (·.first == line) ↔ f ∈ fs ∧ f.first ≠ line := by
  induction fs with
  | nil => simp
  | cons g fs ih =>
    obtain ⟨hg, -⟩ := List.pairwise_cons.1 h.increasing
    by_cases hline : g.first = line
    · rw [List.eraseP_cons_of_pos (by simpa using hline), List.mem_cons]
      constructor
      · intro hf
        have := hg f hf
        exact ⟨.inr hf, by omega⟩
      · rintro ⟨rfl | hf, hne⟩
        · exact absurd hline hne
        · exact hf
    · rw [List.eraseP_cons_of_neg (by simpa using hline), List.mem_cons, List.mem_cons,
        ih (ordered_cons_iff.1 h).2.2]
      constructor
      · rintro (rfl | ⟨hf, hne⟩)
        · exact ⟨.inl rfl, hline⟩
        · exact ⟨.inr hf, hne⟩
      · rintro ⟨rfl | hf, hne⟩
        · exact .inl rfl
        · exact .inr ⟨hf, hne⟩

namespace On

theorem run {calls : List Call} (hcalls : ∀ c ∈ calls, c.Uses d) : (run [] calls).On d :=
  ⟨ordered_run ordered_nil calls, fit_run hcalls [] (.inl rfl)⟩

theorem toggle (h : fs.On d) (line : Nat) : (fs.toggle d line).1.On d :=
  ⟨h.ordered.toggle d line, h.fit.toggle line⟩

theorem blockEnd? (h : fs.On d) (hf : f ∈ fs) : d.blockEnd? f.first = some f.last :=
  (h.fit f hf).blockEnd? (h.ordered.hides f hf)

theorem sameBlock_first (h : fs.On d) (hf : f ∈ fs) : d.SameBlock f.first f.first :=
  (h.fit f hf).sameBlock (Nat.le_refl _) (Nat.le_of_lt (h.ordered.hides f hf))

theorem sameBlock_of_hides (h : fs.On d) (hf : f ∈ fs) (hlt : f.first < line)
    (hle : line ≤ f.last) : d.SameBlock f.first line :=
  (h.fit f hf).sameBlock (Nat.le_of_lt hlt) hle

/-! ## Lines of a block -/

theorem isFolded_congr (h : fs.On d) (h' : gs.On d)
    (hmem : ∀ f, d.SameBlock line f.first → (f ∈ fs ↔ f ∈ gs)) :
    fs.isFolded line = gs.isFolded line := by
  rw [Bool.eq_iff_iff, isFolded_iff, isFolded_iff]
  constructor
  · rintro ⟨f, hf, rfl⟩
    exact ⟨f, (hmem f (h.sameBlock_first hf)).1 hf, rfl⟩
  · rintro ⟨f, hf, rfl⟩
    exact ⟨f, (hmem f (h'.sameBlock_first hf)).2 hf, rfl⟩

theorem isHidden_congr (h : fs.On d) (h' : gs.On d)
    (hmem : ∀ f, d.SameBlock line f.first → (f ∈ fs ↔ f ∈ gs)) :
    fs.isHidden line = gs.isHidden line := by
  rw [Bool.eq_iff_iff, isHidden_iff, isHidden_iff]
  constructor
  · rintro ⟨f, hf, hlt, hle⟩
    exact ⟨f, (hmem f (h.sameBlock_of_hides hf hlt hle).symm).1 hf, hlt, hle⟩
  · rintro ⟨f, hf, hlt, hle⟩
    exact ⟨f, (hmem f (h'.sameBlock_of_hides hf hlt hle).symm).2 hf, hlt, hle⟩

/-! ## Toggles keep to their block -/

/-- **A toggle changes no fold of another block.** -/
theorem mem_toggle (h : fs.On d) (hblock : ¬ d.SameBlock line f.first) :
    f ∈ (fs.toggle d line).1 ↔ f ∈ fs := by
  rcases toggle_cases fs d line with ⟨-, he⟩ | ⟨-, -, last, hlast, he⟩ | ⟨-, -, he⟩
  · rw [he, h.ordered.mem_eraseP]
    refine ⟨And.left, fun hf => ⟨hf, ?_⟩⟩
    rintro rfl
    exact hblock (h.sameBlock_first hf)
  · have hmade := Fold.fits_of_blockEnd? hlast
    rw [he, mem_insert, mem_outside]
    constructor
    · rintro (rfl | ⟨hf, -⟩)
      · exact absurd (hmade.sameBlock (Nat.le_refl _) (Nat.le_of_lt (lt_of_blockEnd? hlast))) hblock
      · exact hf
    · intro hf
      refine .inr ⟨hf, ?_⟩
      by_contra hinside
      obtain ⟨hfirst, hlast⟩ := not_or.1 hinside
      exact hblock (hmade.sameBlock (Nat.le_of_not_lt hfirst) (Nat.le_of_not_lt hlast))
  · rw [he]

theorem isHidden_toggle (h : fs.On d) (hblock : ¬ d.SameBlock line other) :
    (fs.toggle d line).1.isHidden other = fs.isHidden other :=
  (h.toggle line).isHidden_congr h fun _ hf =>
    h.mem_toggle fun hf' => hblock (hf'.trans hf.symm)

theorem isFolded_toggle (h : fs.On d) (hblock : ¬ d.SameBlock line other) :
    (fs.toggle d line).1.isFolded other = fs.isFolded other :=
  (h.toggle line).isFolded_congr h fun _ hf =>
    h.mem_toggle fun hf' => hblock (hf'.trans hf.symm)

/-- **A toggle looks at the folds of its block only.** -/
theorem toggle_congr (h : fs.On d) (h' : gs.On d)
    (hmem : ∀ f, d.SameBlock line f.first → (f ∈ fs ↔ f ∈ gs)) :
    (fs.toggle d line).2 = (gs.toggle d line).2 ∧
      ∀ f, d.SameBlock line f.first → (f ∈ (fs.toggle d line).1 ↔ f ∈ (gs.toggle d line).1) := by
  unfold Folds.toggle
  rw [h.isFolded_congr h' hmem, h.isHidden_congr h' hmem]
  split
  · refine ⟨rfl, fun f hf => ?_⟩
    rw [h.ordered.mem_eraseP, h'.ordered.mem_eraseP, hmem f hf]
  · split
    · exact ⟨rfl, hmem⟩
    · split
      · refine ⟨rfl, fun f hf => ?_⟩
        rw [mem_insert, mem_insert, mem_outside, mem_outside, hmem f hf]
      · exact ⟨rfl, hmem⟩

/-! ## Two toggles -/

theorem toggle_after (h : fs.On d) (hblock : ¬ d.SameBlock line other) :
    ((fs.toggle d other).1.toggle d line).2 = (fs.toggle d line).2 ∧
      ∀ f, d.SameBlock line f.first →
        (f ∈ ((fs.toggle d other).1.toggle d line).1 ↔ f ∈ (fs.toggle d line).1) := by
  refine (h.toggle other).toggle_congr h fun f hf => h.mem_toggle ?_
  exact fun hf' => hblock (hf.trans hf'.symm)

/-- **Toggles in two blocks** come to the same in either order. -/
theorem toggle_comm (h : fs.On d) (hblock : ¬ d.SameBlock line other) :
    ((fs.toggle d line).1.toggle d other).1 = ((fs.toggle d other).1.toggle d line).1 := by
  have hblock' : ¬ d.SameBlock other line := fun hb => hblock hb.symm
  refine ((h.toggle line).toggle other).ordered.ext ((h.toggle other).toggle line).ordered ?_
  intro f
  by_cases hline : d.SameBlock line f.first
  · have hother : ¬ d.SameBlock other f.first := fun hb => hblock (hline.trans hb.symm)
    rw [(h.toggle line).mem_toggle hother, (h.toggle_after hblock).2 f hline]
  · rw [(h.toggle other).mem_toggle hline]
    by_cases hother : d.SameBlock other f.first
    · exact (h.toggle_after hblock').2 f hother
    · rw [(h.toggle line).mem_toggle hother, h.mem_toggle hline, h.mem_toggle hother]

/-- **A fold that was opened** is made again. -/
theorem toggle_toggle_of_mem (h : fs.On d) (hf : f ∈ fs) :
    ((fs.toggle d f.first).1.toggle d f.first).1 = fs := by
  have hmem : ∀ g, g ∈ (fs.toggle d f.first).1 ↔ g ∈ fs ∧ g.first ≠ f.first := by
    intro g
    rw [Folds.isFolded_toggle fs d f.first (isFolded_iff.2 ⟨f, hf, rfl⟩), h.ordered.mem_eraseP]
  refine ((h.toggle f.first).toggle f.first).ordered.ext h.ordered fun g => ?_
  rcases toggle_cases (fs.toggle d f.first).1 d f.first with
    ⟨hfolded, -⟩ | ⟨-, -, last, hlast, he⟩ | ⟨-, hhidden | hnone, -⟩
  · obtain ⟨g, hg, hfirst⟩ := isFolded_iff.1 hfolded
    exact absurd hfirst ((hmem g).1 hg).2
  · obtain rfl : f.last = last := Option.some.inj ((h.blockEnd? hf).symm.trans hlast)
    rw [he, mem_insert, mem_outside, hmem]
    constructor
    · rintro (rfl | ⟨⟨hg, -⟩, -⟩)
      · exact hf
      · exact hg
    · intro hg
      have := h.ordered.hides f hf
      have := h.ordered.hides g hg
      rcases h.ordered.eq_or_apart hf hg with rfl | hapart
      · exact .inl rfl
      · have hout : g.first < f.first ∨ f.last < g.first := by omega
        exact .inr ⟨⟨hg, by omega⟩, hout⟩
  · obtain ⟨g, hg, hlt, hle⟩ := isHidden_iff.1 hhidden
    have hshown := isHidden_eq_false_iff.1 (h.ordered.isHidden_first hf) g ((hmem g).1 hg).1
    omega
  · rw [h.blockEnd? hf] at hnone
    cases hnone

end On

section Made

variable {last : Nat} (hfolded : fs.isFolded line = false) (hshown : fs.isHidden line = false)
  (hlast : d.blockEnd? line = some last)

include hfolded hshown hlast

theorem toggle_eq_insert : (fs.toggle d line).1 = fs.insert ⟨line, last⟩ := by
  simp [toggle, hfolded, hshown, hlast]

theorem swallows_of_mem (hf : f ∈ fs) (hfirst : line ≤ f.first) (hle : f.first ≤ last) :
    fs.Swallows d line := by
  have hne : f.first ≠ line := fun he => by
    rw [isFolded_iff.2 ⟨f, hf, he⟩] at hfolded
    exact Bool.noConfusion hfolded
  refine ⟨f, hf, by omega, (Fold.fits_of_blockEnd? hlast).sameBlock hfirst hle, ?_⟩
  rw [toggle_eq_insert hfolded hshown hlast, mem_insert, mem_outside]
  rintro (rfl | ⟨-, hout⟩)
  · exact hne rfl
  · change f.first < line ∨ last < f.first at hout
    omega

/-- **A fold that was made** is opened, and what it took in is gone. -/
theorem On.mem_toggle_toggle (h : fs.On d) :
    f ∈ ((fs.toggle d line).1.toggle d line).1 ↔
      f ∈ fs ∧ (f.first < line ∨ last < f.first) := by
  have honce := toggle_eq_insert hfolded hshown hlast
  have hmade : (fs.toggle d line).1.isFolded line = true := by
    rw [honce]
    exact isFolded_iff.2 ⟨_, mem_insert.2 (.inl rfl), rfl⟩
  have hlt := lt_of_blockEnd? hlast
  rw [Folds.isFolded_toggle _ d line hmade, (h.toggle line).ordered.mem_eraseP, honce, mem_insert,
    mem_outside]
  constructor
  · rintro ⟨rfl | hf, hne⟩
    · exact absurd rfl hne
    · exact hf
  · rintro ⟨hf, hout⟩
    exact ⟨.inr ⟨hf, hout⟩, by omega⟩

theorem On.not_sameBlock_of_mem_toggle_toggle (h : fs.On d)
    (hf : f ∈ ((fs.toggle d line).1.toggle d line).1) : ¬ d.SameBlock line f.first := by
  intro hblock
  obtain ⟨hmem, hout⟩ := (h.mem_toggle_toggle hfolded hshown hlast).1 hf
  rcases hout with hbefore | hbehind
  · -- a fold that starts earlier in the block goes on to its end and would hide the line
    have hle := (h.fit f hmem).le_last (h.ordered.hides f hmem) hblock.symm
    have := isHidden_eq_false_iff.1 hshown f hmem
    omega
  · have hle := (Fold.fits_of_blockEnd? hlast).le_last (lt_of_blockEnd? hlast) hblock
    exact absurd hbehind (Nat.not_lt.2 hle)

end Made

namespace On

/-- **Two toggles at a line** leave all as it was, if the first takes in no other fold. -/
theorem toggle_toggle (h : fs.On d) (hswallow : ¬ fs.Swallows d line) :
    ((fs.toggle d line).1.toggle d line).1 = fs := by
  rcases toggle_cases fs d line with ⟨hfolded, -⟩ | ⟨hfolded, hshown, last, hlast, -⟩ | ⟨-, -, he⟩
  · obtain ⟨f, hf, rfl⟩ := isFolded_iff.1 hfolded
    exact h.toggle_toggle_of_mem hf
  · refine ((h.toggle line).toggle line).ordered.ext h.ordered fun f => ?_
    rw [h.mem_toggle_toggle hfolded hshown hlast]
    refine ⟨And.left, fun hf => ⟨hf, ?_⟩⟩
    by_contra hout
    exact hswallow (swallows_of_mem hfolded hshown hlast hf (by omega) (by omega))
  · rw [he, he]

/-- **A fold that was taken in** leaves its block without a fold. -/
theorem not_sameBlock_of_swallows (h : fs.On d) (hswallow : fs.Swallows d line)
    (hf : f ∈ ((fs.toggle d line).1.toggle d line).1) : ¬ d.SameBlock line f.first := by
  obtain ⟨g, hg, hlt, hblock, hgone⟩ := hswallow
  rcases toggle_cases fs d line with ⟨hfolded, -⟩ | ⟨hfolded, hshown, last, hlast, -⟩ | ⟨-, -, he⟩
  · -- then the block would have two folds
    obtain ⟨f', hf', rfl⟩ := isFolded_iff.1 hfolded
    rw [h.ordered.eq_of_sameBlock h.fit hf' hg hblock] at hlt
    exact absurd hlt (Nat.lt_irrefl _)
  · exact h.not_sameBlock_of_mem_toggle_toggle hfolded hshown hlast hf
  · rw [he] at hgone
    exact absurd hg hgone

theorem toggle_of_blank (h : fs.On d) (hblank : d.isBlankLine line = true) :
    fs.toggle d line = (fs, false) := by
  rcases toggle_cases fs d line with ⟨hfolded, -⟩ | ⟨-, -, last, hlast, -⟩ | ⟨-, -, he⟩
  · obtain ⟨f, hf, rfl⟩ := isFolded_iff.1 hfolded
    rw [(h.sameBlock_first hf).left] at hblank
    exact Bool.noConfusion hblank
  · have hfilled := (Fold.fits_of_blockEnd? hlast).filled line (Nat.le_refl _)
      (Nat.le_of_lt (lt_of_blockEnd? hlast))
    rw [hfilled] at hblank
    exact Bool.noConfusion hblank
  · exact he

end On

/-! ## All together -/

/-- What toggling a line of a document does to folds: it keeps to the block of the line, does not
notice toggles in other blocks, and can be taken back. -/
structure Toggles (fs : Folds) (d : Document) (line : Nat) : Prop where
  hidden : ∀ other, ¬ d.SameBlock line other →
    (fs.toggle d line).1.isHidden other = fs.isHidden other
  folded : ∀ other, ¬ d.SameBlock line other →
    (fs.toggle d line).1.isFolded other = fs.isFolded other
  blank : d.isBlankLine line = true → fs.toggle d line = (fs, false)
  /-- Toggles at lines of two blocks give the same answers and the same folds in either order. -/
  commutes : ∀ other, ¬ d.SameBlock line other →
    ((fs.toggle d other).1.toggle d line).2 = (fs.toggle d line).2 ∧
      ((fs.toggle d line).1.toggle d other).2 = (fs.toggle d other).2 ∧
      ((fs.toggle d line).1.toggle d other).1 = ((fs.toggle d other).1.toggle d line).1
  restores : ¬ fs.Swallows d line → ((fs.toggle d line).1.toggle d line).1 = fs
  /-- If the first toggle takes in another fold, the second leaves the block without any. -/
  opens : fs.Swallows d line → ∀ other, d.SameBlock line other →
    ((fs.toggle d line).1.toggle d line).1.isFolded other = false ∧
      ((fs.toggle d line).1.toggle d line).1.isHidden other = false

theorem On.toggles (h : fs.On d) (line : Nat) : fs.Toggles d line where
  hidden _ hblock := h.isHidden_toggle hblock
  folded _ hblock := h.isFolded_toggle hblock
  blank hblank := h.toggle_of_blank hblank
  commutes _ hblock := ⟨(h.toggle_after hblock).1,
    (h.toggle_after fun hb => hblock hb.symm).1, h.toggle_comm hblock⟩
  restores hswallow := h.toggle_toggle hswallow
  opens hswallow other hother := by
    have hnone : ∀ f ∈ ((fs.toggle d line).1.toggle d line).1, ¬ d.SameBlock f.first other :=
      fun f hf hb => h.not_sameBlock_of_swallows hswallow hf (hother.trans hb.symm)
    constructor
    · rw [Bool.eq_false_iff, ne_eq, isFolded_iff]
      rintro ⟨f, hf, rfl⟩
      exact hnone f hf (((h.toggle line).toggle line).sameBlock_first hf)
    · rw [Bool.eq_false_iff, ne_eq, isHidden_iff]
      rintro ⟨f, hf, hlt, hle⟩
      exact hnone f hf (((h.toggle line).toggle line).sameBlock_of_hides hf hlt hle)

/-- **Toggles keep to their blocks, commute and can be taken back**, after every run of calls that
bring one document. -/
theorem toggles_run {calls : List Call} (hcalls : ∀ c ∈ calls, c.Uses d) (line : Nat) :
    (run [] calls).Toggles d line := (On.run hcalls).toggles line

/-- The fold from the second line of a block is taken in by that from the first. -/
theorem toggles_run_twoBlocks :
    let calls : List Call := [.toggle twoBlocks 0, .toggle twoBlocks 4]
    let fs := run [] calls
    (∀ c ∈ calls, c.Uses twoBlocks) ∧ fs = [⟨0, 1⟩, ⟨4, 5⟩] ∧ ¬ fs.Swallows twoBlocks 0 ∧
      ((fs.toggle twoBlocks 0).1.toggle twoBlocks 0).1 = fs ∧ fs.Swallows twoBlocks 3 ∧
      ((fs.toggle twoBlocks 3).1.toggle twoBlocks 3).1.isFolded 4 = false := by
  intro calls fs
  have hfs : fs = [⟨0, 1⟩, ⟨4, 5⟩] := by decide +kernel
  have hcalls : ∀ c ∈ calls, c.Uses twoBlocks :=
    List.forall_mem_cons.2 ⟨fun d' hd' => (Option.mem_some.1 hd').symm,
      List.forall_mem_singleton.2 fun d' hd' => (Option.mem_some.1 hd').symm⟩
  have hend : twoBlocks.blockEnd? 3 = some 5 := by decide +kernel
  have hblock : twoBlocks.SameBlock 3 4 :=
    (Fold.fits_of_blockEnd? hend).sameBlock (by decide) (by decide)
  have hkeeps : ¬ fs.Swallows twoBlocks 0 := by
    rintro ⟨f, hf, hlt, hsame, -⟩
    rw [hfs] at hf
    have hfirst : f.first = 4 := by
      rcases List.mem_pair.1 hf with rfl | rfl
      · exact absurd hlt (by decide)
      · rfl
    rw [hfirst] at hsame
    exact absurd (hsame 2 (by decide) (by decide)) (by decide +kernel)
  have hswallow : fs.Swallows twoBlocks 3 := by
    rw [hfs]
    exact ⟨⟨4, 5⟩, by decide, by decide, hblock, by decide +kernel⟩
  exact ⟨hcalls, hfs, hkeeps, (toggles_run hcalls 0).restores hkeeps, hswallow,
    ((toggles_run hcalls 3).opens hswallow 4 hblock).1⟩

end Folds

end QueryEditor
