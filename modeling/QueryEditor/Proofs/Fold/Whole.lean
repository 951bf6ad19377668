import Mathlib.Data.List.Induction
import QueryEditor.Proofs.Fold.Toggled

/-!
# All blocks folded

A whole block is a run of two lines or more that are not blank, with a blank line or an end of the
document on either side. Folding everything makes one fold of each whole block and no other, in the
order of the lines, whatever was folded before. Toggling the first line of each whole block comes to
the same, in any order: no two whole blocks meet, so no toggle takes in what another one made.

* `Fold.IsBlock`: the fold takes in a whole block, `Document.StartsBlock`: a line is the first of one;
* `Fold.IsBlock.eq_of_sameBlock`: whole blocks are apart;
* `Folds.mem_foldAll_iff`: the folds of all blocks;
* `Folds.mem_run_toggles`: the folds after some first lines were toggled;
* **`Folds.blocks_folded`**: folding everything, at once and block by block.
-/

namespace QueryEditor

/-- The fold takes in a whole block: two lines or more, none of them blank, and none that is not
blank right in front of them or right behind them. -/
structure Fold.IsBlock (f : Fold) (d : Document) : Prop where
  two : f.first < f.last
  filled : ∀ line, f.first ≤ line → line ≤ f.last → d.isBlankLine line = false
  starts : f.first = 0 ∨ d.isBlankLine (f.first - 1) = true
  ends : d.isBlankLine (f.last + 1) = true

/-- A line is the first one of a whole block. -/
def Document.StartsBlock (d : Document) (line : Nat) : Prop := ∃ last, Fold.IsBlock ⟨line, last⟩ d

variable {d : Document} {f g : Fold} {line : Nat}

/-! ## Whole blocks -/

/-- Where no fold starts, the line or the one behind it is blank or missing. -/
theorem Document.isBlankLine_of_blockEnd? (h : d.blockEnd? line = none) :
    d.isBlankLine line = true ∨ d.isBlankLine (line + 1) = true := by
  obtain ⟨-, hends⟩ := blockLength_spec (d.lines.drop line)
  rw [List.getElem?_drop, ← isBlankLine_eq_false_iff, Bool.not_eq_false] at hends
  have hlength : blockLength (d.lines.drop line) = 0 ∨ blockLength (d.lines.drop line) = 1 := by
    unfold blockEnd? blockEndIn? at h
    split at h
    · cases h
    · rename_i hne
      by_contra hmore
      exact hne (blockLength (d.lines.drop line) - 2) (by omega)
  rcases hlength with hzero | hone
  · rw [hzero] at hends
    exact .inl hends
  · rw [hone] at hends
    exact .inr hends

namespace Fold.IsBlock

theorem fits (h : f.IsBlock d) : f.Fits d where
  inside := Document.lt_lineCount (h.filled f.last (Nat.le_of_lt h.two) (Nat.le_refl _))
  filled := h.filled
  ends := h.ends

theorem first_le (h : f.IsBlock d) (hblock : d.SameBlock f.first line) : f.first ≤ line := by
  by_contra hlt
  have hfront := hblock (f.first - 1) (by omega) (by omega)
  rcases h.starts with hzero | hblank
  · omega
  · rw [hblank] at hfront
    exact Bool.noConfusion hfront

/-- **Whole blocks are apart.** -/
theorem eq_of_sameBlock (h : f.IsBlock d) (h' : g.IsBlock d)
    (hblock : d.SameBlock f.first g.first) : f = g := by
  have hfirst : f.first = g.first := Nat.le_antisymm (h.first_le hblock) (h'.first_le hblock.symm)
  have hlast : f.last = g.last := by
    have hf := h.fits.blockEnd? h.two
    rw [hfirst, h'.fits.blockEnd? h'.two] at hf
    exact (Option.some.inj hf).symm
  cases f
  cases g
  simp_all

end Fold.IsBlock

namespace Folds

/-! ## Everything at once -/

/-- The folds of all blocks from a line on, where no block is cut in two. -/
theorem mem_blocksFrom_iff {ls : List Line} (hls : d.lines.drop line = ls)
    (hstart : d.isBlankLine line = false → line = 0 ∨ d.isBlankLine (line - 1) = true) :
    f ∈ blocksFrom line ls ↔ f.IsBlock d ∧ line ≤ f.first := by
  -- where the search goes on, behind a block or a blank line, no block is cut in two either
  fun_induction blocksFrom line ls with
  | case1 line =>
    refine iff_of_false List.not_mem_nil ?_
    rintro ⟨hf, hle⟩
    have hlt := hf.fits.inside
    have hcount : d.lineCount ≤ line := List.drop_eq_nil_iff.1 hls
    have := hf.two
    omega
  | case2 line l ls n hblock ih =>
    have hend : d.blockEnd? line = some (line + n + 1) := by
      rw [Document.blockEnd?, blockEndIn?, hls, hblock]
    have hfits := Fold.fits_of_blockEnd? hend
    have hwhole : Fold.IsBlock ⟨line, line + n + 1⟩ d :=
      { two := lt_of_blockEnd? hend
        filled := hfits.filled
        starts := hstart (hfits.filled line (Nat.le_refl _) (Nat.le_of_lt (lt_of_blockEnd? hend)))
        ends := hfits.ends }
    have hrest : d.lines.drop (line + n + 2) = ls.drop (n + 1) := by
      rw [Nat.add_assoc, ← List.drop_drop, hls, List.drop_succ_cons]
    have hnext : d.isBlankLine (line + n + 2) = true := hfits.ends
    rw [List.mem_cons, ih hrest (fun hfilled => by rw [hnext] at hfilled; cases hfilled)]
    constructor
    · rintro (rfl | ⟨hf, hle⟩)
      · exact ⟨hwhole, Nat.le_refl _⟩
      · exact ⟨hf, by omega⟩
    · rintro ⟨hf, hle⟩
      by_cases hinside : f.first ≤ line + n + 1
      · exact .inl (hwhole.eq_of_sameBlock hf (hfits.sameBlock hle hinside)).symm
      · exact .inr ⟨hf, by omega⟩
  | case3 line l ls hblock ih =>
    have hend : d.blockEnd? line = none := by
      rw [Document.blockEnd?, blockEndIn?, hls]
      split
      · rename_i n hn
        exact absurd hn (hblock n)
      · rfl
    have hrest : d.lines.drop (line + 1) = ls := by
      rw [← List.drop_drop, hls, List.drop_one]
      rfl
    have hnext : d.isBlankLine (line + 1) = false → d.isBlankLine line = true := by
      intro hfilled
      rcases Document.isBlankLine_of_blockEnd? hend with hblank | hblank
      · exact hblank
      · rw [hblank] at hfilled
        cases hfilled
    rw [ih hrest fun hfilled => .inr (hnext hfilled)]
    refine and_congr_right fun hf => ?_
    have hne : line ≠ f.first := by
      rintro rfl
      rw [hf.fits.blockEnd? hf.two] at hend
      cases hend
    omega

/-- **The folds of all blocks.** -/
theorem mem_foldAll_iff : f ∈ foldAll d ↔ f.IsBlock d := by
  rw [foldAll, mem_blocksFrom_iff List.drop_zero fun _ => .inl rfl]
  exact and_iff_left (Nat.zero_le _)

/-! ## Block by block -/

/-- While all folds are whole blocks, toggling the first line of another one adds it to them. -/
theorem mem_toggle_of_isBlock {fs : Folds} (hwhole : ∀ f ∈ fs, f.IsBlock d) (hg : g.IsBlock d)
    (hnew : g ∉ fs) : f ∈ (fs.toggle d g.first).1 ↔ f = g ∨ f ∈ fs := by
  have hapart : ∀ f ∈ fs, ¬ d.SameBlock f.first g.first := by
    intro f hf hblock
    rw [← (hwhole f hf).eq_of_sameBlock hg hblock] at hnew
    exact hnew hf
  have hfolded : fs.isFolded g.first = false := by
    rw [Bool.eq_false_iff, ne_eq, isFolded_iff]
    rintro ⟨f, hf, hfirst⟩
    refine hapart f hf ?_
    rw [hfirst]
    exact hg.fits.sameBlock (Nat.le_refl _) (Nat.le_of_lt hg.two)
  have hshown : fs.isHidden g.first = false := by
    rw [Bool.eq_false_iff, ne_eq, isHidden_iff]
    rintro ⟨f, hf, hlt, hle⟩
    exact hapart f hf ((hwhole f hf).fits.sameBlock (Nat.le_of_lt hlt) hle)
  rw [toggle_eq_insert hfolded hshown (hg.fits.blockEnd? hg.two), mem_insert, mem_outside]
  refine or_congr_right (and_iff_left_of_imp fun hf => ?_)
  by_contra hinside
  obtain ⟨hfirst, hlast⟩ := not_or.1 hinside
  exact hapart f hf (hg.fits.sameBlock (Nat.le_of_not_lt hfirst) (Nat.le_of_not_lt hlast)).symm

/-- **The folds after first lines of blocks were toggled**, each once: those of their blocks. -/
theorem mem_run_toggles {lines : List Nat} (hnodup : lines.Nodup)
    (hlines : ∀ line ∈ lines, d.StartsBlock line) :
    f ∈ run [] (lines.map (.toggle d)) ↔ f.IsBlock d ∧ f.first ∈ lines := by
  induction lines using List.reverseRecOn generalizing f with
  | nil => simp [run]
  | append_singleton lines line ih =>
    have hnew : line ∉ lines := fun hmem =>
      List.disjoint_of_nodup_append hnodup hmem (List.mem_singleton_self line)
    have hmem := fun f => ih (f := f) hnodup.of_append_left fun l hl =>
      hlines l (List.mem_append_left _ hl)
    obtain ⟨last, hblock⟩ := hlines line (by simp)
    have hrun : run [] ((lines ++ [line]).map (.toggle d)) =
        ((run [] (lines.map (.toggle d))).toggle d line).1 := by
      rw [List.map_append, run, List.foldl_append]
      rfl
    have hadd := mem_toggle_of_isBlock (f := f) (fun f hf => ((hmem f).1 hf).1) hblock
      fun hold => hnew ((hmem _).1 hold).2
    rw [hrun, hadd, hmem, List.mem_append, List.mem_singleton]
    constructor
    · rintro (rfl | ⟨hf, hold⟩)
      · exact ⟨hblock, .inr rfl⟩
      · exact ⟨hf, .inl hold⟩
    · rintro ⟨hf, hold | hline⟩
      · exact .inr ⟨hf, hold⟩
      · refine .inl (hf.eq_of_sameBlock hblock ?_)
        exact hf.fits.sameBlock (Nat.le_of_eq hline) (by rw [← hline]; exact Nat.le_of_lt hf.two)

/-! ## Both ways -/

/-- **Everything folded.** At once, and whatever was folded before, there is one fold of each whole
block and no other, in order; toggling the first line of each whole block once, in any order, leaves
the same folds. -/
theorem blocks_folded (d : Document) :
    (∀ fs : Folds, (fs.call (.foldAll d)).Pairwise (fun f g => f.last < g.first) ∧
      ∀ f, f ∈ fs.call (.foldAll d) ↔ f.IsBlock d) ∧
    (∀ fs fs' : Folds, fs.call (.foldAll d) = fs'.call (.foldAll d)) ∧
    ∀ (fs : Folds) (lines : List Nat), lines.Nodup → (∀ line, line ∈ lines ↔ d.StartsBlock line) →
      run [] (lines.map (.toggle d)) = fs.call (.foldAll d) := by
  have hordered : (foldAll d).Ordered := (ordered_blocksFrom 0 d.lines).1
  refine ⟨fun _ => ⟨hordered.apart, fun _ => mem_foldAll_iff⟩, fun _ _ => rfl, ?_⟩
  intro fs lines hnodup hlines
  change run [] (lines.map (.toggle d)) = foldAll d
  refine (ordered_run ordered_nil _).ext hordered fun f => ?_
  rw [mem_run_toggles hnodup fun line => (hlines line).1, mem_foldAll_iff, hlines]
  exact and_iff_left_of_imp fun hf => ⟨f.last, hf⟩

/-- The second block first. -/
theorem blocks_folded_twoBlocks :
    [3, 0].Nodup ∧ (∀ line, line ∈ [3, 0] ↔ twoBlocks.StartsBlock line) ∧
      run [] [.toggle twoBlocks 3, .toggle twoBlocks 0] = [⟨0, 1⟩, ⟨3, 5⟩] := by
  have hall : foldAll twoBlocks = [⟨0, 1⟩, ⟨3, 5⟩] := by decide +kernel
  have hnodup : [3, 0].Nodup := by decide
  have hlines : ∀ line, line ∈ [3, 0] ↔ twoBlocks.StartsBlock line := by
    intro line
    simp only [Document.StartsBlock, ← mem_foldAll_iff, hall, List.mem_pair, Fold.mk.injEq]
    constructor
    · rintro (rfl | rfl)
      · exact ⟨5, .inr ⟨rfl, rfl⟩⟩
      · exact ⟨1, .inl ⟨rfl, rfl⟩⟩
    · rintro ⟨last, ⟨rfl, -⟩ | ⟨rfl, -⟩⟩
      · exact .inr rfl
      · exact .inl rfl
  obtain ⟨-, -, hany⟩ := blocks_folded twoBlocks
  exact ⟨hnodup, hlines, (hany [] [3, 0] hnodup hlines).trans hall⟩

end Folds

end QueryEditor
