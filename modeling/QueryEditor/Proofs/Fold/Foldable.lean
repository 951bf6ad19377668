import QueryEditor.Proofs.Fold.Toggled

/-!
# Lines that can be toggled

A line is called foldable when a fold starts at it, or when its block goes on behind it. Every line
that a toggle changes is foldable. The other way round a line may be foldable though a toggle leaves
it: when a fold hides it and the block goes on behind it, which is so for every hidden line but the
last one of its fold.

* `Fold.Fits.blockEnd?_inside`, `Fold.Fits.blockEnd?_last`: the block from a hidden line on;
* `Folds.isFoldable_iff`, `Folds.isFoldable_of_toggle`: foldable lines and toggles;
* **`Folds.isFoldable_run`**: when a foldable line is one that a toggle changes, after every run of
  calls that bring one document, `Folds.not_forall_isFoldable_iff`: when it is not.
-/

namespace QueryEditor

namespace Fold.Fits

variable {d : Document} {f : Fold} {line : Nat}

theorem blockEnd?_inside (h : f.Fits d) (hfirst : f.first ≤ line) (hlast : line < f.last) :
    d.blockEnd? line = some f.last := by
  have hrest : Fold.Fits ⟨line, f.last⟩ d :=
    ⟨h.inside, fun l hle => h.filled l (Nat.le_trans hfirst hle), h.ends⟩
  exact hrest.blockEnd? hlast

theorem blockEnd?_last (h : f.Fits d) : d.blockEnd? f.last = none := by
  rw [Option.eq_none_iff_forall_ne_some]
  intro last hlast
  have hlt := Folds.lt_of_blockEnd? hlast
  have hfilled := (fits_of_blockEnd? hlast).filled (f.last + 1) (Nat.le_succ _) hlt
  rw [h.ends] at hfilled
  exact Bool.noConfusion hfilled

end Fold.Fits

namespace Folds

variable {fs : Folds} {d : Document} {line : Nat}

theorem isFoldable_iff : fs.isFoldable d line = true ↔
    fs.isFolded line = true ∨ ∃ last, d.blockEnd? line = some last := by
  rw [isFoldable, isFoldableIn, Bool.or_eq_true, Option.isSome_iff_exists]
  rfl

/-- **Every line that a toggle changes is foldable.** -/
theorem isFoldable_of_toggle (h : (fs.toggle d line).2 = true) : fs.isFoldable d line = true := by
  rcases toggle_cases fs d line with ⟨hfolded, -⟩ | ⟨-, -, last, hlast, -⟩ | ⟨-, -, he⟩
  · exact isFoldable_iff.2 (.inl hfolded)
  · exact isFoldable_iff.2 (.inr ⟨last, hlast⟩)
  · rw [he] at h
    exact Bool.noConfusion h

theorem On.toggle_iff (h : fs.On d) (hfoldable : fs.isFoldable d line = true) :
    (fs.toggle d line).2 = true ↔ ∀ f ∈ fs, line ≤ f.first ∨ f.last ≤ line := by
  rcases toggle_cases fs d line with ⟨hfolded, he⟩ | ⟨-, hshown, last, -, he⟩ |
    ⟨hfolded, hleft, he⟩
  · obtain ⟨f, hf, rfl⟩ := isFolded_iff.1 hfolded
    refine iff_of_true (by rw [he]) fun g hg => ?_
    have := isHidden_eq_false_iff.1 (h.ordered.isHidden_first hf) g hg
    omega
  · refine iff_of_true (by rw [he]) fun g hg => ?_
    have := isHidden_eq_false_iff.1 hshown g hg
    omega
  · obtain ⟨last, hlast⟩ := (isFoldable_iff.1 hfoldable).resolve_left (by simp [hfolded])
    refine iff_of_false (by simp [he]) fun hapart => ?_
    rcases hleft with hhidden | hnone
    · obtain ⟨f, hf, hlt, hle⟩ := isHidden_iff.1 hhidden
      have hend : line = f.last := by
        have := hapart f hf
        omega
      rw [hend, (h.fit f hf).blockEnd?_last] at hlast
      cases hlast
    · rw [hnone] at hlast
      cases hlast

theorem On.isFoldable_eq_toggle_iff (h : fs.On d) :
    fs.isFoldable d line = (fs.toggle d line).2 ↔ ∀ f ∈ fs, line ≤ f.first ∨ f.last ≤ line := by
  cases hfoldable : fs.isFoldable d line with
  | true => rw [← h.toggle_iff hfoldable, eq_comm]
  | false =>
    have hleft : (fs.toggle d line).2 = false := by
      rw [← Bool.not_eq_true]
      exact fun ht => Bool.noConfusion (hfoldable.symm.trans (isFoldable_of_toggle ht))
    refine iff_of_true hleft.symm fun f hf => ?_
    by_contra hinside
    have hend : d.blockEnd? line = some f.last :=
      (h.fit f hf).blockEnd?_inside (by omega) (by omega)
    rw [← Bool.not_eq_true, isFoldable_iff] at hfoldable
    exact hfoldable (.inr ⟨_, hend⟩)

/-- **Foldable lines and toggles**, after every run of calls that bring one document. What a toggle
changes is foldable; a foldable line is changed by a toggle just when no fold hides it and another
line behind it. -/
theorem isFoldable_run {calls : List Call} (hcalls : ∀ c ∈ calls, c.Uses d) (line : Nat) :
    (((run [] calls).toggle d line).2 = true → (run [] calls).isFoldable d line = true) ∧
      ((run [] calls).isFoldable d line = ((run [] calls).toggle d line).2 ↔
        ∀ f ∈ run [] calls, line ≤ f.first ∨ f.last ≤ line) :=
  ⟨isFoldable_of_toggle, (On.run hcalls).isFoldable_eq_toggle_iff⟩

/-- With the second block folded, its last line is neither foldable nor changed by a toggle. -/
theorem isFoldable_run_twoBlocks :
    let calls : List Call := [.toggle twoBlocks 3]
    let fs := run [] calls
    (∀ c ∈ calls, c.Uses twoBlocks) ∧ fs = [⟨3, 5⟩] ∧ fs.isHidden 5 = true ∧
      fs.isFoldable twoBlocks 5 = (fs.toggle twoBlocks 5).2 := by
  intro calls fs
  have hcalls : ∀ c ∈ calls, c.Uses twoBlocks :=
    List.forall_mem_singleton.2 fun d' hd' => (Option.mem_some.1 hd').symm
  have hfs : fs = [⟨3, 5⟩] := by decide +kernel
  refine ⟨hcalls, hfs, by rw [hfs]; decide, (isFoldable_run hcalls 5).2.2 ?_⟩
  change ∀ f ∈ fs, _
  rw [hfs]
  decide

/-- A line inside a fold is foldable, but a toggle leaves it. -/
theorem not_forall_isFoldable_iff :
    ¬ ∀ (d : Document) (calls : List Call), (∀ c ∈ calls, c.Uses d) → ∀ line,
      ((run [] calls).isFoldable d line = true ↔ ((run [] calls).toggle d line).2 = true) := by
  intro h
  have hline := h ⟨"A\nB\nC".toList⟩ [.toggle ⟨"A\nB\nC".toList⟩ 0]
    (List.forall_mem_singleton.2 fun d' hd' => (Option.mem_some.1 hd').symm) 1
  exact absurd (hline.1 (by decide +kernel)) (by decide +kernel)

end Folds

end QueryEditor
