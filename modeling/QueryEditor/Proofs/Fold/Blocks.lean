import QueryEditor.Proofs.Fold.Order

/-!
# Folds take in their blocks

A fold that is made on a document lies inside it, has no blank line, and ends where its block ends.
Calls that bring one document keep folds that fit it, and after a call that forgets all folds there
are none that do not fit. As folds in order do not meet, a block has one fold at most.

* `Fold.Fits`, `Folds.Fit`: folds made on a document;
* `Fold.fits_of_blockEnd?`: blocks are taken in to their ends;
* `Folds.eq_of_sameBlock`: a block has one fold at most;
* **`Folds.fit_run`**: folds fit after every run of calls that bring the same document.
-/

namespace QueryEditor

/-- The lines from one to another have no blank among them. -/
def Document.SameBlock (d : Document) (a b : Nat) : Prop :=
  ∀ line, min a b ≤ line → line ≤ max a b → d.isBlankLine line = false

/-- The fold lies inside the document, has no blank line and ends where its block ends. -/
structure Fold.Fits (f : Fold) (d : Document) : Prop where
  inside : f.last < d.lineCount
  filled : ∀ line, f.first ≤ line → line ≤ f.last → d.isBlankLine line = false
  ends : d.isBlankLine (f.last + 1) = true

def Folds.Fit (fs : Folds) (d : Document) : Prop := ∀ f ∈ fs, f.Fits d

/-- Two blocks with a blank line between them. -/
def twoBlocks : Document := ⟨"A\nB\n\nC\nD\nE".toList⟩

/-! ## Blocks -/

theorem Document.isBlankLine_eq_false_iff {d : Document} {line : Nat} :
    d.isBlankLine line = false ↔ ∃ l, d.lines[line]? = some l ∧ l.text.isBlank = false := by
  rw [isBlankLine, line?]
  cases d.lines[line]? <;> simp

theorem Document.lt_lineCount {d : Document} {line : Nat} (h : d.isBlankLine line = false) :
    line < d.lineCount := by
  obtain ⟨l, hl, -⟩ := isBlankLine_eq_false_iff.1 h
  exact (List.getElem?_eq_some_iff.1 hl).1

theorem blockLength_spec (ls : List Line) :
    (∀ i < blockLength ls, ∃ l, ls[i]? = some l ∧ l.text.isBlank = false) ∧
      ¬ ∃ l, ls[blockLength ls]? = some l ∧ l.text.isBlank = false := by
  induction ls with
  | nil => simp [blockLength]
  | cons l ls ih =>
    obtain ⟨hfilled, hends⟩ := ih
    cases hl : l.text.isBlank with
    | true => simp [blockLength, hl]
    | false =>
      have hlength : blockLength (l :: ls) = blockLength ls + 1 := by simp [blockLength, hl]
      rw [hlength, List.getElem?_cons_succ]
      refine ⟨fun i hi => ?_, hends⟩
      cases i with
      | zero => exact ⟨l, rfl, hl⟩
      | succ i => exact hfilled i (by omega)

/-- **A block is taken in to its end.** -/
theorem Fold.fits_of_blockEnd? {d : Document} {line last : Nat} (h : d.blockEnd? line = some last) :
    Fold.Fits ⟨line, last⟩ d := by
  obtain ⟨hfilled, hends⟩ := blockLength_spec (d.lines.drop line)
  unfold Document.blockEnd? blockEndIn? at h
  split at h
  · rename_i n hn
    obtain rfl : line + n + 1 = last := by simpa using h
    rw [hn] at hfilled hends
    have hlines : ∀ l, line ≤ l → l ≤ line + n + 1 → d.isBlankLine l = false := by
      intro l hfirst hlast
      have hl := hfilled (l - line) (by omega)
      rw [List.getElem?_drop, Nat.add_sub_cancel' hfirst] at hl
      exact Document.isBlankLine_eq_false_iff.2 hl
    have hlast := hlines (line + n + 1) (by omega) (Nat.le_refl _)
    refine ⟨Document.lt_lineCount hlast, hlines, ?_⟩
    rw [← Bool.not_eq_false, Document.isBlankLine_eq_false_iff]
    rwa [List.getElem?_drop] at hends
  · cases h

namespace Folds

variable {fs gs : Folds} {f g : Fold} {d : Document}

/-- **A block has one fold at most.** -/
theorem Ordered.eq_of_sameBlock (h : Ordered fs) (hfit : fs.Fit d) (hf : f ∈ fs) (hg : g ∈ fs)
    (hblock : d.SameBlock f.first g.first) : f = g := by
  -- the line behind the fold that comes first would be blank, and lie between the two
  have hends : ∀ {f g : Fold}, f ∈ fs → d.SameBlock f.first g.first → ¬ f.last < g.first := by
    intro f g hf hblock hlt
    have hne := h.hides f hf
    have hblank := (hfit f hf).ends
    rw [hblock _ (by omega) (by omega)] at hblank
    exact Bool.noConfusion hblank
  rcases h.eq_or_apart hf hg with heq | hlt | hlt
  · exact heq
  · exact absurd hlt (hends hf hblock)
  · refine absurd hlt (hends hg ?_)
    rwa [Document.SameBlock, Nat.min_comm, Nat.max_comm]

/-! ## Calls -/

theorem fit_nil : Fit [] d := fun _ h => absurd h List.not_mem_nil

theorem Fit.subset (h : fs.Fit d) (hs : gs ⊆ fs) : gs.Fit d := fun f hf => h f (hs hf)

theorem Fit.toggle (h : fs.Fit d) (line : Nat) : (fs.toggle d line).1.Fit d := by
  rcases toggle_cases fs d line with ⟨-, he⟩ | ⟨-, -, last, hblock, he⟩ | ⟨-, -, he⟩
  · rw [he]
    exact h.subset List.eraseP_subset
  · rw [he]
    intro g hg
    rcases mem_insert.1 hg with rfl | hmem
    · exact Fold.fits_of_blockEnd? hblock
    · exact h g (mem_outside.1 hmem).1
  · rw [he]
    exact h

theorem fit_blocksFrom {line : Nat} {ls : List Line} (h : d.lines.drop line = ls) :
    (blocksFrom line ls).Fit d := by
  fun_induction blocksFrom line ls with
  | case1 line => exact fit_nil
  | case2 line l ls n hblock ih =>
    have hend : d.blockEnd? line = some (line + n + 1) := by
      rw [Document.blockEnd?, blockEndIn?, h, hblock]
    have hrest : d.lines.drop (line + n + 2) = ls.drop (n + 1) := by
      rw [Nat.add_assoc, ← List.drop_drop, h, List.drop_succ_cons]
    exact List.forall_mem_cons.2 ⟨Fold.fits_of_blockEnd? hend, ih hrest⟩
  | case3 line l ls hblock ih =>
    have hrest : d.lines.drop (line + 1) = ls := by rw [← List.drop_drop, h, List.drop_one]; rfl
    exact ih hrest

theorem fit_foldAll (d : Document) : (foldAll d).Fit d := fit_blocksFrom List.drop_zero

example : foldAll twoBlocks = [⟨0, 1⟩, ⟨3, 5⟩] := by decide +kernel

def Call.document? : Call → Option Document
  | .toggle d _ => some d
  | .foldAll d => some d
  | .unfoldAll => none
  | .clear => none

/-- The call brings no document but the given one. -/
def Call.Uses (c : Call) (d : Document) : Prop := ∀ d' ∈ c.document?, d' = d

/-- The call forgets all folds that there were. -/
def Call.resets : Call → Bool
  | .toggle _ _ => false
  | .foldAll _ => true
  | .unfoldAll => true
  | .clear => true

theorem fit_call_of_resets {c : Call} (hreset : c.resets = true) (hc : c.Uses d) (fs : Folds) :
    (fs.call c).Fit d := by
  cases c with
  | toggle d' line => exact Bool.noConfusion hreset
  | foldAll d' =>
    obtain rfl : d' = d := hc d' rfl
    exact fit_foldAll d'
  | unfoldAll => exact fit_nil
  | clear => exact fit_nil

theorem Fit.call (h : fs.Fit d) {c : Call} (hc : c.Uses d) : (fs.call c).Fit d := by
  cases c with
  | toggle d' line =>
    obtain rfl : d' = d := hc d' rfl
    exact h.toggle line
  | foldAll d' => exact fit_call_of_resets rfl hc fs
  | unfoldAll => exact fit_nil
  | clear => exact fit_nil

/-- **Folds fit** after every run of calls that bring one document, once all folds before were
forgotten. -/
theorem fit_run {later : List Call} (hlater : ∀ c ∈ later, c.Uses d) (earlier : List Call)
    (hstart : earlier = [] ∨ ∃ c rest, later = c :: rest ∧ c.resets = true) :
    (run [] (earlier ++ later)).Fit d := by
  have hrun : ∀ calls : List Call, (∀ c ∈ calls, c.Uses d) → ∀ fs : Folds, fs.Fit d →
      (fs.run calls).Fit d :=
    fun calls hcalls fs h => run_induction (P := fun fs => fs.Fit d)
      (fun c hc _ h => h.call (hcalls c hc)) h
  rcases hstart with rfl | ⟨c, rest, rfl, hreset⟩
  · exact hrun later hlater [] fit_nil
  · obtain ⟨hc, hrest⟩ := List.forall_mem_cons.1 hlater
    have hsplit : run [] (earlier ++ c :: rest) = ((run [] earlier).call c).run rest := by
      rw [run, List.foldl_append, List.foldl_cons]
      rfl
    rw [hsplit]
    exact hrun rest hrest _ (fit_call_of_resets hreset hc _)

end Folds

end QueryEditor
