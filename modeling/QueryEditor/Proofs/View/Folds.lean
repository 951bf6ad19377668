import QueryEditor.Proofs.Fold.Blocks
import QueryEditor.Proofs.View.Step

/-!
# Folds follow the document

The folds of a view are in order and fit its present document: they are made on it, and a change of
the document opens all of them. So they lie inside the document, each takes in the rest of a block,
and no block has two.

* `View.Tidy`: the folds of a view are in order and fit its document;
* `View.tidy_run`: they are after every run of actions;
* **`folds_run`**: what holds of folds after every run of calls, and after every run of a view.
-/

namespace QueryEditor

namespace View

/-- The folds are in order and fit the present document. -/
structure Tidy (v : View) : Prop where
  ordered : v.folds.Ordered
  fit : v.folds.Fit v.doc

theorem tidy_ofText (settings : Settings) (value : Text) (listener : Option Listener) :
    (ofText settings value listener).Tidy := ⟨Folds.ordered_nil, Folds.fit_nil⟩

theorem tidy_edit {v : View} (h : v.Tidy) (e : Edit) : (v.edit e).1.Tidy := by
  rcases v.edit_cases e with ⟨hkeep, hview⟩ | ⟨origin, c, -, hview⟩
  · rw [hview]
    refine ⟨h.ordered, ?_⟩
    change v.folds.Fit (v.live.step e).1.doc
    rw [hkeep.doc]
    exact h.fit
  · rw [hview]
    exact ⟨Folds.ordered_nil, Folds.fit_nil⟩

theorem tidy_act {v : View} (h : v.Tidy) (a : Action) : (v.act a).1.Tidy := by
  cases a with
  | edit e => exact tidy_edit h e
  | toggleFold line => exact ⟨h.ordered.toggle v.doc line, h.fit.toggle line⟩
  | foldAll => exact ⟨(Folds.ordered_blocksFrom 0 v.doc.lines).1, Folds.fit_foldAll v.doc⟩
  | toggleNumbers => exact ⟨h.ordered, h.fit⟩

/-- **Folds are in order and fit**, after every run of actions. -/
theorem tidy_run (settings : Settings) (value : Text) (listener : Option Listener)
    (actions : List Action) : ((ofText settings value listener).run actions).1.Tidy :=
  run_induction (P := Tidy) (fun _ a h => tidy_act h a) (tidy_ofText settings value listener)
    actions

end View

/-- **Folds stay in order and keep to their blocks.** After every run of calls, each with a document
of its own, folds are in order and none hides the line where another starts. If the calls since all
folds were forgotten bring one document, the folds fit it, and no block has two; in a view this is
its present document. -/
theorem folds_run :
    (∀ calls : List Folds.Call,
      let fs := Folds.run [] calls
      fs.Pairwise (fun f g => f.first < g.first) ∧ (∀ f ∈ fs, f.first < f.last) ∧
        fs.Pairwise (fun f g => f.last < g.first) ∧ ∀ f ∈ fs, fs.isHidden f.first = false) ∧
    (∀ (d : Document) (earlier later : List Folds.Call), (∀ c ∈ later, c.Uses d) →
      (earlier = [] ∨ ∃ c rest, later = c :: rest ∧ c.resets = true) →
      let fs := Folds.run [] (earlier ++ later)
      fs.Fit d ∧ ∀ f ∈ fs, ∀ g ∈ fs, d.SameBlock f.first g.first → f = g) ∧
    ∀ (settings : Settings) (value : Text) (listener : Option Listener)
      (actions : List View.Action),
      let v := ((View.ofText settings value listener).run actions).1
      v.folds.Ordered ∧ v.folds.Fit v.doc ∧
        ∀ f ∈ v.folds, ∀ g ∈ v.folds, v.doc.SameBlock f.first g.first → f = g := by
  refine ⟨fun calls => ?_, fun d earlier later hlater hstart => ?_,
    fun settings value listener actions => ?_⟩
  · have h := Folds.ordered_run Folds.ordered_nil calls
    exact ⟨h.increasing, h.hides, h.apart, fun f hf => h.isHidden_first hf⟩
  · have h := Folds.ordered_run Folds.ordered_nil (earlier ++ later)
    have hfit := Folds.fit_run hlater earlier hstart
    exact ⟨hfit, fun f hf g hg hblock => h.eq_of_sameBlock hfit hf hg hblock⟩
  · have h := View.tidy_run settings value listener actions
    exact ⟨h.ordered, h.fit, fun f hf g hg hblock => h.ordered.eq_of_sameBlock h.fit hf hg hblock⟩

/-- A fold made on another document is forgotten when all blocks of this one are folded. -/
theorem folds_run_twoBlocks :
    let later : List Folds.Call := [.foldAll twoBlocks, .toggle twoBlocks 0]
    let fs := Folds.run [] ([.toggle ⟨"A\nB\nC\nD".toList⟩ 1] ++ later)
    (∀ c ∈ later, c.Uses twoBlocks) ∧ (Folds.Call.foldAll twoBlocks).resets = true ∧
      fs = [⟨3, 5⟩] ∧ fs.Fit twoBlocks := by
  have hrun : Folds.run [] [.toggle ⟨"A\nB\nC\nD".toList⟩ 1, .foldAll twoBlocks,
      .toggle twoBlocks 0] = [⟨3, 5⟩] := by decide +kernel
  intro later fs
  have huses : ∀ c ∈ later, c.Uses twoBlocks := by
    refine List.forall_mem_cons.2 ⟨?_, List.forall_mem_singleton.2 ?_⟩
    · exact fun d' hd' => (Option.mem_some.1 hd').symm
    · exact fun d' hd' => (Option.mem_some.1 hd').symm
  obtain ⟨-, hfit, -⟩ := folds_run
  refine ⟨huses, rfl, hrun, ?_⟩
  exact (hfit twoBlocks [.toggle ⟨"A\nB\nC\nD".toList⟩ 1] later huses (.inr ⟨_, _, rfl, rfl⟩)).1

end QueryEditor
