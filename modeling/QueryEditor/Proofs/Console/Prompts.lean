import QueryEditor.Console.Prompt
import QueryEditor.Proofs.Console.Lines
import QueryEditor.Proofs.Text.Trimmed

/-!
# Two readers of the prompt

The splitter ends a line where the prompt ends. What reads the lines takes one for a prompt when the
line ends with the prompt after it has been trimmed. No line that has another end is taken for a
prompt, but white space at an end of the prompt itself is trimmed away with that of the line.

* `PromptsAgree`: the two readers agree on every output;
* `isPrompt_append_iff`: what a line that ends with the prompt is taken for;
* **`promptsAgree_iff`**: they agree for the prompts that trimming leaves as they are.
-/

namespace QueryEditor

open Reading

/-- In every output, in whatever chunks it comes, the lines that are reported for the prompt are
those that are taken for a prompt. -/
def PromptsAgree (p : Text) : Prop :=
  ∀ (t : Text) (chunks : List (List UInt8)), chunks.flatten = Utf8.encode t →
    ∀ r ∈ (Splitter.start p).outputReports chunks, r.cause = .prompt ↔ isPrompt r.line p = true

variable {p : Text}

theorem isPrompt_iff (line p : Text) : isPrompt line p = true ↔ p <:+ line.trim :=
  List.isSuffixOf_iff_suffix

theorem isPrompt_append_iff (hp : p ≠ []) (u : Text) : isPrompt (u ++ p) p = true ↔
    p.trimEnd = p ∧ (u.isBlank = true → p.trimStart = p) := by
  rw [isPrompt_iff, Text.suffix_trim_append_iff hp]

theorem isPrompt_eq_false {line : Text} (h : ¬ p <:+: line) :
    isPrompt line p = false := by
  refine Bool.eq_false_iff.2 fun e => h ?_
  exact ((isPrompt_iff line p).1 e).isInfix.trans (Text.trim_isInfix line)

theorem line_of_mem_outputReports (hp : p ≠ []) {t : Text} {chunks : List (List UInt8)}
    (ht : chunks.flatten = Utf8.encode t) {r : Report}
    (hr : r ∈ (Splitter.start p).outputReports chunks) :
    r.cause = .prompt ∧ p <:+ r.line ∨ r.cause ≠ .prompt ∧ ¬ p <:+: r.line := by
  have hstart : ¬ p <:+: [] := fun h => hp (List.infix_nil.1 h)
  obtain ⟨hwaiting, hreports⟩ := reports_readAll t hstart
  rw [outputReports_encode ht, List.mem_append] at hr
  rcases hr with hr | hr
  · rcases hreports r hr with hprompt | ⟨hcause, hline⟩
    · exact .inl hprompt
    · exact .inr ⟨by rw [hcause]; decide, hline⟩
  · split at hr
    · exact absurd hr List.not_mem_nil
    · obtain rfl := List.mem_singleton.1 hr
      exact .inr ⟨nofun, hwaiting⟩

theorem isPrompt_iff_of_mem_outputReports (hp : p ≠ []) {t : Text} {chunks : List (List UInt8)}
    (ht : chunks.flatten = Utf8.encode t) {r : Report}
    (hr : r ∈ (Splitter.start p).outputReports chunks) :
    isPrompt r.line p = true ↔ r.cause = .prompt ∧ p.trimEnd = p ∧
      ∀ u, r.line = u ++ p → u.isBlank = true → p.trimStart = p := by
  rcases line_of_mem_outputReports hp ht hr with ⟨hcause, u, hu⟩ | ⟨hcause, hline⟩
  · rw [← hu, isPrompt_append_iff hp]
    refine ⟨fun ⟨hend, hstart⟩ => ⟨hcause, hend, fun v hv => ?_⟩, fun ⟨_, hend, hstart⟩ =>
      ⟨hend, hstart u rfl⟩⟩
    rw [← List.append_cancel_right hv]
    exact hstart
  · rw [isPrompt_eq_false hline]
    exact iff_of_false Bool.false_ne_true fun h => hcause h.1

theorem outputReports_prompt (hp : p ≠ []) (hbreak : Unbroken p) :
    (Splitter.start p).outputReports [Utf8.encode p] = [⟨.prompt, p⟩] := by
  rw [outputReports_encode (t := p) (by simp), readAll_prompt hp hbreak List.not_mem_nil]
  rfl

/-- **The two readers of the prompt.** A line is taken for a prompt only if it was reported for it,
and the readers agree on every output just when trimming leaves the prompt as it is. -/
theorem promptsAgree_iff (hp : p ≠ []) (hbreak : Unbroken p) :
    (∀ (t : Text) (chunks : List (List UInt8)), chunks.flatten = Utf8.encode t →
      ∀ r ∈ (Splitter.start p).outputReports chunks, isPrompt r.line p = true ↔
        r.cause = .prompt ∧ p.trimEnd = p ∧
          ∀ u, r.line = u ++ p → u.isBlank = true → p.trimStart = p) ∧
      (PromptsAgree p ↔ p.trim = p) := by
  refine ⟨fun t chunks ht r hr => isPrompt_iff_of_mem_outputReports hp ht hr, ?_⟩
  rw [Text.trim_eq_self_iff]
  constructor
  · intro h
    -- The output that has nothing but the prompt decides.
    have hr : (⟨.prompt, p⟩ : Report) ∈ (Splitter.start p).outputReports [Utf8.encode p] := by
      rw [outputReports_prompt hp hbreak]
      exact List.mem_singleton_self _
    have hprompt : isPrompt ([] ++ p) p = true := (h p [Utf8.encode p] (by simp) _ hr).1 rfl
    obtain ⟨hend, hstart⟩ := (isPrompt_append_iff hp []).1 hprompt
    exact ⟨hstart rfl, hend⟩
  · rintro ⟨hstart, hend⟩ t chunks ht r hr
    rw [isPrompt_iff_of_mem_outputReports hp ht hr]
    exact ⟨fun hcause => ⟨hcause, hend, fun _ _ _ => hstart⟩, fun h => h.1⟩

theorem promptsAgree_angles : ">>>".toList ≠ [] ∧ Unbroken ">>>".toList ∧
    PromptsAgree ">>>".toList := by
  have hp : ">>>".toList ≠ [] := by decide
  have hbreak : Unbroken ">>>".toList := by decide
  exact ⟨hp, hbreak, (promptsAgree_iff hp hbreak).2.2 (by decide)⟩

theorem not_promptsAgree_dollar : "$ ".toList ≠ [] ∧ Unbroken "$ ".toList ∧
    ¬ PromptsAgree "$ ".toList := by
  refine ⟨by decide, by decide, fun h => ?_⟩
  have hr : (⟨.prompt, "$ ".toList⟩ : Report) ∈
      (Splitter.start "$ ".toList).outputReports [Utf8.encode "$ ".toList] := by
    rw [outputReports_prompt (by decide) (by decide)]
    exact List.mem_singleton_self _
  exact absurd ((h "$ ".toList [Utf8.encode "$ ".toList] (by simp) _ hr).1 rfl) (by decide)

end QueryEditor
