import QueryEditor.Console.Splitter
import QueryEditor.Proofs.Utf8.Encoded

/-!
# Console output read as text

The splitter works on bytes in chunks. On the bytes of a text it does what a reader of characters
does that knows nothing of bytes and chunks: between two characters the bytes that wait are those
of the text that waits, and inside a character nothing is reported.

* `Report`: a line with what made the splitter report it, `Splitter.outputReports`: those of a
  whole output, in the chunks in which it comes;
* `Splitter.outputReports_eq`: how the output is cut makes no difference;
* `Reading.read`: one more character for the text that waits;
* **`Reading.push_encode`**: the splitter reads the text, `Reading.push_holding`: its lines.
-/

namespace QueryEditor

/-- What made the splitter report a line: a break, the prompt at the end of the bytes that wait,
or the end of the output. -/
inductive Cause where
  | lineBreak
  | prompt
  | ending
  deriving DecidableEq, Repr

/-- A line that the splitter reports, and what made it. -/
structure Report where
  cause : Cause
  line : Text
  deriving DecidableEq, Repr

namespace Splitter

/-- The report of one more byte. -/
def report? (s : Splitter) (b : UInt8) : Option Report :=
  (s.feed b).2.map fun line => ⟨if isBreak b then .lineBreak else .prompt, line⟩

def reports (s : Splitter) : List UInt8 → List Report
  | [] => []
  | b :: bs => (s.report? b).toList ++ reports (s.feed b).1 bs

/-- The reports of an output in chunks, up to its end. -/
def outputReports (s : Splitter) : List (List UInt8) → List Report
  | [] => (s.finish.2.map fun line => ⟨.ending, line⟩).toList
  | chunk :: chunks => s.reports chunk ++ outputReports (s.push chunk).1 chunks

def pushAll (s : Splitter) : List (List UInt8) → Splitter × List Text
  | [] => (s, [])
  | chunk :: chunks =>
    let (s, lines) := s.push chunk
    let (s, lines') := pushAll s chunks
    (s, lines ++ lines')

/-! ## Chunks -/

theorem map_line_reports (s : Splitter) (bs : List UInt8) :
    (s.reports bs).map Report.line = (s.push bs).2 := by
  induction bs generalizing s with
  | nil => rfl
  | cons b bs ih =>
    rw [reports, push, List.map_append, ih]
    simp only [report?]
    cases (s.feed b).2 <;> rfl

theorem reports_append (s : Splitter) (as bs : List UInt8) :
    s.reports (as ++ bs) = s.reports as ++ (s.push as).1.reports bs := by
  induction as generalizing s with
  | nil => rfl
  | cons a as ih => rw [List.cons_append, reports, ih, reports, push, List.append_assoc]

/-- **Chunks make no difference** to what is reported, and why. -/
theorem outputReports_eq (s : Splitter) (chunks : List (List UInt8)) :
    s.outputReports chunks = s.outputReports [chunks.flatten] := by
  induction chunks generalizing s with
  | nil => rfl
  | cons chunk chunks ih =>
    rw [outputReports, ih, List.flatten_cons]
    simp only [outputReports, reports_append, push_append, List.append_assoc]

theorem pushAll_eq (s : Splitter) (chunks : List (List UInt8)) :
    s.pushAll chunks = s.push chunks.flatten := by
  induction chunks generalizing s with
  | nil => rfl
  | cons chunk chunks ih => simp only [pushAll, ih, List.flatten_cons, push_append]

end Splitter

/-! ## Text that waits -/

namespace Reading

/-- One more character for the text that waits: the text that waits then, and the report. -/
def read (prompt waiting : Text) (c : Char) : Text × Option Report :=
  if c = '\r' ∨ c = '\n' then
    ([], if waiting = [] then none else some ⟨.lineBreak, waiting⟩)
  else if prompt ≠ [] ∧ prompt <:+ waiting ++ [c] then ([], some ⟨.prompt, waiting ++ [c]⟩)
  else (waiting ++ [c], none)

/-- More characters for the text that waits. -/
def readAll (prompt waiting : Text) : Text → Text × List Report
  | [] => (waiting, [])
  | c :: t =>
    let (waiting, report) := read prompt waiting c
    let (waiting, reports) := readAll prompt waiting t
    (waiting, report.toList ++ reports)

def holding (prompt : Text) (bytes : List UInt8) : Splitter :=
  ⟨Utf8.encode prompt, bytes.reverse⟩

theorem start_eq_holding (prompt : Text) : Splitter.start prompt = holding prompt [] := rfl

theorem line?_holding (prompt : Text) (bytes : List UInt8) :
    (holding prompt bytes).line? = if bytes = [] then none else some (Utf8.decode bytes) := by
  cases bytes with
  | nil => rfl
  | cons x bs => simp [Splitter.line?, holding]

theorem finish_holding (prompt waiting : Text) :
    (holding prompt (Utf8.encode waiting)).finish =
      (holding prompt [], if waiting = [] then none else some waiting) := by
  simp only [Splitter.finish, line?_holding, Utf8.encode_eq_nil_iff, Utf8.decode_encode]
  rfl

theorem atPrompt_holding (prompt : Text) (bytes : List UInt8) :
    (holding prompt bytes).atPrompt = true ↔ prompt ≠ [] ∧ Utf8.encode prompt <:+ bytes := by
  have hne : (Utf8.encode prompt).isEmpty = false ↔ prompt ≠ [] := by simp
  simp only [Splitter.atPrompt, holding, Bool.and_eq_true, Bool.not_eq_true',
    List.isPrefixOf_iff_prefix, List.reverse_prefix, hne]

theorem feed_holding (prompt : Text) (bytes : List UInt8) (b : UInt8) :
    (holding prompt bytes).feed b =
      if Splitter.isBreak b then
        (holding prompt [], if bytes = [] then none else some (Utf8.decode bytes))
      else if prompt ≠ [] ∧ Utf8.encode prompt <:+ bytes ++ [b] then
        (holding prompt [], some (Utf8.decode (bytes ++ [b])))
      else (holding prompt (bytes ++ [b]), none) := by
  have hcons : { holding prompt bytes with waiting := b :: (holding prompt bytes).waiting } =
      holding prompt (bytes ++ [b]) := by simp [holding]
  have hclear : ∀ bs, (holding prompt bs).cleared = holding prompt [] := fun bs => rfl
  unfold Splitter.feed
  split
  · rw [line?_holding, hclear]
  · simp only [hcons, atPrompt_holding, line?_holding, hclear]
    simp

/-! ## Characters -/

theorem isBreak_iff {b : UInt8} : Splitter.isBreak b = true ↔ b = 13 ∨ b = 10 := by
  simp [Splitter.isBreak]

theorem encoding_break {c : Char} {b : UInt8} {tail : List UInt8} (h : Utf8.Encoding c b tail)
    (hc : c = '\r' ∨ c = '\n') : tail = [] ∧ Splitter.isBreak b = true := by
  rcases hc with rfl | rfl
  · have hbytes : [13] = b :: tail := h.bytes
    obtain ⟨rfl, rfl⟩ := List.cons.inj hbytes
    exact ⟨rfl, rfl⟩
  · have hbytes : [10] = b :: tail := h.bytes
    obtain ⟨rfl, rfl⟩ := List.cons.inj hbytes
    exact ⟨rfl, rfl⟩

theorem isBreak_lead {c : Char} {b : UInt8} {tail : List UInt8} (h : Utf8.Encoding c b tail)
    (hc : ¬ (c = '\r' ∨ c = '\n')) : Splitter.isBreak b = false := by
  refine Bool.eq_false_iff.2 fun hb => hc ?_
  rcases isBreak_iff.1 hb with e | e
  · exact .inl (h.unique_of_nil (e ▸ Utf8.encoding_one (c := '\r') (by decide)))
  · exact .inr (h.unique_of_nil (e ▸ Utf8.encoding_one (c := '\n') (by decide)))

theorem isBreak_of_isContinuation {b : UInt8} (h : Utf8.isContinuation b = true) :
    Splitter.isBreak b = false := by
  refine Bool.eq_false_iff.2 fun hb => ?_
  rcases isBreak_iff.1 hb with rfl | rfl
  · exact absurd h (by decide)
  · exact absurd h (by decide)

section Character

variable (prompt waiting : Text) {c : Char} {b : UInt8} {tail : List UInt8}

theorem feed_part {x : UInt8} {u v : List UInt8} (hx : Splitter.isBreak x = false)
    (h : Utf8.Encoding c b (u ++ v)) (hv : v ≠ []) {bytes : List UInt8}
    (hbytes : bytes ++ [x] = Utf8.encode waiting ++ b :: u) :
    (holding prompt bytes).feed x = (holding prompt (Utf8.encode waiting ++ b :: u), none) := by
  have hquiet : ¬ (prompt ≠ [] ∧ Utf8.encode prompt <:+ bytes ++ [x]) := by
    rintro ⟨hp, hsuffix⟩
    rw [hbytes] at hsuffix
    exact Utf8.not_encode_suffix_part hp h hv waiting hsuffix
  rw [feed_holding, hx, if_neg Bool.false_ne_true, if_neg hquiet, hbytes]

theorem feed_last {x : UInt8} (hx : Splitter.isBreak x = false)
    (hc : ¬ (c = '\r' ∨ c = '\n')) {bytes : List UInt8}
    (hbytes : bytes ++ [x] = Utf8.encode (waiting ++ [c])) :
    ((holding prompt bytes).feed x).1 = holding prompt (Utf8.encode (read prompt waiting c).1) ∧
      (holding prompt bytes).report? x = (read prompt waiting c).2 := by
  rw [Splitter.report?, feed_holding, hx, if_neg Bool.false_ne_true, hbytes, Utf8.decode_encode,
    read, if_neg hc]
  simp only [Utf8.encode_suffix_iff]
  split
  · exact ⟨rfl, rfl⟩
  · exact ⟨rfl, rfl⟩

theorem push_tail (h : Utf8.Encoding c b tail) (hc : ¬ (c = '\r' ∨ c = '\n')) {u v : List UInt8}
    (huv : tail = u ++ v) (hv : v ≠ []) :
    ((holding prompt (Utf8.encode waiting ++ b :: u)).push v).1 =
        holding prompt (Utf8.encode (read prompt waiting c).1) ∧
      (holding prompt (Utf8.encode waiting ++ b :: u)).reports v =
        (read prompt waiting c).2.toList := by
  induction v generalizing u with
  | nil => exact absurd rfl hv
  | cons x v ih =>
    have hx : Splitter.isBreak x = false :=
      isBreak_of_isContinuation (h.later x (by simp [huv]))
    by_cases hnil : v = []
    · subst hnil
      have hbytes : Utf8.encode waiting ++ b :: u ++ [x] = Utf8.encode (waiting ++ [c]) := by
        rw [Utf8.encode_append, Utf8.encode_singleton h, huv, List.append_assoc, List.cons_append]
      obtain ⟨hstate, hreport⟩ := feed_last prompt waiting hx hc hbytes
      simp only [Splitter.push, Splitter.reports, hreport, hstate, List.append_nil, and_self]
    · have huv' : tail = (u ++ [x]) ++ v := by rw [huv, List.append_assoc, List.singleton_append]
      have hpart := feed_part prompt waiting hx (huv' ▸ h) hnil
        (show Utf8.encode waiting ++ b :: u ++ [x] = _ by
          rw [List.append_assoc, List.cons_append])
      obtain ⟨hstate, hreports⟩ := ih huv' hnil
      simp only [Splitter.push, Splitter.reports, Splitter.report?, hpart, Option.map_none,
        Option.toList_none, List.nil_append]
      exact ⟨hstate, hreports⟩

/-- **The bytes of one character** do to the splitter what the character does to the text. -/
theorem push_encode_singleton (c : Char) :
    ((holding prompt (Utf8.encode waiting)).push (Utf8.encode [c])).1 =
        holding prompt (Utf8.encode (read prompt waiting c).1) ∧
      (holding prompt (Utf8.encode waiting)).reports (Utf8.encode [c]) =
        (read prompt waiting c).2.toList := by
  obtain ⟨b, tail, h⟩ := Utf8.exists_encoding c
  rw [Utf8.encode_singleton h]
  by_cases hc : c = '\r' ∨ c = '\n'
  · obtain ⟨rfl, hb⟩ := encoding_break h hc
    simp only [Splitter.push, Splitter.reports, Splitter.report?, feed_holding, hb, if_true, read,
      if_pos hc, Utf8.encode_eq_nil_iff, Utf8.decode_encode, Utf8.encode_nil, List.append_nil,
      true_and]
    split
    · rfl
    · rfl
  · by_cases htail : tail = []
    · subst htail
      have hbytes : Utf8.encode waiting ++ [b] = Utf8.encode (waiting ++ [c]) := by
        rw [Utf8.encode_append, Utf8.encode_singleton h]
      obtain ⟨hstate, hreport⟩ := feed_last prompt waiting (isBreak_lead h hc) hc hbytes
      simp only [Splitter.push, Splitter.reports, hreport, hstate, List.append_nil, and_self]
    · have hpart := feed_part (u := []) prompt waiting (isBreak_lead h hc) h htail rfl
      obtain ⟨hstate, hreports⟩ := push_tail (u := []) prompt waiting h hc rfl htail
      simp only [Splitter.push, Splitter.reports, Splitter.report?, hpart, Option.map_none,
        Option.toList_none, List.nil_append]
      exact ⟨hstate, hreports⟩

end Character

/-- **The splitter reads the text**: its state and its reports after the bytes of a text. -/
theorem push_encode (prompt waiting t : Text) :
    ((holding prompt (Utf8.encode waiting)).push (Utf8.encode t)).1 =
        holding prompt (Utf8.encode (readAll prompt waiting t).1) ∧
      (holding prompt (Utf8.encode waiting)).reports (Utf8.encode t) =
        (readAll prompt waiting t).2 := by
  induction t generalizing waiting with
  | nil => exact ⟨rfl, rfl⟩
  | cons c t ih =>
    obtain ⟨hstate, hreport⟩ := push_encode_singleton prompt waiting c
    obtain ⟨hstate', hreports⟩ := ih (read prompt waiting c).1
    rw [← List.singleton_append, Utf8.encode_append, Splitter.push_append,
      Splitter.reports_append, hstate, hreport, hstate', hreports]
    exact ⟨rfl, rfl⟩

theorem push_holding (prompt waiting t : Text) :
    (holding prompt (Utf8.encode waiting)).push (Utf8.encode t) =
      (holding prompt (Utf8.encode (readAll prompt waiting t).1),
        (readAll prompt waiting t).2.map Report.line) := by
  obtain ⟨hstate, hreports⟩ := push_encode prompt waiting t
  rw [← hstate, ← hreports, Splitter.map_line_reports]

end Reading

end QueryEditor
