import QueryEditor.Unicode.Digit
import QueryEditor.Unicode.Word
import QueryEditor.Text.Basic

/-!
# Noise in console output

A terminal repeats what is typed and decorates what is printed. A line of output is cleaned: control
sequences, characters that are not printable ASCII and question marks are taken out, and echoes of
typed input are dropped as a whole.

* `stripSequences`: a text without control sequences;
* `isPromptEcho`, `isContinuationEcho`, `isCommandEcho`: the three forms of echoes;
* `isVisible`, `clean`: the cleaned line, none for noise;
* **`isVisible_of_mem_clean`**: a cleaned line has visible characters only.
-/

namespace QueryEditor

open Unicode

namespace Noise

/-! ## Control sequences -/

def isParameter (c : Char) : Bool := c.isDigit || c == ';' || c == '?'

/-- An intermediate character of a control sequence: a blank up to a slash. -/
def isIntermediate (c : Char) : Bool := decide (' ' ≤ c) && decide (c ≤ '/')

/-- The last character of a control sequence: an at sign up to a tilde. -/
def isFinal (c : Char) : Bool := decide ('@' ≤ c) && decide (c ≤ '~')

/-- What follows a control sequence whose introducer has been read; none if it is not one. -/
def afterSequence? (t : Text) : Option Text :=
  match (t.dropWhile isParameter).dropWhile isIntermediate with
  | [] => none
  | c :: rest => if isFinal c then some rest else none

theorem length_afterSequence? {t rest : Text} (h : afterSequence? t = some rest) :
    rest.length < t.length := by
  have le : ∀ (p : Char → Bool) (l : Text), (l.dropWhile p).length ≤ l.length := fun p l =>
    (List.dropWhile_sublist p).length_le
  unfold afterSequence? at h
  split at h
  · simp at h
  · rename_i c r heq
    have hle := le isIntermediate (t.dropWhile isParameter)
    have hle' := le isParameter t
    rw [heq] at hle
    split at h
    · simp only [Option.some.injEq] at h
      subst h
      simp only [List.length_cons] at hle
      omega
    · simp at h

/-- The text without its control sequences. -/
def stripSequences : Text → Text
  | '\x1b' :: '[' :: rest =>
    match _after : afterSequence? rest with
    | some rest' => stripSequences rest'
    | none => '\x1b' :: stripSequences ('[' :: rest)
  | [] => []
  | c :: rest => c :: stripSequences rest
  termination_by t => t.length
  decreasing_by
    · have := length_afterSequence? _after
      simp only [List.length_cons]
      omega
    · simp
    · simp

/-! ## Echoes -/

def afterDigits? (t : Text) : Option Text :=
  if (t.head?.map isDigit).getD false then some (t.dropWhile isDigit) else none

/-- White space, at least one character of it, and then a text with the property. -/
def afterBlanks (p : Text → Bool) : Text → Bool
  | [] => false
  | c :: rest => isWhite c && (p rest || afterBlanks p rest)

/-- The text starts with the prompt and has no line feed behind it. -/
def startsInput (prompt t : Text) : Bool :=
  prompt.isPrefixOf t && !(t.drop prompt.length).contains '\n'

/-- A dollar sign, a number, blanks, the prompt, and what was typed. -/
def isPromptEcho (prompt : Text) : Text → Bool
  | '$' :: rest => ((afterDigits? rest).map (afterBlanks (startsInput prompt))).getD false
  | _ => false

/-- A number, three dots, and what was typed on a further line. -/
def isContinuationEcho (t : Text) : Bool :=
  match (afterDigits? t).map Text.trimStart with
  | some ('.' :: '.' :: '.' :: rest) => !(Text.trimStart rest).contains '\n'
  | _ => false

/-- Nothing, or blanks and one argument. -/
def isArgument (t : Text) : Bool :=
  t.isEmpty || afterBlanks (fun r => !r.isEmpty && r.all fun c => !isWhite c) t

/-- A number, blanks, a dot-command and at most one argument. -/
def isCommandEcho (t : Text) : Bool :=
  let command : Text → Bool
    | '.' :: c :: rest => isWord c && isArgument (rest.dropWhile isWord)
    | _ => false
  ((afterDigits? t).map (afterBlanks command)).getD false

/-! ## Cleaning -/

/-- The character is kept: printable ASCII but the question mark, a tab, or a line break. -/
def isVisible (c : Char) : Bool :=
  (decide (' ' ≤ c) && decide (c ≤ '~') && c != '?') || c == '\t' || c == '\n' || c == '\r'

/-- A line of output without its noise; none if all of it is noise. -/
def clean (prompt line : Text) : Option Text :=
  let bare := stripSequences line
  if isPromptEcho prompt bare || isContinuationEcho bare.trim || isCommandEcho bare.trim then none
  else
    let visible := bare.filter isVisible
    if Text.trim visible = ['Q'] then none else some visible

/-- **Nothing invisible is left.** -/
theorem isVisible_of_mem_clean {prompt line cleaned : Text} (h : clean prompt line = some cleaned) :
    ∀ c ∈ cleaned, isVisible c = true := by
  simp only [clean] at h
  split at h
  · simp at h
  · split at h
    · simp at h
    · simp only [Option.some.injEq] at h
      subst h
      intro c hc
      exact (List.mem_filter.1 hc).2

end Noise

end QueryEditor
