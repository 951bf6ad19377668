import QueryEditor.Text.Utf8

/-!
# Lines of console output

Output comes as bytes in chunks of any size. A line ends at a carriage return or a line feed, or
as soon as the bytes that wait end with the prompt, which comes without a break. Empty lines are
not reported.

* `Splitter`, `Splitter.feed`: one byte, `Splitter.push`: a chunk, `Splitter.finish`: the end;
* **`Splitter.push_append`**: how the bytes are cut into chunks makes no difference.
-/

namespace QueryEditor

/-- The bytes of the prompt, and the bytes that wait for the end of their line, latest first. -/
structure Splitter where
  prompt : List UInt8
  waiting : List UInt8
  deriving DecidableEq, Repr

namespace Splitter

def start (prompt : Text) : Splitter := ⟨Utf8.encode prompt, []⟩

/-- The bytes that wait, as a line. -/
def line? (s : Splitter) : Option Text :=
  if s.waiting.isEmpty then none else some (Utf8.decode s.waiting.reverse)

def cleared (s : Splitter) : Splitter := { s with waiting := [] }

def isBreak (b : UInt8) : Bool := b == 13 || b == 10

/-- The bytes that wait end with the prompt. -/
def atPrompt (s : Splitter) : Bool := !s.prompt.isEmpty && s.prompt.reverse.isPrefixOf s.waiting

/-- One more byte, and the line that it ends. -/
def feed (s : Splitter) (b : UInt8) : Splitter × Option Text :=
  if isBreak b then (s.cleared, s.line?)
  else
    let s := { s with waiting := b :: s.waiting }
    if s.atPrompt then (s.cleared, s.line?) else (s, none)

/-- One more chunk, and the lines that it ends. -/
def push (s : Splitter) : List UInt8 → Splitter × List Text
  | [] => (s, [])
  | b :: bs =>
    let (s, line) := s.feed b
    let (s, lines) := push s bs
    (s, line.toList ++ lines)

/-- The end of the output, and the line that was left without an end. -/
def finish (s : Splitter) : Splitter × Option Text := (s.cleared, s.line?)

/-- **Chunks make no difference**: two chunks are read as the one chunk that they form. -/
theorem push_append (s : Splitter) (as bs : List UInt8) :
    s.push (as ++ bs) =
      (((s.push as).1.push bs).1, (s.push as).2 ++ ((s.push as).1.push bs).2) := by
  induction as generalizing s with
  | nil => rfl
  | cons a as ih => simp [push, ih]

end Splitter

end QueryEditor
