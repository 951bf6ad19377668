import QueryEditor.Console.Prompt

/-!
# Responses

The output of one request: the first prompt after the request says that it was accepted, the second
that it is answered, and the lines in between are the answer. Further prompts change nothing.

* `Progress`, `Response`, `Response.accept`, `Response.text`;
* `noOutput`: what an answer without lines is called;
* **`Response.text_start`**: nothing collected is no output.
-/

namespace QueryEditor

inductive Progress where
  | pending
  | done
  deriving DecidableEq, Repr

/-- What has been collected of an answer: whether the request was accepted, and the lines. -/
structure Response where
  accepted : Bool
  lines : List Text
  deriving DecidableEq, Repr

/-- The answer to a request that printed nothing. -/
def noOutput : Text := "(no output)".toList

namespace Response

def start : Response := ⟨false, []⟩

/-- One more line of output. -/
def accept (r : Response) (prompt line : Text) : Response × Progress :=
  if isPrompt line prompt then
    if r.accepted then (r, .done) else ({ r with accepted := true }, .pending)
  else ({ r with lines := r.lines ++ [line] }, .pending)

/-- The lines collected, one under the other. -/
def text (r : Response) : Text := if r.lines.isEmpty then noOutput else Text.joinWith ['\n'] r.lines

theorem text_start : start.text = noOutput := rfl

/-- The answer collected from lines of output that are read until it is complete, and the lines
that are left over. -/
def collect (prompt : Text) (r : Response) : List Text → Response × List Text
  | [] => (r, [])
  | line :: lines =>
    match r.accept prompt line with
    | (r, .done) => (r, lines)
    | (r, .pending) => collect prompt r lines

end Response

end QueryEditor
