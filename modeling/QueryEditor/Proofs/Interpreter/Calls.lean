import QueryEditor.Interpreter.Session
import QueryEditor.Proofs.Console.Screens

/-!
# Calls and their outcomes

A session is used by calls, one after the other. What they should give is read off the script of the
interpreter alone: a call that sends a request gives the answer of the reply whose number is that of
the request, and the other calls neither send nor change anything.

* `Call`, `CallResult`, `Session.call`, `Session.calls`: calls and what they give;
* `Script.reply?`, `Script.isOver`: the reply to a line, and whether the interpreter has exited;
* `Script.Shows`: a script whose greeting and replies are screens;
* `Script.outcomes`: what calls should give.
-/

namespace QueryEditor

inductive Call where
  | query (t : Text)
  | load (path : Text)
  | add (table : Text) (attributes : List Text) (path : Text)

inductive CallResult where
  | answered (r : Except Failure Text)
  | loaded (r : Except Failure Loaded)

/-- A query is one line, and a file that is asked for is missing. -/
def Call.IsProper (host : Host) : Call → Prop
  | query t => '\n' ∉ t.trim
  | load path => ∃ e, host.find path = .error e
  | add _ _ path => ∃ e, host.find path = .error e

namespace Session

def call (host : Host) (s : Session) : Call → Session × CallResult
  | .query t => let (s, r) := s.ask t; (s, .answered r)
  | .load path => let (s, r) := s.loadDatabase host path; (s, .loaded r)
  | .add table attributes path =>
    let (s, r) := s.addTable host table attributes path
    (s, .answered r)

def calls (host : Host) (s : Session) : List Call → Session × List CallResult
  | [] => (s, [])
  | c :: cs =>
    let (s, outcome) := s.call host c
    let (s, outcomes) := calls host s cs
    (s, outcome :: outcomes)

end Session

namespace Script

/-- The reply to a line with a number, counted from 0; the last reply is given again and again. -/
def reply? (s : Script) (i : Nat) : Option Reply := s.replies[min i (s.replies.length - 1)]?

/-- The interpreter has exited before the line with a number. -/
def isOver (s : Script) : Nat → Bool
  | 0 => s.exit.isSome
  | i + 1 => s.isOver i || (s.reply? i).any fun r => r.exit.isSome

/-- The greeting is a screen, and each reply is the prompt and a screen, which may depend on the
line. No line of the greeting is a prompt, and the lines of the replies are results. -/
structure Shows (s : Script) (p : Text) (greeting : Screen)
    (screen : Reply → List UInt8 → Screen) : Prop where
  greets : s.greeting = Utf8.encode (greeting.text p)
  banner : ∀ l ∈ greeting.lines, Noise.IsPlain l ∧ ¬ p <:+: l
  written : ∀ r ∈ s.replies, ∀ heard,
    r.written heard = Utf8.encode (p ++ '\n' :: (screen r heard).text p)
  results : ∀ r ∈ s.replies, ∀ heard, ∀ l ∈ (screen r heard).lines, IsResult p l

/-- The answer to the request with a number: the screen of the reply, or nothing from an
interpreter without replies. -/
def answer (s : Script) (screen : Reply → List UInt8 → Screen) (i : Nat) (heard : List UInt8) :
    Text :=
  match s.reply? i with
  | none => noOutput
  | some r => (screen r heard).answer

/-- What calls should give when the next request has a number. Requests fail once the interpreter
has exited. -/
def outcomes (s : Script) (screen : Reply → List UInt8 → Screen) : Nat → List Call → List CallResult
  | _, [] => []
  | i, .query t :: cs =>
    match Request.prepare t with
    | none => .answered (.ok noOutput) :: s.outcomes screen i cs
    | some request =>
      if s.isOver i then .answered (.error (.transfer .brokenPipe)) :: s.outcomes screen i cs
      else .answered (.ok (s.answer screen i (Utf8.encode (request ++ ['\r', '\n'])))) ::
        s.outcomes screen (i + 1) cs
  | i, .load path :: cs => .loaded (.error (.missingFile path)) :: s.outcomes screen i cs
  | i, .add _ _ path :: cs => .answered (.error (.missingFile path)) :: s.outcomes screen i cs

end Script

end QueryEditor
