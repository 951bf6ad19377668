import QueryEditor.Data.Config
import QueryEditor.Interpreter.Failure
import QueryEditor.Text.Utf8

/-!
# The host of an interpreter

What the system around the editor offers: files, and interpreters that can be launched. An
interpreter writes a greeting, and then for each line that it is sent the next of its replies, the
last one again and again; a reply may end it. What it writes depends on the line and goes to one of
its two outputs. A reply comes to an end, and the next line is taken behind it.

Beside what an interpreter says there is the course that things take with it: how long its lines
are under way, and which of its pipes it closes although it goes on running.

* `Stream`, `Reply`, `Script`: an interpreter;
* `Child`: a running interpreter, `Child.hear`: one line sent to it;
* `Pipe`, `Course`: pipes that are closed, and times;
* `Entry`, `Host`: files and launches, `Host.read`, `Host.start`.
-/

namespace QueryEditor

inductive Stream where
  | output
  | errors
  deriving DecidableEq, Repr

/-- What an interpreter does for a line: the bytes that it writes, where it writes them, and the
code with which it exits afterwards, if it does. -/
structure Reply where
  written : List UInt8 → List UInt8
  stream : Stream
  exit : Option Nat

/-- An interpreter: its greeting, and its replies in order. -/
structure Script where
  greeting : List UInt8
  stream : Stream
  exit : Option Nat
  replies : List Reply

/-- A running interpreter: the replies to come, its exit code once it has exited, and the lines
that it was sent while it ran. -/
structure Child where
  replies : List Reply
  exited : Option Nat
  heard : List (List UInt8)

/-- What an interpreter wrote at once, and whether its outputs closed behind it. -/
structure Burst where
  stream : Stream
  bytes : List UInt8
  closing : Bool
  deriving DecidableEq, Repr

namespace Child

/-- A launched interpreter and its greeting. -/
def launch (s : Script) : Child × Burst :=
  (⟨s.replies, s.exit, []⟩, ⟨s.stream, s.greeting, s.exit.isSome⟩)

/-- The replies that are left after one; the last one stays. -/
def advance : List Reply → List Reply
  | [r] => [r]
  | rs => rs.drop 1

/-- One line sent to the interpreter, and what it writes. Without replies it stays silent, and
once it has exited it hears nothing. -/
def hear (c : Child) (line : List UInt8) : Child × Option Burst :=
  if c.exited.isSome then (c, none)
  else
    match c.replies with
    | [] => ({ c with heard := c.heard ++ [line] }, none)
    | r :: rs =>
      (⟨advance (r :: rs), r.exit, c.heard ++ [line]⟩,
       some ⟨r.stream, r.written line, r.exit.isSome⟩)

end Child

/-- A pipe to or from an interpreter. -/
inductive Pipe where
  | input
  | output (stream : Stream)
  deriving DecidableEq, Repr

/-- The course that things take with an interpreter, step by step: the first step is its greeting,
and each line that it hears begins another. Times are in milliseconds.

The launch is reported after `report`. Behind each step the pipes of `closes` are closed without an
exit. In each step a line that is waited for comes by `delays` after the one before; lines for which
no time is given are there at once. When the request behind a step is sent, `late` lines of those
that wait are not there yet. -/
structure Course where
  report : Nat := 0
  closes : Nat → List Pipe := fun _ => []
  delays : Nat → List Nat := fun _ => []
  late : Nat → Nat := fun _ => 0

/-- A file or directory: its full path, if there is a way to tell it, and what reading it gives once
an interpreter has heard some lines. -/
structure Entry where
  path : Except SystemFailure Text
  content : List (List UInt8) → Except SystemFailure (List UInt8)

/-- What names lead to, launches of interpreters with the course that they take, and the variables
that are set already. -/
structure Host where
  find : Text → Except SystemFailure Entry
  launch : Launch → Except SystemFailure Script
  preset : List Text
  course : Launch → Course := fun _ => {}

/-- The text of a file, if it is one. -/
def Entry.text (e : Entry) (heard : List (List UInt8)) : Except SystemFailure Text := do
  let bytes ← e.content heard
  match Utf8.decode? bytes with
  | some t => return t
  | none => throw .invalidText

/-- The text of a file asked for by a name, before any interpreter has heard anything. -/
def Host.read (h : Host) (name : Text) : Except SystemFailure Text := do
  let e ← h.find name
  e.text []

/-- Start an interpreter; a variable that is set already stays as it is. -/
def Host.start (h : Host) (l : Launch) : Except SystemFailure Script :=
  h.launch { l with env := l.env.filter fun v => !h.preset.contains v.1 }

end QueryEditor
