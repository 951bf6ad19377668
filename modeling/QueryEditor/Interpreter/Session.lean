import QueryEditor.Console.Noise
import QueryEditor.Console.Request
import QueryEditor.Console.Response
import QueryEditor.Console.Splitter
import QueryEditor.Data.Database
import QueryEditor.Interpreter.Host

/-!
# Sessions

A session is a running interpreter with the lines of its output that have not been read. Each
output is split into lines and cleaned on its own; the lines of both wait in one queue. Lines that
wait when a request is sent are not part of its answer and are discarded.

An answer ends at its second prompt, or when no more output comes, because the interpreter waits
for the next line, takes longer for it than the session waits, or has exited or closed its outputs.

* `Session`, `Session.launch`, `Session.waitForPrompt`, `Session.awaitPrompt`;
* `Session.receive`: output arriving, `Session.closePipes`: pipes closed without an exit;
* `Session.write`: lines sent, `Session.hears`: whether they can be;
* `Session.ask`: a request and its answer;
* `Session.loadDatabase`, `Session.addTable`.
-/

namespace QueryEditor

/-- What a session knows of time and of pipes: the course of things, and how long a line of an
answer is waited for. -/
structure Link where
  course : Course := {}
  limit : Nat := 0

/-- A running interpreter and its unread output. -/
structure Session where
  prompt : Text
  child : Child
  output : Splitter
  errors : Splitter
  queue : List Text
  link : Link := {}

/-- What loading a database gives: the answer of the interpreter and the tables of the file. -/
structure Loaded where
  output : Text
  tables : List Table
  deriving DecidableEq, Repr

namespace Session

/-- Lines of output put into the queue, those that are noise aside. -/
def enqueue (s : Session) (lines : List Text) : Session :=
  { s with queue := s.queue ++ lines.filterMap (Noise.clean s.prompt) }

def push (s : Session) : Stream → List UInt8 → Session
  | .output, bytes =>
    let (output, lines) := s.output.push bytes
    { s with output }.enqueue lines
  | .errors, bytes =>
    let (errors, lines) := s.errors.push bytes
    { s with errors }.enqueue lines

/-- Both outputs are closed: what was left without an end becomes lines. -/
def close (s : Session) : Session :=
  let (output, last) := s.output.finish
  let (errors, last') := s.errors.finish
  { s with output, errors }.enqueue (last.toList ++ last'.toList)

def receive (s : Session) (b : Burst) : Session :=
  let s := s.push b.stream b.bytes
  if b.closing then s.close else s

/-- A pipe is closed: what was left on an output without an end becomes a line. -/
def closePipe (s : Session) : Pipe → Session
  | .input => s
  | .output .output =>
    let (output, last) := s.output.finish
    { s with output }.enqueue last.toList
  | .output .errors =>
    let (errors, last) := s.errors.finish
    { s with errors }.enqueue last.toList

/-- The pipes that the interpreter closes behind what it heard last. -/
def closePipes (s : Session) : Session :=
  (s.link.course.closes s.child.heard.length).foldl closePipe s

/-- The interpreter has closed a pipe, without an exit, behind something that it heard. -/
def isClosed (s : Session) (pipe : Pipe) : Bool :=
  (List.range (s.child.heard.length + 1)).any fun n => (s.link.course.closes n).contains pipe

/-- The interpreter runs, and its input is open. -/
def hears (s : Session) : Bool := !s.child.exited.isSome && !s.isClosed .input

/-- A session with an interpreter just launched. -/
def start (prompt : Text) (script : Script) (link : Link := {}) : Session :=
  let (child, burst) := Child.launch script
  (receive ⟨prompt, child, .start prompt, .start prompt, [], link⟩ burst).closePipes

def launch (host : Host) (l : Launch) : Except Failure Session :=
  match host.start l with
  | .ok script => .ok (start l.prompt script ⟨host.course l, l.queryTimeout⟩)
  | .error cause => .error (.launch l.command cause)

/-! ## Reading -/

/-- How many lines come before a wait of some length is over, when each takes its time; none if no
line is too late. -/
def linesWithin (limit : Nat) : List Nat → Option Nat
  | [] => none
  | d :: ds => if limit < d then some 0 else (linesWithin (limit - d) ds).map (· + 1)

/-- How many lines come before one of them takes longer than it is waited for; none if none does. -/
def linesEachWithin (limit : Nat) (delays : List Nat) : Option Nat :=
  delays.findIdx? fun d => decide (limit < d)

/-- The first lines of the queue are there when `read` looks at it, all of them if no number is
given; the others come later. -/
def readFirst {α : Type} (s : Session) (n : Option Nat) (read : Session → Session × α) :
    Session × α :=
  match n with
  | none => read s
  | some n =>
    let (r, a) := read { s with queue := s.queue.take n }
    ({ r with queue := r.queue ++ s.queue.drop n }, a)

/-- The times that the lines take which are waited for now. -/
def delays (s : Session) : List Nat := s.link.course.delays s.child.heard.length

/-- Read lines up to a prompt; the answer tells whether there was one. -/
def waitForPrompt (s : Session) : Session × Bool :=
  match s.queue.dropWhile fun line => !isPrompt line s.prompt with
  | [] => ({ s with queue := [] }, false)
  | _ :: queue => ({ s with queue }, true)

/-- Read lines up to a prompt, as long as they come in time. -/
def awaitPrompt (s : Session) (limit : Nat) : Session × Bool :=
  s.readFirst (linesWithin limit s.delays) waitForPrompt

/-! ## Requests -/

/-- What the interpreter wrote does not arrive on an output that it had closed before. -/
def arriving (s : Session) (b : Burst) : Burst :=
  if s.isClosed (.output b.stream) then { b with bytes := [] } else b

/-- One line sent to the interpreter, which hears it if it can. -/
def writeLine (s : Session) (line : List UInt8) : Session :=
  if s.hears then
    let (child, burst) := s.child.hear line
    match burst with
    | none => { s with child }.closePipes
    | some b => ({ s with child }.receive (s.arriving b)).closePipes
  else s

/-- The lines of bytes, each with the line feed that ends it. -/
def bytesByLine : List UInt8 → List (List UInt8)
  | [] => []
  | b :: bs =>
    if b = 10 then [b] :: bytesByLine bs
    else
      match bytesByLine bs with
      | [] => [[b]]
      | l :: ls => (b :: l) :: ls

/-- Send a request, which ends with a carriage return and a line feed. -/
def write (s : Session) (request : Text) : Except Failure Session :=
  if s.hears then .ok ((bytesByLine (Utf8.encode (request ++ ['\r', '\n']))).foldl writeLine s)
  else .error (.transfer .brokenPipe)

/-- Lines that wait are discarded, but for those that are not there yet. -/
def discard (s : Session) : Session :=
  { s with queue := s.queue.drop (s.queue.length - s.link.course.late s.child.heard.length) }

/-- Read the answer to the request that was sent. -/
def answer (s : Session) : Session × Text :=
  let (r, queue) := Response.start.collect s.prompt s.queue
  ({ s with queue }, r.text)

/-- Send the request of a text and read the answer, as long as its lines come in time. -/
def ask (s : Session) (t : Text) : Session × Except Failure Text :=
  match Request.prepare t with
  | none => (s, .ok noOutput)
  | some request =>
    let s := s.discard
    match s.write request with
    | .error e => (s, .error e)
    | .ok s =>
      let (s, text) := s.readFirst (linesEachWithin s.link.limit s.delays) answer
      (s, .ok text)

/-- The full path of a file to be read: it must be there, and its path must be told. -/
def existingFile (host : Host) (path : Text) : Except Failure (Entry × Text) :=
  match host.find path with
  | .error _ => .error (.missingFile path)
  | .ok e =>
    match e.path with
    | .error cause => .error (.transfer cause)
    | .ok full => .ok (e, full)

/-- Have the interpreter forget its tables and load a database file, and read the tables from the
file afterwards. Whether it forgot them makes no difference. -/
def loadDatabase (host : Host) (s : Session) (path : Text) :
    Session × Except Failure Loaded :=
  match existingFile host path with
  | .error failure => (s, .error failure)
  | .ok (e, full) =>
    let (s, _) := s.ask Request.resetCommand
    let (s, result) := s.ask (Request.loadCommand full)
    (s, do
      let output ← result
      let text ← (e.text s.child.heard).mapError .transfer
      let tables ← (Database.parse text).mapError .database
      return { output, tables })

/-- Have the interpreter add a table with the rows of a file. -/
def addTable (host : Host) (s : Session) (table : Text) (attributes : List Text) (path : Text) :
    Session × Except Failure Text :=
  match existingFile host path with
  | .error failure => (s, .error failure)
  | .ok (_, full) => s.ask (Request.addTableCommand table attributes full)

/-- End the interpreter; the answer is the code with which it had exited before, if it had. -/
def shutdown (s : Session) : Option Nat := s.child.exited

theorem ask_blank (s : Session) (t : Text) (h : t.isBlank = true) :
    s.ask t = (s, .ok noOutput) := by
  rw [ask, (Request.prepare_eq_none_iff t).2 h]

end Session

end QueryEditor
