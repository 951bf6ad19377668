import QueryEditor.Interpreter.Session
import QueryEditor.Language.Mode
import QueryEditor.Language.Punctuation

/-!
# Clients

A client runs a session behind a queue of requests. Requests that want an answer get a number when
they are queued; they are worked off in order, and each gives one response with its number. What
else happens is told by notifications: the session is ready, or could not start, a mode was set, the
interpreter has exited. After a request to shut down nothing more is worked off.

* `Request`, `Response`, `Notification`;
* `Client.start`, `Client.send`, and the requests by name: `execute`, `listTables`, `loadDatabase`,
  `addTable`, `setMode`, `command`;
* `Client.work`: one request worked off, `Client.settle`: all of them;
* `receive`, `notified`: the next response and the next notification;
* **`Client.execute_blank`**: a blank text is not queued and takes no number.
-/

namespace QueryEditor.Client

abbrev RequestId : Type := Nat

inductive Request where
  | execute (id : RequestId) (expression : Text)
  | command (text : Text)
  | setMode (mode : EvalMode)
  | listTables (id : RequestId)
  | loadDatabase (id : RequestId) (path : Text)
  | addTable (id : RequestId) (name : Text) (attributes : List Text) (path : Text)
  | shutdown
  deriving DecidableEq, Repr

inductive Result where
  | output (text : Text)
  | tables (tables : List Table)
  | loaded (database : Loaded)
  | failed (message : Text)
  deriving DecidableEq, Repr

/-- A response: the number of its request, and what the request gave. -/
structure Response where
  id : RequestId
  result : Result
  deriving DecidableEq, Repr

inductive Notification where
  | ready
  | startFailed (message : Text)
  | modeSet (mode : EvalMode)
  | exited (code : Option Nat)
  deriving DecidableEq, Repr

end Client

/-- A client: its session while it is open, the number of the next request, the requests to be
worked off, the responses and notifications to be received, and whether it is meant to run. -/
structure Client where
  session : Option Session
  nextId : Client.RequestId
  queue : List Client.Request
  responses : List Client.Response
  notifications : List Client.Notification
  running : Bool

namespace Client

def Result.ofExcept {α : Type} (f : α → Result) : Except Failure α → Result
  | .ok a => f a
  | .error e => .failed e.message

/-- A client for an interpreter to be launched; it is ready also when no prompt comes in time. -/
def start (host : Host) (l : Launch) : Client :=
  match Session.launch host l with
  | .ok s => ⟨some (s.awaitPrompt l.startupTimeout).1, 1, [], [], [.ready], true⟩
  | .error e => ⟨none, 1, [], [], [.startFailed e.message, .exited none], false⟩

/-! ## Queueing requests -/

def takeId (c : Client) : Client × RequestId := ({ c with nextId := c.nextId + 1 }, c.nextId)

/-- Queue a request; it is lost when the session is over. -/
def send (c : Client) (r : Request) : Client × Except Failure Unit :=
  if c.session.isSome then ({ c with queue := c.queue ++ [r] }, .ok ()) else (c, .error .closed)

def sendNumbered (c : Client) (r : RequestId → Request) : Client × RequestId :=
  let (c, id) := c.takeId
  ((c.send (r id)).1, id)

/-- Queue the expression of a text, in plain punctuation, unless it is blank. -/
def execute (c : Client) (t : Text) : Client × Option RequestId :=
  let expression := normalize t
  if expression.isBlank then (c, none)
  else let (c, id) := c.sendNumbered (.execute · expression); (c, some id)

def listTables (c : Client) : Client × RequestId := c.sendNumbered .listTables

def loadDatabase (c : Client) (path : Text) : Client × RequestId :=
  c.sendNumbered (.loadDatabase · path)

def addTable (c : Client) (name : Text) (attributes : List Text) (path : Text) :
    Client × RequestId :=
  c.sendNumbered (.addTable · name attributes path)

def setMode (c : Client) (mode : EvalMode) : Client := (c.send (.setMode mode)).1

/-- Queue a command whose answer is not wanted. -/
def command (c : Client) (text : Text) : Client × Except Failure Unit := c.send (.command text)

/-- Choose a mode in the menu and queue its command. -/
def select (c : Client) (menu : ModeSelector) (mode : EvalMode) : Client × ModeSelector :=
  let (menu, text) := menu.select mode
  ((c.command text).1, menu)

def requestShutdown (c : Client) : Client := (c.send .shutdown).1

/-- Queue the end and stop running: what waits before it need not be worked off. -/
def shutdown (c : Client) : Client := { c.requestShutdown with running := false }

/-! ## Working requests off -/

/-- The client after its session has ended. -/
def finish (c : Client) (s : Session) : Client :=
  { c with
    session := none, queue := [], running := false
    notifications := c.notifications ++ [.exited s.shutdown] }

def respond (c : Client) (s : Session) (id : RequestId) (result : Result) : Client :=
  { c with session := some s, responses := c.responses ++ [⟨id, result⟩] }

/-- One request worked off in a session. -/
def handle (host : Host) (c : Client) (s : Session) : Request → Client
  | .execute id expression =>
    let (s, result) := s.ask expression
    c.respond s id (.ofExcept .output result)
  | .command text => { c with session := some (s.ask text).1 }
  | .setMode mode =>
    let (s, result) := s.ask mode.command
    let c := { c with session := some s }
    match result with
    | .ok _ => { c with notifications := c.notifications ++ [.modeSet mode] }
    | .error _ => c
  | .listTables id =>
    let (s, result) := s.ask QueryEditor.Request.tablesCommand
    c.respond s id (.ofExcept (fun text => .tables (Table.listed text)) result)
  | .loadDatabase id path =>
    let (s, result) := s.loadDatabase host path
    c.respond s id (.ofExcept .loaded result)
  | .addTable id name attributes path =>
    let (s, result) := s.addTable host name attributes path
    c.respond s id (.ofExcept .output result)
  | .shutdown => c.finish s

/-- The next request worked off. A client that is not meant to run ends instead. -/
def work (host : Host) (c : Client) : Client :=
  match c.session with
  | none => c
  | some s =>
    if c.running then
      match c.queue with
      | [] => c
      | r :: queue => handle host { c with queue } s r
    else c.finish s

/-- The next requests worked off, a number of them. -/
def workMany (host : Host) (c : Client) : Nat → Client
  | 0 => c
  | n + 1 => workMany host (c.work host) n

/-- All requests worked off that are queued. -/
def settle (host : Host) (c : Client) : Client := c.workMany host (c.queue.length + 1)

/-! ## Receiving -/

def receive (c : Client) : Client × Option Response :=
  ({ c with responses := c.responses.drop 1 }, c.responses.head?)

def notified (c : Client) : Client × Option Notification :=
  ({ c with notifications := c.notifications.drop 1 }, c.notifications.head?)

theorem execute_blank (c : Client) (t : Text) (h : (normalize t).isBlank = true) :
    c.execute t = (c, none) := by simp [execute, h]

end Client

end QueryEditor
