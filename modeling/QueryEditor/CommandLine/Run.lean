import QueryEditor.CommandLine.Arguments
import QueryEditor.Display.Page
import QueryEditor.Interpreter.Client

/-!
# Runs of the command line

A run reads the configuration and the text, shows the text, and asks the interpreter for what the
arguments want: first the mode is set, then the text is run, then the tables are listed. What was
shown stays shown when something fails later.

* `Report`: exit code, output, error message and launches;
* `configOf`, `textOf`: what is read;
* `consult`: what the interpreter is asked, `present`: what is shown before and printed then;
* `run`: a run for arguments read, `invoke`: a run for arguments as given;
* `logged`: a message as it is logged.
-/

namespace QueryEditor.CommandLine

/-- What a run leaves: its exit code, its output, the message of the failure that ended it, and the
interpreters that it started or tried to. -/
structure Report where
  code : Nat
  output : Text
  message : Option Text
  launched : List Launch := []
  deriving DecidableEq, Repr

def loadConfig (host : Host) (path : Text) : Except Failure Config := do
  let text ← (host.read path).mapError .transfer
  match Config.parse text with
  | some c => return c
  | none => throw .config

/-- The configuration that the arguments name. -/
def configOf (host : Host) (a : Arguments) : Except Text Config :=
  match a.config with
  | none => .ok {}
  | some path => (loadConfig host path).mapError Failure.message

/-- The text that the arguments name: that of a file, or the input. -/
def textOf (host : Host) (input : List UInt8) (a : Arguments) : Except Text Text :=
  let text :=
    match a.file with
    | none => Entry.text ⟨.ok [], fun _ => .ok input⟩ []
    | some path => host.read path
  text.mapError fun cause : SystemFailure => cause.message.toList

def viewOf (settings : Settings) (text : Text) (fold : Bool) : View :=
  let view := View.ofText settings text none
  if fold then view.foldAll else view

def printed : Client.Result → Except Text Text
  | .output text => .ok (text ++ ['\n'])
  | .tables tables => .ok (tables.flatMap fun t => t.summary ++ ['\n'])
  | .loaded database => .ok (database.output ++ ['\n'])
  | .failed message => .error message

/-- All requests worked off, and the response to the one with a number, as it is printed. -/
def await (host : Host) (c : Client) (id : Client.RequestId) : Client × Except Text Text :=
  match (c.settle host).receive with
  | (c, some response) => (c, printed response.result)
  | (c, none) => (c, .error ("no response to request ".toList ++ (Nat.repr id).toList))

/-- The mode set in the interpreter, if one is wanted. -/
def selectMode (a : Arguments) (c : Client) : Client :=
  match a.mode with
  | none => c
  | some mode => (c.select .start mode).1

/-- What is printed of the text's run, if it is wanted and the text is not blank. -/
def runText (host : Host) (a : Arguments) (view : View) (c : Client) : Client × Except Text Text :=
  if a.run then
    match c.execute view.outgoing with
    | (c, some id) => await host c id
    | (c, none) => (c, .ok [])
  else (c, .ok [])

/-- What is printed of the tables, if they are wanted. -/
def listTables (host : Host) (a : Arguments) (c : Client) : Client × Except Text Text :=
  if a.tables then
    let (c, id) := c.listTables
    await host c id
  else (c, .ok [])

/-- A client is started, and what it tells about that is waited for, but not for longer than ten
times the time of a start. -/
def startClient (host : Host) (l : Launch) : Client × Option Client.Notification :=
  let c := Client.start host l
  if (host.course l).report ≤ 10 * l.startupTimeout then c.notified else (c, none)

/-- What the interpreter is asked: the client at the end, and what was printed. -/
def consult (host : Host) (l : Launch) (a : Arguments) (view : View) : Client × Report :=
  match startClient host l with
  | (c, some (.startFailed message)) => (c, ⟨1, [], some message, [l]⟩)
  | (c, _) =>
    match runText host a view (selectMode a c) with
    | (c, .error message) => (c, ⟨1, [], some message, [l]⟩)
    | (c, .ok ran) =>
      match listTables host a c with
      | (c, .error message) => (c, ⟨1, ran, some message, [l]⟩)
      | (c, .ok listed) => (c, ⟨0, ran ++ listed, none, [l]⟩)

/-- The text shown, and then what the interpreter is asked, if it is needed. -/
def present (host : Host) (config : Config) (a : Arguments) (text : Text) (color : Bool) : Report :=
  let view := viewOf config.editor text a.fold
  let shown := view.page (color && !a.plain)
  if a.needsInterpreter then
    let asked := (consult host config.interpreter a view).2
    { asked with output := shown ++ asked.output }
  else { code := 0, output := shown, message := none }

/-- A run for arguments that were read; `color` says that the output shows colours. -/
def run (host : Host) (input : List UInt8) (color : Bool) (a : Arguments) : Report :=
  match configOf host a with
  | .error message => { code := 1, output := [], message := some message }
  | .ok config =>
    match textOf host input a with
    | .error message => { code := 1, output := [], message := some message }
    | .ok text => present host config a text color

/-- A message as it is logged: the lines behind the first are indented by four blanks. -/
def logged (message : Text) : Text :=
  message.flatMap fun c => if c = '\n' then '\n' :: List.replicate 4 ' ' else [c]

/-- A run for arguments as they are given, with its message as it is logged. -/
def invoke (host : Host) (input : List UInt8) (color : Bool) (arguments : List Text) : Report :=
  match Arguments.read arguments with
  | .run a =>
    let report := run host input color a
    { report with message := report.message.map logged }
  | .help => { code := 0, output := helpText.toList, message := none }
  | .version => { code := 0, output := versionText.toList, message := none }
  | .mistake => { code := 2, output := [], message := none }

end QueryEditor.CommandLine
