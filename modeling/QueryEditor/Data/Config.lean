import QueryEditor.Display.View
import QueryEditor.Toml.Document

/-!
# Configuration

A configuration has settings for the editor and for launching the interpreter. It is read from a
TOML document with the tables `editor` and `interpreter`; whatever is not given has its default, and
keys that are not known are ignored. A group of settings may also be given as an array with its
values in order, and a date in place of a table has one entry, named `momentKey`.

* `Launch`, `Config`, and their defaults;
* `group`: the values of a group of settings by name;
* `Config.parse`: the configuration of a document.
-/

namespace QueryEditor

/-- How the interpreter is launched and spoken to; times are in milliseconds. -/
structure Launch where
  command : Text := "java".toList
  args : List Text := ["-jar".toList, "real-0.8-SNAPSHOT-with-deps.jar".toList]
  workingDir : Option Text := none
  env : List (Text × Text) := [("NO_COLOR".toList, "1".toList), ("TERM".toList, "xterm".toList)]
  prompt : Text := ">>>".toList
  queryTimeout : Nat := 4000
  startupTimeout : Nat := 1000
  deriving DecidableEq, Repr

/-- The launch of a command with arguments, all else as by default. -/
def Launch.ofCommand (command : Text) (args : List Text) : Launch := { command, args }

structure Config where
  editor : Settings := {}
  interpreter : Launch := {}
  deriving DecidableEq, Repr

namespace Config

open Toml

/-! ## Values of settings -/

def flag? : Value → Option Bool
  | .boolean b => some b
  | _ => none

def text? : Value → Option Text
  | .string t => some t
  | _ => none

/-- A whole number that is not negative. -/
def count? : Value → Option Nat
  | .integer n => if 0 ≤ n then some n.toNat else none
  | _ => none

def texts? : Value → Option (List Text)
  | .array items => items.mapM text?
  | _ => none

/-- The name of the one entry of a date that stands in place of a table. -/
def momentKey : Text := "$__toml_private_datetime".toList

/-- An entry put into entries in the order of their keys. -/
def insertEntry (key value : Text) : List (Text × Text) → List (Text × Text)
  | [] => [(key, value)]
  | e :: es => if key < e.1 then (key, value) :: e :: es else e :: insertEntry key value es

/-- Names with texts, in the order of the names. -/
def environment? : Value → Option (List (Text × Text))
  | .table _ es => es.foldrM (fun e env => (text? e.2).map fun t => insertEntry e.1 t env) []
  | .moment written => some [(momentKey, written)]
  | _ => none

/-! ## Groups of settings -/

/-- The values of a group of settings by name; an array gives them in the order of `names`. -/
def group (names : List Text) : Value → Option (Text → Option Value)
  | .table _ es => some (Entries.find? es)
  | .array items => some fun name => (names.zip items).lookup name
  | .tables items => some fun name => (names.zip (items.map (.table .header ·))).lookup name
  | .moment _ => some fun _ => none
  | _ => none

/-- The value of a setting: the default when it is not given, none when it has the wrong shape. -/
def setting {α : Type} (read : Value → Option α) (default : α) : Option Value → Option α
  | none => some default
  | some v => read v

def settings? (v : Value) : Option Settings := do
  let names := ["show_line_numbers".toList, "fold_gutter".toList]
  let values ← group names v
  let showLineNumbers ← setting flag? true (values "show_line_numbers".toList)
  let foldGutter ← setting flag? true (values "fold_gutter".toList)
  return { showLineNumbers, foldGutter }

def launch? (v : Value) : Option Launch := do
  let names := ["command", "args", "working_dir", "env", "prompt", "query_timeout_ms",
    "startup_timeout_ms"].map String.toList
  let d : Launch := {}
  let values ← group names v
  let command ← setting text? d.command (values "command".toList)
  let args ← setting texts? d.args (values "args".toList)
  let workingDir ← setting (fun v => (text? v).map some) d.workingDir (values "working_dir".toList)
  let env ← setting environment? d.env (values "env".toList)
  let prompt ← setting text? d.prompt (values "prompt".toList)
  let queryTimeout ← setting count? d.queryTimeout (values "query_timeout_ms".toList)
  let startupTimeout ← setting count? d.startupTimeout (values "startup_timeout_ms".toList)
  return { command, args, workingDir, env, prompt, queryTimeout, startupTimeout }

/-- The configuration of a document; none if it is no TOML or has settings of the wrong shape. -/
def parse (t : Text) : Option Config := do
  let root ← Toml.parse t
  let editor ← setting settings? {} (root.find? "editor".toList)
  let interpreter ← setting launch? {} (root.find? "interpreter".toList)
  return { editor, interpreter }

end Config

end QueryEditor
