import QueryEditor.Language.Mode

/-!
# Arguments of the command line

The editor takes at most one file and some options. An option may be given once; a value follows
its option, or stands behind an equals sign. Everything behind `--` is a file name, and so is a
single dash. Help and version are given as soon as they are asked for, unless a mistake comes first.

* `Arguments`, `Invocation`;
* `Arguments.read`: what a list of arguments asks for;
* `helpText`, `versionText`.
-/

namespace QueryEditor.CommandLine

structure Arguments where
  file : Option Text := none
  config : Option Text := none
  fold : Bool := false
  plain : Bool := false
  mode : Option EvalMode := none
  run : Bool := false
  tables : Bool := false
  deriving DecidableEq, Repr

inductive Invocation where
  | run (a : Arguments)
  | help
  | version
  | mistake
  deriving DecidableEq, Repr

def helpText : String :=
  "Relational algebra query editor\n\n" ++
  "Usage: ra-editor [OPTIONS] [FILE]\n\n" ++
  "Arguments:\n" ++
  "  [FILE]  Query file to open (reads stdin if omitted)\n\n" ++
  "Options:\n" ++
  "      --config <FILE>       Config file with [editor] and [interpreter] tables\n" ++
  "      --fold                Collapse every foldable block\n" ++
  "      --plain               Never emit colors\n" ++
  "      --mode <set|bag|off>  Evaluation mode to select before running\n" ++
  "      --run                 Run the document through the interpreter\n" ++
  "      --tables              List the interpreter's tables\n" ++
  "  -h, --help                Print help\n" ++
  "  -V, --version             Print version\n"

def versionText : String := "ra-editor 0.1.0\n"

namespace Arguments

def needsInterpreter (a : Arguments) : Bool := a.run || a.tables || a.mode.isSome

def addFile (a : Arguments) (name : Text) : Option Arguments :=
  if a.file.isSome || name.isEmpty then none else some { a with file := some name }

/-- An option without a value. -/
def addFlag (a : Arguments) (name : String) : Option Arguments :=
  if name = "fold" ∧ !a.fold then some { a with fold := true }
  else if name = "plain" ∧ !a.plain then some { a with plain := true }
  else if name = "run" ∧ !a.run then some { a with run := true }
  else if name = "tables" ∧ !a.tables then some { a with tables := true }
  else none

def takesValue (name : String) : Bool := name == "config" || name == "mode"

/-- An option with its value. -/
def addOption (a : Arguments) (name : String) (value : Text) : Option Arguments :=
  if name = "config" then
    if a.config.isSome || value.isEmpty then none else some { a with config := some value }
  else if name = "mode" ∧ a.mode = none then
    match EvalMode.parse value with
    | .ok m => some { a with mode := some m }
    | .error _ => none
  else none

/-- The argument stands for options and not for a name or a value. -/
def isOption : Text → Bool
  | '-' :: _ :: _ => true
  | _ => false

/-- File names behind the mark that ends the options. -/
def addFiles (a : Arguments) : List Text → Option Arguments
  | [] => some a
  | name :: names => (a.addFile name).bind (addFiles · names)

/-- What short options ask for: the first one counts. -/
def ofShort : Text → Invocation
  | 'h' :: _ => .help
  | 'V' :: _ => .version
  | _ => .mistake

/-- What is asked for by further arguments. -/
def readFrom (a : Arguments) : List Text → Invocation
  | [] => .run a
  | ['-', '-'] :: rest =>
    match a.addFiles rest with
    | some a => .run a
    | none => .mistake
  | ('-' :: '-' :: long) :: rest =>
    let name := String.ofList (long.takeWhile (· != '='))
    match long.dropWhile (· != '=') with
    | _ :: value =>
      match a.addOption name value with
      | some a => readFrom a rest
      | none => .mistake
    | [] =>
      if name = "help" then .help
      else if name = "version" then .version
      else if takesValue name then
        match rest with
        | [] => .mistake
        | value :: rest =>
          if isOption value then .mistake
          else
            match a.addOption name value with
            | some a => readFrom a rest
            | none => .mistake
      else
        match a.addFlag name with
        | some a => readFrom a rest
        | none => .mistake
  | ('-' :: c :: short) :: _ => ofShort (c :: short)
  | name :: rest =>
    match a.addFile name with
    | some a => readFrom a rest
    | none => .mistake

def read (arguments : List Text) : Invocation := readFrom {} arguments

end Arguments

end QueryEditor.CommandLine
