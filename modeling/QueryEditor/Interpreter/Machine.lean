import QueryEditor.Interpreter.Host

/-!
# Machines

A machine is a host in memory: directories, files and programs at places below a root. A name is
followed part by part, from the root when it starts with a slash and else from a given directory.
Parts are looked up in directories alone, also those that lead nowhere else, so a slash behind the
name of a file is refused.

A program is started in a working directory. Its name is followed from there when it has a slash,
and else from the one directory that holds the programs.

* `Place`, `Node`, `Machine`;
* `Machine.step`, `Machine.follow`, `Machine.locate`: the parts of a name, and a whole name;
* `Machine.entry`, `Machine.launch`: what is read and started, `Machine.host`: the host of both.
-/

namespace QueryEditor

/-- Where something is: the names on the way from the root. -/
abbrev Place : Type := List Text

/-- The full name of a place. -/
def Place.name (p : Place) : Text := if p.isEmpty then ['/'] else p.flatMap ('/' :: ·)

/-- What is at a place; a program is started by a launch, in a working directory. -/
inductive Node where
  | directory
  | file (bytes : List UInt8)
  | program (start : Launch → Place → Script)

/-- Things at their places, the directory in which the editor runs, the one that holds the programs,
and the variables that are set. -/
structure Machine where
  nodes : List (Place × Node)
  here : Place
  programs : Place
  preset : List Text

/-- All texts that a launch hands to the system. -/
def Launch.texts (l : Launch) : List Text :=
  l.command :: l.args ++ l.workingDir.toList ++ l.env.flatMap fun v => [v.1, v.2]

namespace Machine

/-! ## Names -/

/-- The longest part of a name, in bytes. -/
def maxPart : Nat := 255

def maxName : Nat := 4095

/-- The character that ends a text for the system, so that no text for the system has it. -/
def nul : Char := '\x00'

/-- What is at a place; the directories above a thing need not be listed. -/
def node? (m : Machine) (p : Place) : Option Node :=
  match m.nodes.lookup p with
  | some node => some node
  | none => if p.isEmpty || m.nodes.any fun n => p.isPrefixOf n.1 then some .directory else none

/-- There is a directory at a place. -/
def isDirectory (m : Machine) (p : Place) : Bool :=
  match m.node? p with
  | some .directory => true
  | _ => false

/-- Where one part of a name leads from a place; above the root is the root. -/
def step (m : Machine) (p : Place) (part : Text) : Except SystemFailure Place :=
  if !m.isDirectory p then .error .notDirectory
  else if part = [] || part = ['.'] then .ok p
  else if part = ['.', '.'] then .ok p.dropLast
  else if maxPart < (Utf8.encode part).length then .error .nameTooLong
  else if (m.node? (p ++ [part])).isSome then .ok (p ++ [part])
  else .error .notFound

/-- Where the parts of a name lead from a place. -/
def follow (m : Machine) (p : Place) (parts : List Text) : Except SystemFailure Place :=
  parts.foldlM m.step p

def locate (m : Machine) (p : Place) (name : Text) : Except SystemFailure Place :=
  if name.contains nul then .error .unusableName
  else if maxName < (Utf8.encode name).length then .error .nameTooLong
  else if name.isEmpty then .error .notFound
  else m.follow (if name.head? = some '/' then [] else p) (name.splitOn '/')

/-! ## Files and programs -/

/-- What reading gives at a place; programs are not to be read. -/
def content (m : Machine) (p : Place) : Except SystemFailure (List UInt8) :=
  match m.node? p with
  | some (.file bytes) => .ok bytes
  | some .directory => .error .isDirectory
  | some (.program _) => .error .permissionDenied
  | none => .error .notFound

/-- What a name leads to, with its full name. -/
def entry (m : Machine) (name : Text) : Except SystemFailure Entry := do
  let p ← m.locate m.here name
  return ⟨.ok p.name, fun _ => m.content p⟩

/-- The working directory of a launch. -/
def workingPlace (m : Machine) (l : Launch) : Except SystemFailure Place :=
  match l.workingDir with
  | none => return m.here
  | some name => do
    let p ← m.locate m.here name
    if m.isDirectory p then return p else throw .notDirectory

/-- Start a program: the texts of the launch are checked first, then its working directory, and the
program last. -/
def launch (m : Machine) (l : Launch) : Except SystemFailure Script := do
  if l.texts.any (·.contains nul) then throw .unusableData
  let here ← m.workingPlace l
  let p ← m.locate (if l.command.contains '/' then here else m.programs) l.command
  match m.node? p with
  | some (.program start) => return start l here
  | _ => throw .permissionDenied

def host (m : Machine) : Host where
  find := m.entry
  launch := m.launch
  preset := m.preset

end Machine

end QueryEditor
