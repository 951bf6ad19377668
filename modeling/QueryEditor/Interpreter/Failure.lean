import QueryEditor.Json.Reader

/-!
# Failures

What can go wrong when the interpreter is launched, spoken to, or given files, and how each failure
is told. A refusal of the system is told with its number; one that comes before the system is asked,
or after it answered, has none.

* `SystemFailure`, `Failure`;
* **`Failure.message`**: the wording, in one place.
-/

namespace QueryEditor

/-- A refusal by the system, or for data that cannot be handed to it or taken from it. -/
inductive SystemFailure where
  | notFound
  | permissionDenied
  | notDirectory
  | isDirectory
  | nameTooLong
  | brokenPipe
  | notSupported
  | invalidText
  | unusableName
  | unusableData
  deriving DecidableEq, Repr

def SystemFailure.message : SystemFailure → String
  | notFound => "No such file or directory (os error 2)"
  | permissionDenied => "Permission denied (os error 13)"
  | notDirectory => "Not a directory (os error 20)"
  | isDirectory => "Is a directory (os error 21)"
  | nameTooLong => "File name too long (os error 36)"
  | brokenPipe => "Broken pipe (os error 32)"
  | notSupported => "Operation not supported (os error 95)"
  | invalidText => "stream did not contain valid UTF-8"
  | unusableName => "file name contained an unexpected NUL byte"
  | unusableData => "nul byte found in provided data"

/-- A failure of a request or of the launch. -/
inductive Failure where
  | launch (command : Text) (cause : SystemFailure)
  | transfer (cause : SystemFailure)
  | missingFile (path : Text)
  | closed
  | config
  | database (cause : Json.Fault)
  deriving DecidableEq, Repr

def Failure.message : Failure → Text
  | launch command cause =>
    "failed to start interpreter '".toList ++ command ++ "': ".toList ++ cause.message.toList
  | transfer cause => "interpreter I/O error: ".toList ++ cause.message.toList
  | missingFile path => "file not found: ".toList ++ path
  | closed => "query client channel closed".toList
  | config => "invalid config".toList
  | database _ => "invalid database file".toList

end QueryEditor
