import QueryEditor.CommandLine.Run

/-!
# The command line

The outer layer of the editor: arguments, input and named files are read, the run is computed, and
its output is written. Interpreters are launched by hosts that embed the library; on the command
line a launch is refused.

* `readFile`: what reading a file gives, `fileHost`: a host with the files read beforehand;
* `main`.
-/

namespace QueryEditor.CommandLine

/-- The number of an error, which may be given as its negative. -/
def errorNumber (code : UInt32) : UInt32 := if code < 0x80000000 then code else 0 - code

/-- The refusal behind an error of the system. -/
def failureOf : IO.Error → SystemFailure
  | .noFileOrDirectory .. => .notFound
  | .permissionDenied .. => .permissionDenied
  | .inappropriateType _ code _ => if errorNumber code = 20 then .notDirectory else .isDirectory
  | .invalidArgument _ code _ => if errorNumber code = 36 then .nameTooLong else .unusableName
  | _ => .notSupported

/-- What reading a file gives; a directory is there, but not to be read. -/
def readFile (name : Text) : IO (Text × Except SystemFailure Entry) := do
  match ← (IO.FS.readBinFile (String.ofList name)).toBaseIO with
  | .ok bytes => return (name, .ok ⟨.ok name, fun _ => .ok bytes.toList⟩)
  | .error e =>
    match failureOf e with
    | .isDirectory => return (name, .ok ⟨.ok name, fun _ => .error .isDirectory⟩)
    | cause => return (name, .error cause)

/-- A host with files that were read beforehand. -/
def fileHost (entries : List (Text × Except SystemFailure Entry)) : Host where
  find name := (entries.lookup name).getD (.error .notFound)
  launch _ := .error .notSupported
  preset := []

/-- The files that arguments name. -/
def filesOf : Invocation → List Text
  | .run a => a.config.toList ++ a.file.toList
  | _ => []

/-- All bytes of an input. -/
partial def readInput (input : IO.FS.Stream) (bytes : ByteArray) : IO ByteArray := do
  let chunk ← input.read 65536
  if chunk.isEmpty then return bytes else readInput input (bytes ++ chunk)

/-- The input is read when no file is named. -/
def inputOf : Invocation → IO (List UInt8)
  | .run a => do
    if a.file.isSome then return [] else return (← readInput (← IO.getStdin) .empty).toList
  | _ => return []

end QueryEditor.CommandLine

open QueryEditor QueryEditor.CommandLine in
def main (arguments : List String) : IO UInt32 := do
  let arguments := arguments.map String.toList
  let invocation := Arguments.read arguments
  let host := fileHost (← (filesOf invocation).mapM readFile)
  let input ← inputOf invocation
  let output ← IO.getStdout
  let report := invoke host input (← output.isTty) arguments
  output.putStr (String.ofList report.output)
  if let some message := report.message then IO.eprintln (String.ofList message)
  return report.code.toUInt32
