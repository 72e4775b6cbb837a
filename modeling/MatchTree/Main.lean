import MatchTree.Console.Arguments
import MatchTree.Console.Commands

/-!
# The command line

Reads the files that a request may depend on, and takes the steps of its session.
-/

namespace MatchTree

/-- The flaw with the number that the system gives it, which some calls give as a negative one. -/
def flawOfNumber (number : UInt32) (details : String) : FileFlaw :=
  match (if number < 0x80000000 then number else 0 - number).toNat with
  | 2 => .notFound
  | 17 => .alreadyExists
  | 20 => .notDirectory
  | 21 => .isDirectory
  | 36 => .nameTooLong
  | n => .other details n

/-- What the system says about a file. -/
def flawOf : IO.Error → FileFlaw
  | .noFileOrDirectory _ number details | .alreadyExists _ number details
  | .inappropriateType _ number details | .permissionDenied _ number details
  | .resourceExhausted _ number details | .invalidArgument _ number details
  | .otherError number details => flawOfNumber number details
  | e => .other (toString e) 0

/-- The content of a file. -/
def readText (path : String) : IO (Except FileFlaw String) := do
  match ← (IO.FS.readBinFile path).toBaseIO with
  | .ok bytes =>
    match String.fromUTF8? bytes with
    | some text => return .ok text
    | none => return .error .notText
  | .error e => return .error (flawOf e)

/-- Whether there is a directory at a path. -/
def isDirectory (path : String) : IO Bool := do
  return ← ((← IO.currentDir) / path).isDir

/-- Makes a directory, unless it is there. -/
def ensureDirectory (path : String) : IO (Except FileFlaw Unit) := do
  match ← (IO.FS.createDir path).toBaseIO with
  | .ok _ => return .ok ()
  | .error e => if ← isDirectory path then return .ok () else return .error (flawOf e)

/-- Makes the directory at the end of a path, its parts given last first, and those above it where
it cannot be made without them. -/
def makeDirectories (start : String) : List String → IO (Except FileFlaw Unit)
  | [] => return .ok ()
  | part :: front => do
    let path := start ++ String.intercalate "/" (part :: front).reverse
    match ← ensureDirectory path with
    | .error .notFound =>
      match ← makeDirectories start front with
      | .ok _ => ensureDirectory path
      | .error flaw => return .error flaw
    | result => return result

/-- Writes a file and makes the directories on the way to it. -/
def writeText (path content : String) : IO (Except FileFlaw Unit) := do
  let start := if Path.start path = [] then "" else "/"
  match ← makeDirectories start (Path.parts path).dropLast.reverse with
  | .ok _ => return (← (IO.FS.writeFile path content).toBaseIO).mapError flawOf
  | .error flaw => return .error flaw

/-- Takes the steps of a session; `began` is when it began, in nanoseconds. -/
def perform (began : Nat) (exitCode : UInt8) : List Step → IO UInt8
  | [] => return exitCode
  | .print line :: steps => do
    IO.println line
    perform began exitCode steps
  | .printTimed line :: steps => do
    IO.println (line (((← IO.monoNanosNow) - began) / 1000))
    perform began exitCode steps
  | .report line :: steps => do
    IO.eprintln line
    perform began exitCode steps
  | .write path content :: steps => do
    match ← writeText path content with
    | .ok _ => perform began exitCode steps
    | .error flaw =>
      IO.eprintln (writeFailure flaw).message
      return (writeFailure flaw).exitCode

end MatchTree

open MatchTree in
/-- Answers the arguments; `PLANTER_FEATURES` stands for missing features. -/
def main (arguments : List String) : IO UInt32 := do
  let began ← IO.monoNanosNow
  match Request.ofArguments (← IO.getEnv "PLANTER_FEATURES") arguments with
  | .error misuse =>
    IO.eprintln misuse.message
    return misuseCode.toUInt32
  | .ok request =>
    let held ← request.inputs.mapM fun path => return (path, ← readText path)
    let read (path : String) : Except FileFlaw String :=
      ((held.find? fun h => h.1 == path).map (·.2)).getD (.error .notFound)
    let session := request.session read
    return (← perform began session.exitCode session.steps).toUInt32
