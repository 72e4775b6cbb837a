import MatchTree.Console.Failure
import MatchTree.Console.Files

/-!
# What a command does

A command reads first and writes last, so what it does is a list of steps and an exit code, both
settled before the first step is taken.

* `Step`, `Session` — a line to print, a file to write; all the steps of a command.
* `FileStore.run` — the steps on a store of files, down to the store, the texts and the exit code
  that are left. A file that cannot be written ends the session at once; what came before stays.
-/

namespace MatchTree

/-- One thing that a command does. -/
inductive Step where
  /-- Prints a line. -/
  | print (line : String)
  /-- Prints a line that tells how many microseconds the command has taken. -/
  | printTimed (line : Nat → String)
  /-- Prints a line to the error stream. -/
  | report (line : String)
  /-- Writes a file. -/
  | write (path content : String)

/-- All that a command does. -/
structure Session where
  steps : List Step
  exitCode : UInt8

namespace Session

/-- The session that takes some steps and then fails. -/
def failed (steps : List Step) (f : Failure) : Session :=
  ⟨steps ++ [.report f.message], f.exitCode⟩

/-- The session of a result: its failure is told. -/
def ofExcept : Except Failure Session → Session
  | .ok s => s
  | .error f => failed [] f

end Session

/-- The end of a session that cannot write a file. -/
def writeFailure (flaw : FileFlaw) : Failure := .ofCause (.compiler (.file flaw))

/-- What is left when a session is over. -/
structure Outcome where
  store : FileStore
  output : String
  errors : String
  exitCode : UInt8

/-- Takes steps on a store; `exitCode` is that of a session whose files can all be written. -/
def FileStore.runSteps (micros : Nat) (exitCode : UInt8) : FileStore → List Step → Outcome
  | s, [] => ⟨s, "", "", exitCode⟩
  | s, .print line :: steps =>
    let o := s.runSteps micros exitCode steps
    { o with output := line ++ "\n" ++ o.output }
  | s, .printTimed line :: steps =>
    let o := s.runSteps micros exitCode steps
    { o with output := line micros ++ "\n" ++ o.output }
  | s, .report line :: steps =>
    let o := s.runSteps micros exitCode steps
    { o with errors := line ++ "\n" ++ o.errors }
  | s, .write path content :: steps =>
    match s.write path content with
    | .ok s => s.runSteps micros exitCode steps
    | .error flaw =>
      ⟨s, "", (writeFailure flaw).message ++ "\n", (writeFailure flaw).exitCode⟩

/-- What a session leaves when it takes `micros` microseconds. -/
def FileStore.run (s : FileStore) (micros : Nat) (session : Session) : Outcome :=
  s.runSteps micros session.exitCode session.steps

end MatchTree
