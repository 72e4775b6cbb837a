import MatchTree.Switch.Fault

/-!
# Why a command fails

* `Cause` — what went wrong; `Occasion` — what the command was about to do with which file.
* `Failure` — both. It is told as a chain from the occasion down to the deepest cause.
* `Failure.kind`, `Failure.exitCode`, `Failure.message` — the stable name, the exit code of the
  process and the wording.
-/

namespace MatchTree

/-- What ends a command. -/
inductive Cause where
  | compiler (fault : Fault)
  | switch (fault : SwitchFault)
  | file (flaw : FileFlaw)
  /-- There is not one value for each feature. -/
  | valueCount (labels : List String) (found : Nat)

namespace Cause

/-- The wordings of a cause and of the causes below it. A file's flaw stands below the fault that
wraps it. -/
def chain : Cause → List String
  | compiler fault =>
    match fault with
    | .file flaw => [fault.message, flaw.message]
    | _ => [fault.message]
  | switch fault => [fault.message]
  | file flaw => [flaw.message]
  | valueCount labels found =>
    let listed := String.intercalate "," labels
    [s!"expected {labels.length} feature values ({listed}), got {found}"]

/-- The stable name of a cause's kind. -/
def kind : Cause → String
  | compiler fault => fault.kind
  | _ => "Error"

/-- The process exit code for a cause's kind. -/
def exitCode : Cause → UInt8
  | compiler fault => fault.exitCode
  | _ => 1

end Cause

/-- What a command was about to do with a file. -/
inductive Occasion where
  | loadingManifest (path : String)
  | validatingFeatures (path : String)
  | loadingTree (path : String)
  | readingArtifact (path : String)
  | loadingArtifact (path : String)

def Occasion.message : Occasion → String
  | loadingManifest path => "loading manifest " ++ path
  | validatingFeatures path => "validating features of " ++ path
  | loadingTree path => "loading tree " ++ path
  | readingArtifact path => "reading artifact " ++ path
  | loadingArtifact path => "loading artifact " ++ path

/-- The end of a command that cannot go on. -/
structure Failure where
  occasion? : Option Occasion
  cause : Cause

namespace Failure

/-- A failure on no particular occasion. -/
def ofCause (cause : Cause) : Failure := ⟨none, cause⟩

def kind (f : Failure) : String := f.cause.kind

def exitCode (f : Failure) : UInt8 := f.cause.exitCode

/-- The wording of a failure: the whole chain on one line. -/
def message (f : Failure) : String :=
  s!"error[{f.kind}]: " ++
    String.intercalate ": " (f.occasion?.toList.map Occasion.message ++ f.cause.chain)

end Failure

end MatchTree
