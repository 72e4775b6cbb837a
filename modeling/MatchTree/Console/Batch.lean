import MatchTree.Command
import MatchTree.Console.Inputs
import MatchTree.Console.Session

/-!
# Writing programs

* `compileSession` — the program of one tree, into a file.
* `batchSession` — the programs of several trees, each into a file of a directory (`artifactPath`).
  A tree that cannot be read ends the batch before anything is written; one that does not compile is
  told and passed over, and the first of them settles the exit code.
-/

namespace MatchTree

/-- Writes the program of one tree. -/
def compileSession (read : FileReader) (tree features output : String) :
    Except Failure Session := do
  let c ← (← Inputs.load read tree features).compile
  let s := c.stats
  let told (micros : Nat) : String :=
    s!"compiled {output} ({s.stages} stages, {s.bands} range entries, {s.rows} classify rows, " ++
      s!"{micros}us)"
  return ⟨[.write output c.program.text, .printTimed told], 0⟩

/-- The file of a tree's program: named for the tree's file, in the given directory. -/
def artifactPath (outDir tree : String) : String :=
  Path.join outDir ((Path.stem? tree).getD "tree" ++ ".txt")

/-- What a batch does for one tree. -/
def batchSteps (outDir tree : String) : Except Fault Compilation → List Step
  | .ok c =>
    let output := artifactPath outDir tree
    [.write output c.program.text,
      .print s!"ok {tree} -> {output} ({c.stats.rows} rows)"]
  | .error fault => [.print s!"failed {tree}: [{fault.kind}] {fault.message}"]

/-- The exit code of the first fault; zero if there is none. -/
def firstExitCode (results : List (Except Fault Compilation)) : UInt8 :=
  (results.findSome? fun result =>
    match result with
    | .ok _ => none
    | .error fault => some fault.exitCode).getD 0

/-- Writes the programs of several trees. -/
def batchSession (read : FileReader) (trees : List String) (features outDir : String) :
    Except Failure Session := do
  let (manifest, schema) ← loadManifest read features
  let loaded ← trees.mapM (loadTree read)
  let results := compileBatch loaded schema manifest.budget manifest.naming
  return ⟨(trees.zip results).flatMap fun (tree, result) => batchSteps outDir tree result,
    firstExitCode results⟩

end MatchTree
