import MatchTree.Compile
import MatchTree.Console.Failure
import MatchTree.Settings.Manifest
import MatchTree.Tree.Artifact

/-!
# What commands read

* `Manifest.load`, `Tree.load` — from files.
* `loadManifest`, `loadTree` — the same, where a fault becomes a failure that tells the file. The
  features are checked as soon as the manifest is read.
* `Inputs` — all that a command about one tree needs. The manifest is read before the tree.
-/

namespace MatchTree

/-- What the files hold, by path. -/
abbrev FileReader := String → Except FileFlaw String

/-- A result that failed on some occasion. -/
def during (occasion : Occasion) (result : Except Fault α) : Except Failure α :=
  result.mapError fun fault => ⟨some occasion, .compiler fault⟩

/-- A result that failed on no particular occasion. -/
def compiling (result : Except Fault α) : Except Failure α :=
  result.mapError fun fault => .ofCause (.compiler fault)

/-- The manifest of a file. -/
def Manifest.load (read : FileReader) (path : String) : Except Fault Manifest := do
  Manifest.ofToml (← (read path).mapError .file)

/-- The tree of a file. -/
def Tree.load (read : FileReader) (path : String) : Except Fault Tree := do
  Tree.ofJson (← (read path).mapError .file)

/-- The manifest of a file and the schema of its features. -/
def loadManifest (read : FileReader) (path : String) : Except Failure (Manifest × Schema) := do
  let manifest ← during (.loadingManifest path) (Manifest.load read path)
  let schema ← during (.validatingFeatures path) manifest.schema
  return (manifest, schema)

/-- The tree of a file. -/
def loadTree (read : FileReader) (path : String) : Except Failure Tree :=
  during (.loadingTree path) (Tree.load read path)

/-- What a command about one tree needs. -/
structure Inputs where
  manifest : Manifest
  schema : Schema
  tree : Tree

/-- The inputs of a command about one tree. -/
def Inputs.load (read : FileReader) (tree features : String) : Except Failure Inputs := do
  let (manifest, schema) ← loadManifest read features
  return ⟨manifest, schema, ← loadTree read tree⟩

/-- The program of the inputs. -/
def Inputs.compile (i : Inputs) : Except Failure Compilation :=
  compiling (i.tree.compile i.schema i.manifest.budget i.manifest.naming)

/-- The verdict of the inputs' tree. -/
def Inputs.verdict (i : Inputs) (values : List UInt32) : Except Failure Verdict :=
  match i.tree.verdict? (i.schema.valueOf values) with
  | some v => .ok v
  | none => compiling (.error (.malformedTree 0 .endless))

end MatchTree
