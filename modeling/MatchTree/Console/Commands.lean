import MatchTree.Console.Batch
import MatchTree.Console.Report
import MatchTree.Console.Request
import MatchTree.Switch.Pipeline

/-!
# Answers to requests

* `inspectSession`, `classifySession`, `contractSession` — the commands that only tell.
* `Request.session` — what the command line does for a request, given what the files hold.
-/

namespace MatchTree

/-- Shows the program of a tree. -/
def inspectSession (read : FileReader) (tree features : String) (layout : Layout) :
    Except Failure Session := do
  let c ← (← Inputs.load read tree features).compile
  match layout with
  | .json => return ⟨[.printTimed fun micros => Json.indentedText (c.inspection micros)], 0⟩
  | .table => return ⟨c.inspectionTables.map .print, 0⟩

/-- The exit code for verdicts that differ. -/
def mismatchCode : UInt8 := 3

/-- The end of a comparison. -/
def comparison (steps : List Step) (agree : Bool) : Session :=
  if agree then ⟨steps ++ [.print "consistent"], 0⟩
  else ⟨steps ++ [.print "MISMATCH"], mismatchCode⟩

/-- The verdict of the tables that an artifact sets up. -/
def artifactVerdict (read : FileReader) (naming : Naming) (path : String) (values : List UInt32) :
    Except Failure Verdict := do
  let text ← (read path).mapError fun flaw => ⟨some (.readingArtifact path), .file flaw⟩
  let tables ← (Installed.ofText naming text).mapError fun fault =>
    ⟨some (.loadingArtifact path), .switch fault⟩
  ((Pipeline.new tables).classify values).1.mapError fun fault => .ofCause (.switch fault)

/-- Compares the verdicts on one list of values. -/
def classifySession (read : FileReader) (tree features : String) (values : List UInt32)
    (artifact? : Option String) : Except Failure Session := do
  let i ← Inputs.load read tree features
  if values.length ≠ i.schema.size then
    .error (.ofCause (.valueCount (i.schema.features.map (·.label)) values.length))
  else
    let c ← i.compile
    let expected ← i.verdict values
    let compiled := c.program.classify values
    let steps : List Step := [
      .print ("tree:     " ++ expected.name),
      .print ("codes:    " ++ codesText (c.program.encode values)),
      .print ("compiled: " ++ compiled.name)]
    match artifact? with
    | none => return comparison steps (compiled == expected)
    | some path =>
      match artifactVerdict read i.manifest.naming path values with
      | .error failure => return .failed steps failure
      | .ok installed =>
        return comparison (steps ++ [.print ("artifact: " ++ installed.name)])
          (compiled == expected && installed == expected)

/-- The exit code for features whose slices do not yield their domains. -/
def violatedCode : UInt8 := 4

/-- Checks the slices of the features. -/
def contractSession (read : FileReader) (features : String) (layout : Layout) :
    Except Failure Session := do
  let (_, schema) ← loadManifest read features
  let shown :=
    match layout with
    | .json => Json.indentedText schema.checkReport
    | .table => schema.checkTable
  let found := schema.check.length
  if found = 0 then
    return ⟨[.print shown,
      .report s!"ok {schema.size} features honour their extraction rules"], 0⟩
  else
    return ⟨[.print shown,
      .report s!"violated {found} violations across {schema.size} features"], violatedCode⟩

/-- The line that tells the version. -/
def versionText : String := "planter 0.1.0"

/-- What the command line can be asked for, in words. -/
def helpText : String :=
  String.intercalate "\n" [
    "Decision tree to match-action table compiler",
    "",
    "Usage: planter [OPTIONS] <COMMAND>",
    "",
    "Commands:",
    "  compile         --tree <TREE> --features <FEATURES> --output <OUTPUT>",
    "  batch           --features <FEATURES> --out-dir <OUT_DIR> <TREES>...",
    "  inspect         --tree <TREE> --features <FEATURES> [--format table|json]",
    "  classify        --tree <TREE> --features <FEATURES> --values <VALUES> [--artifact <PATH>]",
    "  check-contract  --features <FEATURES> [--format table|json]",
    "  help            Print this message",
    "",
    "Options:",
    "  -v, --verbose...  Raise log verbosity",
    "  -h, --help        Print help",
    "  -V, --version     Print version"]

/-- What the command line does for a request. -/
def Request.session (read : FileReader) : Request → Session
  | compile tree features output => .ofExcept (compileSession read tree features output)
  | batch trees features outDir => .ofExcept (batchSession read trees features outDir)
  | inspect tree features layout => .ofExcept (inspectSession read tree features layout)
  | classify tree features values artifact? =>
    .ofExcept (classifySession read tree features values artifact?)
  | checkContract features layout => .ofExcept (contractSession read features layout)
  | version => ⟨[.print versionText], 0⟩
  | help => ⟨[.print helpText], 0⟩

end MatchTree
