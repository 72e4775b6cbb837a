/-!
# Requests

* `Request` — what the command line can be asked for.
* `Request.inputs` — the files that an answer may depend on.
-/

namespace MatchTree

/-- How a report is laid out. -/
inductive Layout where
  | table
  | json
  deriving DecidableEq, Inhabited

def Layout.ofName? : String → Option Layout
  | "table" => some .table
  | "json" => some .json
  | _ => none

/-- What the command line can be asked for; trees, features, outputs and artifacts are paths. -/
inductive Request where
  /-- Write the program of one tree. -/
  | compile (tree features output : String)
  /-- Write the programs of several trees into a directory. -/
  | batch (trees : List String) (features outDir : String)
  /-- Show the program of a tree. -/
  | inspect (tree features : String) (layout : Layout)
  /-- Compare the verdicts of a tree, its program and a written one on one list of values. -/
  | classify (tree features : String) (values : List UInt32) (artifact? : Option String)
  /-- Check the slices of the features. -/
  | checkContract (features : String) (layout : Layout)
  | version
  | help
  deriving DecidableEq

/-- The files that the answer to a request may depend on. -/
def Request.inputs : Request → List String
  | compile tree features _ => [features, tree]
  | batch trees features _ => features :: trees
  | inspect tree features _ => [features, tree]
  | classify tree features _ artifact? => [features, tree] ++ artifact?.toList
  | checkContract features _ => [features]
  | version | help => []

end MatchTree
