import MatchTree.Number.Shortest
import MatchTree.Verdict

/-!
# Why a compilation fails

* `Fault` — the causes, each with what is needed to name the culprit.
* `FeatureFlaw`, `TreeFlaw`, `CutFlaw`, `ImportFlaw`, `FileFlaw` — the finer causes.
* `Fault.kind`, `Fault.exitCode`, `Fault.message` — the stable name, the process exit code and the
  wording of a fault.
-/

namespace MatchTree

/-- What is inconsistent in the description of a feature. -/
inductive FeatureFlaw where
  | badWidth (bits : UInt8)
  | emptyDomain (least greatest : UInt32)
  | domainTooWide (greatest : UInt32) (bits : UInt8)
  | repeated
  deriving DecidableEq

/-- Why the nodes of an arena are no tree. -/
inductive TreeFlaw where
  | noNodes
  | reachedTwice
  | noSuchChild (child : Int) (count : Nat)
  | rootAsChild
  | unreachable
  | dangling
  | endless
  | badFeature (index : Int)
  deriving DecidableEq

/-- Why a feature's domain cannot be cut as the tree asks. -/
inductive CutFlaw where
  | outsideDomain (node : UInt32) (threshold : Int64) (least greatest : UInt32)
  | tooManyBands (count : Nat) (limit : UInt64)
  | misaligned (lower upper : Int64)
  deriving DecidableEq

/-- Why a text or a set of arrays is no tree. -/
inductive ImportFlaw where
  | malformedText
  | otherShape
  | unequalLengths
  | unusableThreshold (node : Nat) (threshold : Binary64)
  | badCounts (node found : Nat)
  deriving DecidableEq

/-- Why a file cannot be read or written. -/
inductive FileFlaw where
  | notFound
  | isDirectory
  | notDirectory
  | alreadyExists
  | nameTooLong
  | notText
  /-- What else the system may say, with its number. -/
  | other (text : String) (number : Nat)
  deriving DecidableEq

/-- The causes that end a compilation. -/
inductive Fault where
  | cut (feature : UInt32) (flaw : CutFlaw)
  | undeclaredFeature (feature node : UInt32)
  | tableOverflow (route rows : Nat) (limit : UInt64)
  | ambiguous (codes : List UInt16) (first : Nat) (firstVerdict : Verdict) (second : Nat)
      (secondVerdict : Verdict)
  | malformedTree (node : UInt32) (flaw : TreeFlaw)
  | tooDeep (depth : Nat) (limit : UInt64)
  | tooManyTables (tables : Nat) (limit : UInt64)
  | invalidFeature (feature : UInt32) (flaw : FeatureFlaw)
  | artifact (flaw : ImportFlaw)
  | manifest
  | file (flaw : FileFlaw)
  deriving DecidableEq

/-- Codes in decimal with a blank between them. -/
def codesText (codes : List UInt16) : String :=
  String.intercalate " " (codes.map fun c => toString c.toNat)

def FeatureFlaw.message : FeatureFlaw → String
  | .badWidth bits => s!"bit width {bits.toNat} not in 1..=32"
  | .emptyDomain least greatest => s!"domain min {least.toNat} above max {greatest.toNat}"
  | .domainTooWide greatest bits =>
    s!"domain max {greatest.toNat} does not fit in {bits.toNat} bits"
  | .repeated => "declared more than once"

def TreeFlaw.message : TreeFlaw → String
  | .noNodes => "tree has no nodes"
  | .reachedTwice => "node reached twice (shared child or cycle)"
  | .noSuchChild child count => s!"child {child} out of bounds ({count} nodes)"
  | .rootAsChild => "root used as a child"
  | .unreachable => "unreachable from root"
  | .dangling => "dangling child reference"
  | .endless => "a walk from the root does not end"
  | .badFeature index => s!"split on feature index {index}"

def CutFlaw.message : CutFlaw → String
  | .outsideDomain node threshold least greatest =>
    s!"threshold {threshold.toInt} at node {node.toNat} outside domain " ++
      s!"[{least.toNat}, {greatest.toNat}]"
  | .tooManyBands count limit =>
    s!"{count} ranges exceed the per-feature budget of {limit.toNat}"
  | .misaligned lower upper =>
    s!"interval [{lower.toInt}, {upper.toInt}] is not aligned to range edges"

/-- The words in front of what is wrong with an artifact's text. -/
def ImportFlaw.notATree : String := "not a native or scikit-learn tree artifact: "

def ImportFlaw.message : ImportFlaw → String
  | .malformedText => notATree ++ "the text is not JSON"
  | .otherShape => notATree ++ "data did not match any variant of untagged enum TreeArtifact"
  | .unequalLengths => "scikit-learn arrays have different lengths"
  | .unusableThreshold node threshold =>
    s!"node {node}: threshold {threshold.plain} is not a usable integer split"
  | .badCounts node found => s!"node {node}: expected 2 class counts, found {found}"

def FileFlaw.message : FileFlaw → String
  | .notFound => "No such file or directory (os error 2)"
  | .isDirectory => "Is a directory (os error 21)"
  | .notDirectory => "Not a directory (os error 20)"
  | .alreadyExists => "File exists (os error 17)"
  | .nameTooLong => "File name too long (os error 36)"
  | .notText => "stream did not contain valid UTF-8"
  | .other text number => s!"{text} (os error {number})"

namespace Fault

/-- The stable name of a fault's kind. -/
def kind : Fault → String
  | cut .. => "QuantizationError"
  | undeclaredFeature .. => "UnknownFeatureError"
  | tableOverflow .. => "TableOverflowError"
  | ambiguous .. => "AmbiguousPathError"
  | malformedTree .. => "MalformedTreeError"
  | tooDeep .. => "DepthExceededError"
  | tooManyTables .. => "StageBudgetError"
  | invalidFeature .. => "InvalidFeatureError"
  | artifact _ | manifest | file _ => "ArtifactError"

/-- The process exit code for a fault's kind. -/
def exitCode : Fault → UInt8
  | cut .. => 10
  | undeclaredFeature .. => 11
  | tableOverflow .. => 12
  | ambiguous .. => 13
  | malformedTree .. => 14
  | tooDeep .. => 15
  | tooManyTables .. => 16
  | invalidFeature .. => 17
  | artifact _ | manifest | file _ => 2

/-- The wording of a fault. -/
def message : Fault → String
  | cut feature flaw => s!"quantization failed for feature {feature.toNat}: {flaw.message}"
  | undeclaredFeature feature node =>
    s!"node {node.toNat} splits on undeclared feature {feature.toNat}"
  | tableOverflow route rows limit =>
    s!"path {route} brings the classification table to {rows} rows, budget is {limit.toNat}"
  | ambiguous codes first firstVerdict second secondVerdict =>
    s!"code tuple ({codesText codes}) produced by path {first} ({firstVerdict.name}) " ++
      s!"and path {second} ({secondVerdict.name})"
  | malformedTree node flaw => s!"malformed tree at node {node.toNat}: {flaw.message}"
  | tooDeep depth limit => s!"tree depth {depth} exceeds the stage budget of {limit.toNat}"
  | tooManyTables tables limit =>
    s!"{tables} feature tables exceed the pipeline stage limit of {limit.toNat}"
  | invalidFeature feature flaw => s!"invalid feature {feature.toNat}: {flaw.message}"
  | artifact flaw => s!"artifact error: {flaw.message}"
  | manifest => "TOML error: the manifest cannot be read"
  | file flaw => s!"IO error: {flaw.message}"

end Fault

end MatchTree
