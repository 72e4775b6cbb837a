import MatchTree.Feature.Schema

/-!
# Settings of a deployment

* `Budget` — what a program may take of the hardware.
* `Naming` — the names of its tables and actions.
* `Manifest` — both, with the features.
-/

namespace MatchTree

/-- The hardware limits that a program must keep. -/
structure Budget where
  /-- Stages for band tables; also bounds the depth of the tree. -/
  maxStages : UInt64
  /-- Entries of one band table. -/
  maxBands : UInt64
  /-- Rows of the verdict table. -/
  maxRows : UInt64
  deriving DecidableEq, Inhabited

def Budget.default : Budget := ⟨8, 256, 4096⟩

/-- The names of tables and actions; those of a feature end in its position. -/
structure Naming where
  featureTable : String
  featureAction : String
  verdictTable : String
  verdictAction : String
  deriving DecidableEq, Inhabited

namespace Naming

def default : Naming := ⟨"ml_feature_", "set_code_", "ml_classify", "set_class"⟩

/-- The band table of the feature at a position. -/
def tableOf (n : Naming) (index : Nat) : String := n.featureTable ++ toString index

/-- The action of that table. -/
def actionOf (n : Naming) (index : Nat) : String := n.featureAction ++ toString index

end Naming

/-- Budget, naming and features of a deployment. -/
structure Manifest where
  budget : Budget
  naming : Naming
  features : List Feature
  deriving DecidableEq

/-- The schema of a manifest's features. -/
def Manifest.schema (m : Manifest) : Except Fault Schema := Schema.ofFeatures m.features

end MatchTree
