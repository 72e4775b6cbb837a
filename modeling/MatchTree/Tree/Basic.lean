import MatchTree.Feature.Schema

/-!
# Decision trees in an arena

* `Node` — a split with the ids of its two children, or a leaf with its verdict.
* `Tree` — an array of nodes; the root has id 0. Nothing is promised of the ids: whether the nodes
  form a tree is for `Tree.shape` to say.
* `Tree.verdict?` — follows the splits from the root. The fuel is the number of nodes, which no walk
  over a tree outlasts; a walk that leaves the arena or does not end has no verdict.
-/

namespace MatchTree

abbrev NodeId := UInt32

/-- A node of an arena. -/
inductive Node where
  /-- Values up to the threshold go left, greater ones right. -/
  | split (feature : FeatureId) (threshold : Int64) (left right : NodeId)
  | leaf (verdict : Verdict)
  deriving DecidableEq, Inhabited

/-- Whether a value goes to the left of a threshold. -/
def goesLeft (value : UInt32) (threshold : Int64) : Bool :=
  decide ((value.toNat : Int) ≤ threshold.toInt)

/-- An arena of nodes with its root at id 0. -/
structure Tree where
  nodes : Array Node
  deriving DecidableEq, Inhabited

namespace Tree

/-- The id of the root. -/
def root : NodeId := 0

/-- The tree that gives every input the same verdict. -/
def constant (v : Verdict) : Tree := ⟨#[.leaf v]⟩

/-- How many nodes there are. -/
def size (t : Tree) : Nat := t.nodes.size

/-- The node with the given id. -/
def node? (t : Tree) (id : NodeId) : Option Node := t.nodes[id.toNat]?

/-- The ids of the nodes, ascending. -/
def ids (t : Tree) : List NodeId := (List.range t.size).map UInt32.ofNat

/-- Whether a node is a leaf; `none` for an id that is no node. -/
def isLeaf? (t : Tree) (id : NodeId) : Option Bool :=
  (t.node? id).map fun
    | .leaf _ => true
    | .split .. => false

/-- A split with its node. -/
structure Split where
  node : NodeId
  feature : FeatureId
  threshold : Int64
  deriving DecidableEq

/-- The splits in the order of their ids. -/
def splits (t : Tree) : List Split :=
  t.nodes.toList.zipIdx.filterMap fun
    | (.split feature threshold _ _, i) => some ⟨UInt32.ofNat i, feature, threshold⟩
    | (.leaf _, _) => none

/-- Follows the splits from a node through at most `fuel` nodes. -/
def walk (t : Tree) (valueOf : FeatureId → UInt32) : Nat → NodeId → Option Verdict
  | 0, _ => none
  | fuel + 1, id =>
    match t.node? id with
    | none => none
    | some (.leaf v) => some v
    | some (.split feature threshold left right) =>
      t.walk valueOf fuel (if goesLeft (valueOf feature) threshold then left else right)

/-- The verdict on an input. -/
def verdict? (t : Tree) (valueOf : FeatureId → UInt32) : Option Verdict :=
  t.walk valueOf t.size root

end Tree

end MatchTree
