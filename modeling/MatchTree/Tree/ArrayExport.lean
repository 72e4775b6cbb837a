import MatchTree.Tree.Basic

/-!
# Trees as parallel arrays

* `ArrayExport` — one entry per node in each of five arrays: children, feature, real threshold and
  class counts. Both children of a leaf are `-1`.
* `ArrayExport.tree` — the same tree with integer thresholds: for integers, `x ≤ t` and `x ≤ ⌊t⌋`
  say the same. Node ids are kept.
-/

namespace MatchTree

/-- The class counts of a node: of several outputs, of which the first counts, or of a single
one. -/
inductive Counts where
  | outputs (counts : List (List Binary64))
  | single (counts : List Binary64)
  deriving DecidableEq

/-- The counts that decide. -/
def Counts.deciding : Counts → List Binary64
  | outputs [] => []
  | outputs (counts :: _) => counts
  | single counts => counts

/-- A tree as parallel arrays. -/
structure ArrayExport where
  left : List Int64
  right : List Int64
  feature : List Int64
  threshold : List Binary64
  counts : List Counts

namespace ArrayExport

/-- The entries of one node. -/
structure Entry where
  left : Int64
  right : Int64
  feature : Int64
  threshold : Binary64
  counts : Counts

/-- The child id of a leaf. -/
def noChild : Int64 := -1

/-- Both children of a leaf are missing. -/
def Entry.isLeaf (e : Entry) : Bool := e.left == noChild && e.right == noChild

/-- The nodes' entries, provided that the arrays have one length. -/
def entries? (x : ArrayExport) : Option (List Entry) :=
  let n := x.left.length
  if x.right.length = n ∧ x.feature.length = n ∧ x.threshold.length = n ∧ x.counts.length = n then
    some <| (x.left.zip (x.right.zip (x.feature.zip (x.threshold.zip x.counts)))).map
      fun (left, right, feature, threshold, counts) => ⟨left, right, feature, threshold, counts⟩
  else none

/-- The verdict of two counts: attack if the second is greater. -/
def verdict (node : Nat) (counts : List Binary64) : Except Fault Verdict :=
  match counts with
  | [normal, attack] => .ok (if normal.lt attack then .attack else .normal)
  | _ => .error (.artifact (.badCounts node counts.length))

/-- The feature of a split. -/
def featureId (node : Nat) (index : Int64) : Except Fault FeatureId :=
  if 0 ≤ index.toInt ∧ index.toInt < UInt32.size then .ok (UInt32.ofNat index.toInt.toNat)
  else .error (.malformedTree (UInt32.ofNat node) (.badFeature index.toInt))

/-- The magnitude up to which a threshold is usable. -/
def thresholdBound : Nat := Nat.pow 10 15

/-- The greatest integer up to a threshold. -/
def integerThreshold (node : Nat) (t : Binary64) : Except Fault Int64 :=
  match t.floor? with
  | some floor =>
    if t.exceeds thresholdBound then .error (.artifact (.unusableThreshold node t))
    else .ok (Int64.ofInt floor)
  | none => .error (.artifact (.unusableThreshold node t))

/-- A child id within an arena of `count` nodes. -/
def childId (node count : Nat) (child : Int64) : Except Fault NodeId :=
  if child.toInt < 0 ∨ (count : Int) ≤ child.toInt then
    .error (.malformedTree (UInt32.ofNat node) (.noSuchChild child.toInt count))
  else .ok (UInt32.ofNat child.toInt.toNat)

/-- The node of an entry: its feature is checked first, then the threshold, then the children. -/
def Entry.node (e : Entry) (node count : Nat) : Except Fault Node := do
  if e.isLeaf then
    return .leaf (← verdict node e.counts.deciding)
  else
    let feature ← featureId node e.feature
    let threshold ← integerThreshold node e.threshold
    let left ← childId node count e.left
    let right ← childId node count e.right
    return .split feature threshold left right

/-- The tree of an export; the first faulty node is reported. -/
def tree (x : ArrayExport) : Except Fault Tree :=
  match x.entries? with
  | none => .error (.artifact .unequalLengths)
  | some entries => do
    let nodes ← entries.zipIdx.mapM fun (e, i) => e.node i entries.length
    return ⟨nodes.toArray⟩

end ArrayExport

end MatchTree
