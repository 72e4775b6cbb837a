import MatchTree.Grid.Axis

/-!
# Routes from the root to the leaves

* `Constraint` — a split and the side taken at it.
* `Route` — a leaf, the constraints on the way to it, and what they leave of each feature's domain.
* `Tree.routes` — one route per leaf, the left ones first. The fuel of the walk is one more than the
  number of nodes, which the longest way through a tree and the step past a dangling id need; a walk
  that outlasts it goes in circles.
-/

namespace MatchTree

/-- The side of a split. -/
inductive Side where
  | atMost
  | above
  deriving DecidableEq, Inhabited

def Side.sign : Side → String
  | atMost => "<="
  | above => ">"

/-- A side taken at a split. -/
structure Constraint where
  feature : FeatureId
  side : Side
  threshold : Int64
  deriving DecidableEq, Inhabited

namespace Constraint

/-- Whether a value meets the constraint. -/
def holds (c : Constraint) (value : UInt32) : Bool :=
  match c.side with
  | .atMost => goesLeft value c.threshold
  | .above => !goesLeft value c.threshold

def text (c : Constraint) : String :=
  s!"f{c.feature.toNat} {c.side.sign} {c.threshold.toInt}"

end Constraint

/-- The next integer; the greatest one stays. -/
def nextUp (i : Int64) : Int64 := if i = Int64.maxValue then i else i + 1

/-- The part of an interval on one side of a threshold. -/
def Interval.narrow (i : Interval) (side : Side) (threshold : Int64) : Interval :=
  match side with
  | .atMost => { i with upper := if threshold < i.upper then threshold else i.upper }
  | .above =>
    let next := nextUp threshold
    { i with lower := if i.lower < next then next else i.lower }

/-- The way from the root to a leaf. -/
structure Route where
  leaf : NodeId
  verdict : Verdict
  /-- From the root down. -/
  constraints : List Constraint
  /-- What is left of each feature's domain, in the schema's order. -/
  intervals : List Interval
  /-- The positions of the features that are tested, ascending. -/
  tested : List Nat
  deriving DecidableEq, Inhabited

namespace Route

/-- Whether some input takes the route. -/
def isFeasible (r : Route) : Bool := r.intervals.all fun i => !i.isEmpty

/-- Whether the feature at a position is tested. -/
def tests (r : Route) (index : Nat) : Bool := r.tested.contains index

def text (r : Route) : String :=
  let condition :=
    if r.constraints.isEmpty then "true"
    else String.intercalate " && " (r.constraints.map Constraint.text)
  s!"{condition} => {r.verdict.name}"

/-- What constraints leave of a feature's domain. -/
def intervalOf (f : Feature) (constraints : List Constraint) : Interval :=
  (constraints.filter fun c => c.feature == f.id).foldl
    (fun i c => i.narrow c.side c.threshold) f.domain

/-- The route to a leaf. A constraint on an undeclared feature is a fault of the leaf. -/
def ofLeaf (schema : Schema) (leaf : NodeId) (v : Verdict) (constraints : List Constraint) :
    Except Fault Route :=
  match constraints.find? fun c => (schema.indexOf? c.feature).isNone with
  | some c => .error (.undeclaredFeature c.feature leaf)
  | none =>
    .ok {
      leaf := leaf
      verdict := v
      constraints := constraints
      intervals := schema.features.map fun f => intervalOf f constraints
      tested := (schema.features.zipIdx.filter fun (f, _) =>
        constraints.any fun c => c.feature == f.id).map (·.2) }

end Route

namespace Tree

/-- The routes below a node that is reached under the given constraints. -/
def routesBelow (t : Tree) (schema : Schema) :
    Nat → NodeId → List Constraint → Except Fault (List Route)
  | 0, id, _ => .error (.malformedTree id .endless)
  | fuel + 1, id, constraints =>
    match t.node? id with
    | none => .error (.malformedTree id .dangling)
    | some (.leaf v) => do return [← Route.ofLeaf schema id v constraints]
    | some (.split feature threshold left right) => do
      let onLeft ← t.routesBelow schema fuel left (constraints ++ [⟨feature, .atMost, threshold⟩])
      let onRight ← t.routesBelow schema fuel right (constraints ++ [⟨feature, .above, threshold⟩])
      return onLeft ++ onRight

/-- The routes to all leaves, from left to right. -/
def routes (t : Tree) (schema : Schema) : Except Fault (List Route) :=
  t.routesBelow schema (t.size + 1) root []

end Tree

end MatchTree
