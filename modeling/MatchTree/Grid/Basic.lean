import MatchTree.Grid.Axis

/-!
# The grid of all axes

* `Grid` — one axis per feature of a schema, in its order.
* `Grid.ofTree` — the grid on which every split of a tree falls between two bands.
* `Grid.cellCount` — how many code tuples there are, capped at 64 bits.
-/

namespace MatchTree

/-- The greatest number of 64 bits. -/
def wordMax : Nat := UInt64.size - 1

/-- The sum, capped at 64 bits. -/
def cappedAdd (a b : Nat) : Nat := min (a + b) wordMax

/-- The product, capped at 64 bits. -/
def cappedMul (a b : Nat) : Nat := min (a * b) wordMax

/-- One axis per feature. -/
structure Grid where
  axes : List Axis
  deriving DecidableEq, Inhabited

namespace Grid

/-- The number of bands on each axis. -/
def bandCounts (g : Grid) : List Nat := g.axes.map Axis.size

/-- The number of code tuples. -/
def cellCount (g : Grid) : Nat := g.bandCounts.foldl cappedMul 1

/-- The grid of a tree. A split on an undeclared feature is a fault, the first one by node id; then
the axes are cut in the schema's order. -/
def ofTree (t : Tree) (schema : Schema) (maxBands : UInt64) : Except Fault Grid :=
  let splits := t.splits
  match splits.find? fun s => (schema.indexOf? s.feature).isNone with
  | some s => .error (.undeclaredFeature s.feature s.node)
  | none => do
    let axes ← schema.features.mapM fun f =>
      Axis.ofSplits f (splits.filter fun s => s.feature == f.id) maxBands
    return ⟨axes⟩

end Grid

end MatchTree
