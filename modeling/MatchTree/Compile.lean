import MatchTree.Program
import MatchTree.Tree.Shape

/-!
# From trees to programs

* `Tree.compile` — checks the arena and its depth, cuts the domains, lists the routes, fills the
  table and lays out the program; the first fault ends it.
* `Compilation.stats` — the measures of what came out.
* `compileBatch` — several trees against the same settings, each on its own.
-/

namespace MatchTree

/-- A program and what it was made from. -/
structure Compilation where
  tree : Tree
  shape : Shape
  grid : Grid
  routes : List Route
  program : Program

/-- The program of a tree. -/
def Tree.compile (t : Tree) (schema : Schema) (budget : Budget) (naming : Naming) :
    Except Fault Compilation := do
  let shape ← t.shape
  if budget.maxStages.toNat < shape.depth then
    .error (.tooDeep shape.depth budget.maxStages)
  else
    let grid ← Grid.ofTree t schema budget.maxBands
    let routes ← t.routes schema
    let table ← CodeTable.ofRoutes routes grid budget.maxRows
    let program ← Program.layOut schema grid table budget naming
    return ⟨t, shape, grid, routes, program⟩

/-- The measures of a compilation. -/
structure Stats where
  nodes : Nat
  depth : Nat
  leaves : Nat
  routes : Nat
  infeasible : Nat
  bands : Nat
  rows : Nat
  stages : Nat
  deriving DecidableEq

/-- The measures of a compilation. -/
def Compilation.stats (c : Compilation) : Stats where
  nodes := c.tree.size
  depth := c.shape.depth
  leaves := c.shape.leaves
  routes := c.routes.length
  infeasible := (c.routes.filter fun r => !r.isFeasible).length
  bands := c.grid.bandCounts.foldl (· + ·) 0
  rows := c.program.verdictTable.table.rows.length
  stages := c.program.stages

/-- The compilations of several trees, in their order. -/
def compileBatch (trees : List Tree) (schema : Schema) (budget : Budget) (naming : Naming) :
    List (Except Fault Compilation) :=
  trees.map fun t => t.compile schema budget naming

end MatchTree
