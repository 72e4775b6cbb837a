import MatchTree.Grid.Table
import MatchTree.Settings

/-!
# Table programs

* `BandTable` — turns the values of one feature into codes.
* `VerdictTable` — turns a tuple of codes into a verdict.
* `Program` — a band table per feature and the verdict table, each a stage with a default for what
  it does not hold.
* `Program.encode`, `Program.classify` — what the stages do to an input.
-/

namespace MatchTree

/-- The codes of one feature. -/
structure BandTable where
  name : String
  action : String
  feature : FeatureId
  label : String
  /-- The width of the match key in bits. -/
  bitWidth : UInt8
  bands : Array Band
  /-- The code of a value in no band. -/
  defaultCode : Code
  deriving DecidableEq, Inhabited

/-- The code of a value. -/
def BandTable.apply (t : BandTable) (v : UInt32) : Code :=
  ((bandAt? t.bands v).map (·.code)).getD t.defaultCode

/-- The verdicts of code tuples. -/
structure VerdictTable where
  name : String
  action : String
  /-- The verdict of a tuple in no row. -/
  defaultVerdict : Verdict
  table : CodeTable
  deriving DecidableEq, Inhabited

/-- The verdict of a tuple. -/
def VerdictTable.apply (t : VerdictTable) (codes : List Code) : Verdict :=
  (t.table.verdict? codes).getD t.defaultVerdict

/-- A band table per feature and a verdict table. -/
structure Program where
  bandTables : List BandTable
  verdictTable : VerdictTable
  deriving DecidableEq, Inhabited

namespace Program

/-- The band table of the feature at a position. -/
def bandTableOf (naming : Naming) (index : Nat) (f : Feature) (axis : Axis) : BandTable where
  name := naming.tableOf index
  action := naming.actionOf index
  feature := f.id
  label := f.label
  bitWidth := f.bitWidth
  bands := axis.bands
  defaultCode := 0

/-- The program for a grid and a table; more features than stages are a fault. -/
def layOut (schema : Schema) (grid : Grid) (table : CodeTable) (budget : Budget)
    (naming : Naming) : Except Fault Program :=
  if budget.maxStages.toNat < schema.size then
    .error (.tooManyTables schema.size budget.maxStages)
  else
    .ok {
      bandTables := (schema.features.zip grid.axes).zipIdx.map fun ((f, axis), i) =>
        bandTableOf naming i f axis
      verdictTable := ⟨naming.verdictTable, naming.verdictAction, .normal, table⟩ }

/-- The number of stages, that of the verdict table included. -/
def stages (p : Program) : Nat := p.bandTables.length + 1

/-- The number of bands in all tables. -/
def bandCount (p : Program) : Nat := (p.bandTables.map (·.bands.size)).foldl (· + ·) 0

/-- The number of entries in all tables. -/
def entryCount (p : Program) : Nat := p.bandCount + p.verdictTable.table.rows.length

/-- The number of rows with the verdict attack. -/
def attackRows (p : Program) : Nat :=
  (p.verdictTable.table.rows.filter fun r => r.verdict == .attack).length

/-- The codes of values in the schema's order. -/
def encode (p : Program) (values : List UInt32) : List Code :=
  (p.bandTables.zip values).map fun (t, v) => t.apply v

/-- The verdict on values in the schema's order. -/
def classify (p : Program) (values : List UInt32) : Verdict :=
  p.verdictTable.apply (p.encode values)

end Program

end MatchTree
