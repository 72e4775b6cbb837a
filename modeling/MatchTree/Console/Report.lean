import MatchTree.Compile
import MatchTree.Console.BoxTable
import MatchTree.Feature.Contract
import MatchTree.Json.Printer

/-!
# Reports

What a compilation or a check has found, as data and as tables.

* `Program.summary`, `Stats.entries` — the layout of a program and the measures of a compilation.
* `Compilation.inspection`, `Compilation.inspectionTables` — all of a compilation, both ways.
* `Schema.checkReport`, `Schema.checkTable` — the findings of a check, both ways.
-/

namespace MatchTree

/-- A natural number as data. -/
def Datum.ofNat (n : Nat) : Datum := .int n

/-- The layout of a program: its tables in the order of their stages. -/
def Program.summary (p : Program) : Datum :=
  .record [("stages", .ofNat p.stages), ("total_entries", .ofNat p.entryCount),
    ("attack_rows", .ofNat p.attackRows),
    ("tables", .list (
      p.bandTables.map (fun t => .record [("name", .text t.name), ("feature", .text t.label),
        ("match_kind", .text "range"), ("entries", .ofNat t.bands.size)]) ++
      [.record [("name", .text p.verdictTable.name), ("match_kind", .text "exact"),
        ("entries", .ofNat p.verdictTable.table.rows.length)]]))]

/-- The measures of a compilation. -/
def Stats.entries (s : Stats) : List (String × Datum) :=
  [("tree_nodes", .ofNat s.nodes), ("tree_depth", .ofNat s.depth), ("leaves", .ofNat s.leaves),
    ("paths", .ofNat s.routes), ("infeasible_paths", .ofNat s.infeasible),
    ("range_entries", .ofNat s.bands), ("table_rows", .ofNat s.rows), ("stages", .ofNat s.stages)]

/-- The bands of all features, each with the label of its feature. -/
def Program.labelledBands (p : Program) : List (String × Band) :=
  p.bandTables.flatMap fun t => t.bands.toList.map fun b => (t.label, b)

/-- All of a compilation that took `micros` microseconds. -/
def Compilation.inspection (c : Compilation) (micros : Nat) : Datum :=
  .record [("summary", c.program.summary),
    ("stats", .record (c.stats.entries ++ [("compile_time_us", .ofNat micros)])),
    ("ranges", .list (c.program.labelledBands.map fun (label, b) =>
      .record [("feature", .text label), ("code", .ofNat b.code.toNat),
        ("lower", .ofNat b.lower.toNat), ("upper", .ofNat b.upper.toNat)])),
    ("paths", .list (c.routes.map fun r => .text r.text))]

/-- The stages of a program, a row each. -/
def Program.stageTable (p : Program) : String :=
  let bandRows := p.bandTables.map fun t => [t.name, t.label, "range", toString t.bands.size]
  let verdictRow :=
    [p.verdictTable.name, "-", "exact", toString p.verdictTable.table.rows.length]
  boxTable ["stage", "table", "feature", "match", "entries"]
    ((bandRows ++ [verdictRow]).zipIdx.map fun (row, i) => toString i :: row)

/-- The bands of all features, a row each. -/
def Program.labelledBandTable (p : Program) : String :=
  boxTable ["feature", "code", "lower", "upper"] (p.labelledBands.map fun (label, b) =>
    [label, toString b.code.toNat, toString b.lower.toNat, toString b.upper.toNat])

/-- The tables of a compilation and its measures on one line. -/
def Compilation.inspectionTables (c : Compilation) : List String :=
  let p := c.program
  let s := c.stats
  [p.stageTable, p.labelledBandTable,
    s!"{p.stages} stages, {p.entryCount} entries, {p.attackRows} attack rows, " ++
      s!"{s.routes} paths ({s.infeasible} infeasible)"]

/-- What a breach consists of. -/
def Breach.entries : Breach → List (String × Datum)
  | missing => [("kind", .text "missing")]
  | outsideField shift bits fieldWidth =>
    [("kind", .text "outside_field"), ("shift", .ofNat shift.toNat), ("bits", .ofNat bits.toNat),
      ("field_width", .ofNat fieldWidth.toNat)]
  | widthMismatch bits bitWidth =>
    [("kind", .text "width_mismatch"), ("bits", .ofNat bits.toNat),
      ("bit_width", .ofNat bitWidth.toNat)]
  | unreachable greatest sliceMax =>
    [("kind", .text "domain_unreachable"), ("domain_max", .ofNat greatest.toNat),
      ("slice_max", .ofNat sliceMax)]
  | narrower least greatest sliceMax =>
    [("kind", .text "domain_narrower_than_slice"), ("domain_min", .ofNat least.toNat),
      ("domain_max", .ofNat greatest.toNat), ("slice_max", .ofNat sliceMax)]

/-- The findings of a check and how many features it covered. -/
def Schema.checkReport (s : Schema) : Datum :=
  .record [("checked", .ofNat s.size),
    ("violations", .list (s.check.map fun f =>
      .record [("feature", .ofNat f.feature.toNat), ("name", .text f.label),
        ("violation", .record f.breach.entries)]))]

/-- The findings of a check, a row each. -/
def Schema.checkTable (s : Schema) : String :=
  boxTable ["feature", "id", "violation"]
    (s.check.map fun f => [f.label, toString f.feature.toNat, f.breach.message])

end MatchTree
