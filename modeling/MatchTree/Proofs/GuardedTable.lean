import MatchTree.Proofs.Compilation
import MatchTree.Proofs.GuardedGrid
import MatchTree.Proofs.Insertion

/-!
# Filling tables and compiling, each operation checked

* `Axis.guardedCover`, `Route.guardedBox` — bands are looked up by codes and axes by positions, and
  the last of all codes is one less than the number of bands.
* `guardedPlacements` — the rows of a route are counted by the differences of the ends of its runs.
* `Shelf.guardedFill` — the rows are added tuple by tuple, stepping through each box, and
  `Shelf.guardedVerdict?` finds a row by its place.
* `CodeTable.guardedOfRoutes` — the rows alone.
* `Tree.guardedCompile` — the stages one after another.

Codes start over after the 65536th band, so that a code is no more than the position of its band.
That is enough for its look-up, and the runs are ordered by the bands that the codes point at.

Principal results: `guardedBox_eq`, `guardedPlacements_eq`, `guardedFill_eq`, `guardedOfRoutes_eq` —
checking the operations changes nothing on a grid whose axes tile their domains;
`guardedVerdict?_holding` — neither does it when a tuple is looked up; `guardedCompile_eq` —
compiling never ends in a trap.
-/

namespace MatchTree

open Guarded

/-! ## The box of a route -/

namespace Axis

/-- The codes whose bands make up an interval. -/
def guardedCover (a : Axis) (i : Interval) : Guarded (Option CodeRun) :=
  if i.isEmpty then .ok none
  else
    match a.codeOfInt? i.lower, a.codeOfInt? i.upper with
    | some first, some last => do
      let low ← item a.bands.toList first.toNat
      let high ← item a.bands.toList last.toNat
      if (low.lower.toNat : Int) = i.lower.toInt ∧ (high.upper.toNat : Int) = i.upper.toInt then
        return some ⟨first, last⟩
      else .error (.fault (.cut a.feature (.misaligned i.lower i.upper)))
    | _, _ => .error (.fault (.cut a.feature (.misaligned i.lower i.upper)))

/-- **A code is that of some band, and no more than the band's position.** -/
theorem Tiles.exists_band {a : Axis} {f : Feature} (ha : a.Tiles f) {i : Int64} {c : Code}
    (h : a.codeOfInt? i = some c) : ∃ b, a.bands.toList[c.toNat]? = some b := by
  unfold codeOfInt? at h
  split at h
  · obtain ⟨b, hb, rfl⟩ := Option.map_eq_some_iff.1 h
    obtain ⟨hmem, -⟩ := ha.ascending.bandAt?_eq_some_iff.1 hb
    obtain ⟨k, hk, rfl⟩ := Array.getElem_of_mem hmem
    have hcode : (a.bands[k]).code.toNat ≤ k := by
      rw [ha.coded k _ (Array.getElem?_eq_getElem hk), UInt16.toNat_ofNat']
      exact Nat.mod_le _ _
    have hlt : (a.bands[k]).code.toNat < a.bands.toList.length := Nat.lt_of_le_of_lt hcode hk
    exact ⟨_, List.getElem?_eq_getElem hlt⟩
  · cases h

theorem guardedCover_eq {a : Axis} {f : Feature} (ha : a.Tiles f) (i : Interval) :
    a.guardedCover i = ((a.cover i).mapError (.cut a.feature)).mapError .fault := by
  unfold guardedCover cover
  split
  · rfl
  · cases hfirst : a.codeOfInt? i.lower with
    | none => rfl
    | some first =>
      cases hlast : a.codeOfInt? i.upper with
      | none => rfl
      | some last =>
        obtain ⟨low, hlow⟩ := ha.exists_band hfirst
        obtain ⟨high, hhigh⟩ := ha.exists_band hlast
        simp only [item_eq_ok hlow, item_eq_ok hhigh, bind, Except.bind, Option.bind]
        rw [Array.getElem?_toList] at hlow hhigh
        rw [hlow, hhigh]
        dsimp only
        split
        · rfl
        · rfl

end Axis

/-- Each axis tiles the domain of a feature without flaws; the codes may start over. -/
def Grid.Tiled (g : Grid) : Prop := ∀ a ∈ g.axes, ∃ f : Feature, f.flaw? = none ∧ a.Tiles f

theorem Grid.Tiled.ascending {g : Grid} (hg : g.Tiled) : ∀ a ∈ g.axes, Ascending a.bands := by
  intro a ha
  obtain ⟨f, -, htiles⟩ := hg a ha
  exact htiles.ascending

theorem Grid.tiled_ofTree {t : Tree} {schema : Schema} {maxBands : UInt64} {g : Grid}
    (h : Grid.ofTree t schema maxBands = .ok g) : g.Tiled := by
  have htiles := Grid.ofTree_ok h
  intro a ha
  obtain ⟨k, hk, rfl⟩ := List.getElem_of_mem ha
  have hkf : k < schema.features.length := by rw [htiles.length_eq]; exact hk
  exact ⟨_, schema.sound _ (List.getElem_mem hkf), (htiles.get hkf hk).1⟩

namespace Route

/-- The run of codes for an interval on an axis. -/
def guardedRunOn (axis : Axis) (interval : Interval) (tested : Bool) : Guarded (Option CodeRun) :=
  if tested then axis.guardedCover interval
  else do
    let last ← difference axis.size 1
    return some ⟨0, UInt16.ofNat last⟩

theorem guardedRunOn_eq {axis : Axis} {f : Feature} (hf : f.flaw? = none) (ha : axis.Tiles f)
    (interval : Interval) (tested : Bool) :
    guardedRunOn axis interval tested = (runOn axis interval tested).mapError .fault := by
  unfold guardedRunOn runOn
  cases tested with
  | true => exact Axis.guardedCover_eq ha interval
  | false =>
    show (difference axis.size 1 >>= fun last => _) = _
    rw [difference_eq_ok (ha.size_pos hf)]
    rfl

/-- The runs of codes for intervals at the given positions. -/
def guardedRuns (r : Route) (grid : Grid) : List (Interval × Nat) → Guarded (Option CodeBox)
  | [] => .ok (some [])
  | (interval, index) :: rest => do
    let axis ← item grid.axes index
    match ← guardedRunOn axis interval (r.tests index) with
    | none => return none
    | some run => return (← r.guardedRuns grid rest).map (run :: ·)

/-- The box of codes that a route takes on a grid. -/
def guardedBox (r : Route) (grid : Grid) : Guarded (Option CodeBox) :=
  r.guardedRuns grid r.intervals.zipIdx

/-- The axes from a position on are at least as many as the intervals that are left. -/
theorem guardedRuns_eq {r : Route} {grid : Grid} (hg : grid.Tiled) {before axes : List Axis}
    (haxes : grid.axes = before ++ axes) {intervals : List Interval}
    (hlength : intervals.length ≤ axes.length) :
    r.guardedRuns grid (intervals.zipIdx before.length) =
      (r.runsFrom before.length axes intervals).mapError .fault := by
  induction intervals generalizing before axes with
  | nil => cases axes <;> rfl
  | cons interval intervals ih =>
    obtain ⟨axis, axes, rfl⟩ := List.exists_cons_of_length_pos (Nat.zero_lt_of_lt hlength)
    obtain ⟨f, hf, ha⟩ := hg axis (by rw [haxes]; simp)
    have hitem : item grid.axes before.length = .ok axis := by rw [haxes, item_append]
    rw [List.zipIdx_cons, guardedRuns, runsFrom, hitem]
    refine bind_mapError (guardedRunOn_eq hf ha interval (r.tests before.length)) fun run? _ => ?_
    cases run? with
    | none => rfl
    | some run =>
      have hrest := @ih (before ++ [axis]) axes (by rw [haxes, List.append_assoc]; rfl)
        (Nat.le_of_succ_le_succ hlength)
      rw [List.length_append, List.length_singleton] at hrest
      exact bind_mapError hrest fun _ _ => rfl

/-- **Looking up a route's codes, every position is in bounds.** -/
theorem guardedBox_eq {r : Route} {grid : Grid} (hg : grid.Tiled)
    (hlength : r.intervals.length ≤ grid.axes.length) :
    r.guardedBox grid = (r.box grid).mapError .fault :=
  @guardedRuns_eq r grid hg [] grid.axes rfl r.intervals hlength

end Route

/-! ## Counting rows -/

/-- How many codes there are. -/
def CodeRun.guardedSize (run : CodeRun) : Guarded Nat := do
  let steps ← difference run.last.toNat run.first.toNat
  return steps + 1

theorem CodeRun.guardedSize_eq {run : CodeRun} (h : run.first.toNat ≤ run.last.toNat) :
    run.guardedSize = .ok run.size := by
  have hsize : run.last.toNat - run.first.toNat + 1 = run.size := by
    unfold size
    omega
  rw [guardedSize, difference_eq_ok h, ← hsize]
  rfl

/-- The placements of the routes from position `index` on, after `total` rows. -/
def guardedPlacements (grid : Grid) (limit : UInt64) (index total : Nat) :
    List Route → Guarded (List Placement)
  | [] => .ok []
  | r :: rs => do
    match ← r.guardedBox grid with
    | none => guardedPlacements grid limit (index + 1) total rs
    | some box =>
      let sizes ← box.mapM CodeRun.guardedSize
      let total := cappedAdd total (sizes.foldl cappedMul 1)
      if limit.toNat < total then .error (.fault (.tableOverflow index total limit))
      else
        let ps ← guardedPlacements grid limit (index + 1) total rs
        return ⟨index, r.verdict, box⟩ :: ps

/-- **Counting rows, no run ends before it starts.** -/
theorem guardedPlacements_eq {grid : Grid} (hg : grid.Tiled) {limit : UInt64} {routes : List Route}
    (hlength : ∀ r ∈ routes, r.intervals.length ≤ grid.axes.length) (index total : Nat) :
    guardedPlacements grid limit index total routes =
      (placements grid limit index total routes).mapError .fault := by
  induction routes generalizing index total with
  | nil => rfl
  | cons r rs ih =>
    obtain ⟨hr, hrs⟩ := List.forall_mem_cons.1 hlength
    rw [guardedPlacements, placements]
    refine bind_mapError (Route.guardedBox_eq hg hr) fun box? hbox => ?_
    cases box? with
    | none => exact ih hrs _ _
    | some box =>
      have hordered := Route.first_le_last_of_box hg.ascending hbox
      have hsizes : box.mapM CodeRun.guardedSize = .ok (box.map CodeRun.size) :=
        mapM_eq_ok_map fun run hrun => CodeRun.guardedSize_eq (hordered run hrun)
      have htotal : (box.map CodeRun.size).foldl cappedMul 1 = box.size := rfl
      dsimp only
      rw [hsizes]
      show (if limit.toNat < cappedAdd total ((box.map CodeRun.size).foldl cappedMul 1) then _
        else _) = _
      rw [htotal]
      split
      · rfl
      · exact bind_mapError (ih hrs _ _) fun ps _ => rfl

/-! ## The table -/

namespace Shelf

/-- Adds the rows of a placement, stepping through its box. -/
def guardedPlace (s : Shelf) (p : Placement) : Guarded Shelf :=
  p.box.visit (fun s codes => s.insert ⟨codes, p.verdict, p.route⟩) p.box.tuples.length s
    p.box.least

/-- **Stepping through a box whose runs are ordered adds each of its rows** and comes to an end. -/
theorem guardedPlace_eq {p : Placement} (h : ∀ run ∈ p.box, run.first.toNat ≤ run.last.toNat)
    (s : Shelf) : s.guardedPlace p = p.rows.foldlM insert s := by
  rw [guardedPlace, CodeBox.visit_least h (Nat.le_refl _), Placement.rows, List.foldlM_map]

theorem foldlM_guardedPlace {ps : List Placement}
    (h : ∀ p ∈ ps, ∀ run ∈ p.box, run.first.toNat ≤ run.last.toNat) (s : Shelf) :
    ps.foldlM guardedPlace s = s.fill ps := by
  induction ps generalizing s with
  | nil => rfl
  | cons p ps ih =>
    obtain ⟨hp, hps⟩ := List.forall_mem_cons.1 h
    rw [fill, List.foldlM_cons, List.foldlM_cons, guardedPlace_eq hp]
    exact bind_congr fun s' => ih hps s'

/-- The shelf with the rows of some routes. -/
def guardedFill (routes : List Route) (grid : Grid) (maxRows : UInt64) : Guarded Shelf := do
  let ps ← guardedPlacements grid maxRows 0 0 routes
  ps.foldlM guardedPlace ⟨[], []⟩

/-- **Filling a shelf, every step stays in a box and every row that is looked up is there**: it ends
with the rows of the table and the place of each of them, or with the fault of the table. -/
theorem guardedFill_eq {grid : Grid} (hg : grid.Tiled) {routes : List Route}
    (hlength : ∀ r ∈ routes, r.intervals.length ≤ grid.axes.length) (maxRows : UInt64) :
    guardedFill routes grid maxRows =
      ((CodeTable.ofRoutes routes grid maxRows).map fun t => holding t.rows).mapError .fault := by
  unfold guardedFill CodeTable.ofRoutes
  rw [guardedPlacements_eq hg hlength]
  cases hps : placements grid maxRows 0 0 routes with
  | error fault => rfl
  | ok ps =>
    have hordered : ∀ p ∈ ps, ∀ run ∈ p.box, run.first.toNat ≤ run.last.toNat := by
      intro p hp
      obtain ⟨k, r, -, hbox, -⟩ := ((placements_ok hps).2 p).1 hp
      exact Route.first_le_last_of_box hg.ascending hbox
    have hfill : fill ⟨[], []⟩ ps = _ := fill_eq [] ps
    show ps.foldlM guardedPlace ⟨[], []⟩ = _
    rw [foldlM_guardedPlace hordered, hfill]
    simp only [bind, Except.bind]
    cases firstClash? [] ps with
    | some clash => rfl
    | none => rfl

/-- The verdict of a tuple, from the row that its place points at. -/
def guardedVerdict? (s : Shelf) (codes : List Code) : Guarded (Option Verdict) :=
  match s.index.lookup codes with
  | some k => do
    let row ← item s.rows k
    return some row.verdict
  | none => .ok none

/-- **A place points at a row**: that of the tuple. -/
theorem guardedVerdict?_holding (rows : List Row) (codes : List Code) :
    (holding rows).guardedVerdict? codes = .ok (CodeTable.verdict? ⟨rows⟩ codes) := by
  have hlookup := lookup_zipIdx rows 0 codes
  have hfind : (rows.find? fun row => row.codes == codes) =
      rows.find? fun row => codes == row.codes := by
    simp only [Bool.beq_comm]
  unfold guardedVerdict? CodeTable.verdict? holding
  dsimp only
  rw [hfind]
  cases hrow : rows.find? fun row => codes == row.codes with
  | none =>
    rw [hrow] at hlookup
    dsimp only at hlookup
    rw [hlookup]
    rfl
  | some row =>
    rw [hrow] at hlookup
    obtain ⟨k, hk, hget⟩ := hlookup
    rw [Nat.zero_add] at hk
    rw [hk]
    dsimp only
    rw [item_eq_ok hget]
    rfl

end Shelf

namespace CodeTable

/-- The table of some routes. -/
def guardedOfRoutes (routes : List Route) (grid : Grid) (maxRows : UInt64) :
    Guarded CodeTable := do
  let ps ← guardedPlacements grid maxRows 0 0 routes
  let shelf ← ps.foldlM Shelf.guardedPlace ⟨[], []⟩
  return ⟨shelf.rows⟩

/-- **Filling the table changes nothing but the checks on the way.** -/
theorem guardedOfRoutes_eq {grid : Grid} (hg : grid.Tiled) {routes : List Route}
    (hlength : ∀ r ∈ routes, r.intervals.length = grid.axes.length) (maxRows : UInt64) :
    guardedOfRoutes routes grid maxRows = (ofRoutes routes grid maxRows).mapError .fault := by
  have hsteps : guardedOfRoutes routes grid maxRows = (do
      let shelf ← Shelf.guardedFill routes grid maxRows
      return ⟨shelf.rows⟩) := (bind_assoc _ _ _).symm
  rw [hsteps, Shelf.guardedFill_eq hg fun r hr => Nat.le_of_eq (hlength r hr)]
  cases ofRoutes routes grid maxRows with
  | error fault => rfl
  | ok table => rfl

end CodeTable

/-! ## Compiling -/

namespace Tree

/-- The program of a tree. -/
def guardedCompile (t : Tree) (schema : Schema) (budget : Budget) (naming : Naming) :
    Guarded Compilation := do
  let shape ← t.shape.mapError .fault
  if budget.maxStages.toNat < shape.depth then
    .error (.fault (.tooDeep shape.depth budget.maxStages))
  else
    let grid ← Grid.guardedOfTree t schema budget.maxBands
    let routes ← t.guardedRoutes schema
    let table ← CodeTable.guardedOfRoutes routes grid budget.maxRows
    let program ← (Program.layOut schema grid table budget naming).mapError .fault
    return ⟨t, shape, grid, routes, program⟩

/-- **Compiling never ends in a trap**, whatever the tree, the schema and the budget are: checking
every cast, successor, difference and position on the way changes nothing. -/
theorem guardedCompile_eq (t : Tree) (schema : Schema) (budget : Budget) (naming : Naming) :
    (∀ trap, t.guardedCompile schema budget naming ≠ .error (.trap trap)) ∧
      t.guardedCompile schema budget naming =
        (t.compile schema budget naming).mapError .fault := by
  have hcompile : t.guardedCompile schema budget naming =
      (t.compile schema budget naming).mapError .fault := by
    unfold guardedCompile compile
    refine bind_mapError rfl fun shape hshape => ?_
    split
    · rfl
    obtain ⟨b, hb, -⟩ := exists_spans hshape
    refine bind_mapError (Grid.guardedOfTree_eq _ _ _) fun grid hgrid => ?_
    refine bind_mapError (guardedRoutes_eq _ _) fun routes hroutes => ?_
    have hlength : ∀ r ∈ routes, r.intervals.length = grid.axes.length := by
      intro r hr
      obtain ⟨w, -, hlead⟩ := hb.exists_leadsBy hroutes hr
      rw [hlead.intervals_eq, List.length_map, (Grid.ofTree_ok hgrid).length_eq]
    have htable :=
      CodeTable.guardedOfRoutes_eq (Grid.tiled_ofTree hgrid) hlength budget.maxRows
    exact bind_mapError htable fun table _ => bind_mapError rfl fun program _ => rfl
  exact ⟨ne_trap hcompile, hcompile⟩

end Tree

end MatchTree
