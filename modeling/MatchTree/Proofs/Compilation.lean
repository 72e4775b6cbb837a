import Mathlib.Data.List.Forall2
import MatchTree.Compile
import MatchTree.Proofs.RowCount

/-!
# What a successful compilation went through

* `Compilation.ComesFrom` — every stage succeeded, and what each of them returned.
* `Compilation.rows` — the rows of the verdict table.

Principal results: `compile_ok_iff` — compiling succeeds exactly if its stages do; `encode_eq` — the
band tables give the codes of the grid; `encode_pull` — values outside the domains have the codes of
the least values; `mem_rows_iff_takes` — a row for the codes of an input is in the table exactly if
it is that of the route which the input takes.
-/

namespace MatchTree

/-- The rows of the verdict table. -/
def Compilation.rows (c : Compilation) : List Row := c.program.verdictTable.table.rows

/-- The compilation is what the stages returned for the tree. -/
structure Compilation.ComesFrom (c : Compilation) (t : Tree) (schema : Schema) (budget : Budget)
    (naming : Naming) : Prop where
  tree_eq : c.tree = t
  shape_ok : t.shape = .ok c.shape
  depth_le : c.shape.depth ≤ budget.maxStages.toNat
  grid_ok : Grid.ofTree t schema budget.maxBands = .ok c.grid
  routes_ok : t.routes schema = .ok c.routes
  table_ok :
    CodeTable.ofRoutes c.routes c.grid budget.maxRows = .ok c.program.verdictTable.table
  program_ok :
    Program.layOut schema c.grid c.program.verdictTable.table budget naming = .ok c.program

theorem Program.layOut_ok {schema : Schema} {grid : Grid} {table : CodeTable} {budget : Budget}
    {naming : Naming} {p : Program} (h : layOut schema grid table budget naming = .ok p) :
    schema.size ≤ budget.maxStages.toNat ∧
      p.bandTables = (schema.features.zip grid.axes).zipIdx.map
        (fun x => bandTableOf naming x.2 x.1.1 x.1.2) ∧
      p.verdictTable = ⟨naming.verdictTable, naming.verdictAction, .normal, table⟩ := by
  unfold layOut at h
  split at h
  · cases h
  · cases h
    exact ⟨by omega, rfl, rfl⟩

/-- **Compiling succeeds exactly if its stages do.** -/
theorem Tree.compile_ok_iff {t : Tree} {schema : Schema} {budget : Budget} {naming : Naming}
    {c : Compilation} :
    t.compile schema budget naming = .ok c ↔ c.ComesFrom t schema budget naming := by
  constructor
  · intro h
    unfold compile at h
    obtain ⟨shape, hshape, h⟩ := bind_eq_ok.1 h
    split at h
    · cases h
    rename_i hdepth
    obtain ⟨grid, hgrid, h⟩ := bind_eq_ok.1 h
    obtain ⟨routes, hroutes, h⟩ := bind_eq_ok.1 h
    obtain ⟨table, htable, h⟩ := bind_eq_ok.1 h
    obtain ⟨program, hprogram, h⟩ := bind_eq_ok.1 h
    cases h
    have hverdicts := (Program.layOut_ok hprogram).2.2
    exact ⟨rfl, hshape, Nat.le_of_not_lt hdepth, hgrid, hroutes, by rw [hverdicts]; exact htable,
      by rw [hverdicts]; exact hprogram⟩
  · rintro ⟨rfl, hshape, hdepth, hgrid, hroutes, htable, hprogram⟩
    unfold compile
    rw [bind_eq_ok]
    refine ⟨c.shape, hshape, ?_⟩
    rw [if_neg (Nat.not_lt_of_le hdepth), bind_eq_ok]
    refine ⟨c.grid, hgrid, bind_eq_ok.2 ⟨c.routes, hroutes, bind_eq_ok.2 ⟨_, htable, ?_⟩⟩⟩
    exact bind_eq_ok.2 ⟨c.program, hprogram, rfl⟩

/-! ## Programs -/

theorem Program.map_bands_layOut {schema : Schema} {grid : Grid} {table : CodeTable}
    {budget : Budget} {naming : Naming} {p : Program}
    (h : layOut schema grid table budget naming = .ok p)
    (hlength : schema.features.length = grid.axes.length) :
    p.bandTables.map (fun t => (t.bands, t.defaultCode)) =
      grid.axes.map fun a => (a.bands, 0) := by
  have hpairs : ((schema.features.zip grid.axes).zipIdx.map Prod.fst).map Prod.snd = grid.axes := by
    rw [List.zipIdx_map_fst, List.map_snd_zip (Nat.le_of_eq hlength.symm)]
  rw [(layOut_ok h).2.1]
  conv_rhs => rw [← hpairs]
  rw [List.map_map, List.map_map, List.map_map]
  rfl

namespace Compilation.ComesFrom

variable {c : Compilation} {t : Tree} {schema : Schema} {budget : Budget} {naming : Naming}

theorem fits (h : c.ComesFrom t schema budget naming) (hsmall : budget.maxBands.toNat ≤ 65536) :
    c.grid.Fits schema :=
  Grid.fits_ofTree hsmall h.grid_ok

theorem length_axes (h : c.ComesFrom t schema budget naming) :
    schema.features.length = c.grid.axes.length :=
  (Grid.ofTree_ok h.grid_ok).length_eq

/-- There is a band table for each axis. -/
theorem length_bandTables (h : c.ComesFrom t schema budget naming) :
    c.program.bandTables.length = c.grid.axes.length := by
  have hbands := congrArg List.length (Program.map_bands_layOut h.program_ok h.length_axes)
  rwa [List.length_map, List.length_map] at hbands

theorem ascending (h : c.ComesFrom t schema budget naming) :
    ∀ a ∈ c.grid.axes, Ascending a.bands := by
  have htiles := Grid.ofTree_ok h.grid_ok
  intro a ha
  obtain ⟨k, hk, rfl⟩ := List.getElem_of_mem ha
  have htile := htiles.get (by rw [htiles.length_eq]; exact hk) hk
  exact htile.1.ascending

theorem places (h : c.ComesFrom t schema budget naming) :
    c.program.verdictTable.table.Places c.routes c.grid :=
  CodeTable.ofRoutes_ok h.table_ok

theorem map_codes_rows (h : c.ComesFrom t schema budget naming) :
    c.rows.map (·.codes) = c.routes.flatMap (Route.tuples c.grid) :=
  CodeTable.map_codes_of_ofRoutes h.table_ok

/-- **The band tables give the codes of the grid.** -/
theorem encode_eq (h : c.ComesFrom t schema budget naming) (values : List UInt32) :
    c.program.encode values = c.grid.encode values := by
  have hbands := Program.map_bands_layOut h.program_ok h.length_axes
  unfold Program.encode Grid.encode
  generalize c.program.bandTables = tables at hbands
  generalize c.grid.axes = axes at hbands
  induction axes generalizing tables values with
  | nil =>
    rw [List.map_nil, List.map_eq_nil_iff] at hbands
    rw [hbands]
    rfl
  | cons a axes ih =>
    obtain ⟨table, tables, rfl, htable, htables⟩ := List.map_eq_cons_iff.1 hbands
    cases values with
    | nil => rfl
    | cons v values =>
      rw [Prod.mk.injEq] at htable
      have happly : table.apply v = (a.codeOf? v).getD 0 := by
        unfold BandTable.apply Axis.codeOf?
        rw [htable.1, htable.2]
      exact congrArg₂ List.cons happly (ih values tables htables)

/-- **Pulling values into the domains keeps their codes.** -/
theorem encode_pull (h : c.ComesFrom t schema budget naming) (values : List UInt32) :
    c.program.encode (schema.pull values) = c.program.encode values := by
  have htiles := Grid.ofTree_ok h.grid_ok
  have hsound := schema.sound
  rw [h.encode_eq, h.encode_eq]
  unfold Grid.encode Schema.pull
  generalize schema.features = fs at htiles hsound
  generalize c.grid.axes = axes at htiles
  induction htiles generalizing values with
  | nil => rfl
  | @cons f a fs axes ha _ ih =>
    obtain ⟨hf, hfs⟩ := List.forall_mem_cons.1 hsound
    cases values with
    | nil => rfl
    | cons v values => exact congrArg₂ List.cons (ha.1.codeOf?_pull hf v) (ih values hfs)

theorem exists_leadsBy (h : c.ComesFrom t schema budget naming) {r : Route}
    (hr : r ∈ c.routes) :
    ∃ leaf v constraints, r.LeadsBy schema leaf v constraints := by
  obtain ⟨b, hb, -⟩ := Tree.exists_spans h.shape_ok
  obtain ⟨w, -, hlead⟩ := hb.exists_leadsBy h.routes_ok hr
  exact ⟨_, _, _, hlead⟩

/-- The intervals of a route are as many as the axes. -/
theorem length_intervals (h : c.ComesFrom t schema budget naming) {r : Route}
    (hr : r ∈ c.routes) : r.intervals.length = c.grid.axes.length := by
  obtain ⟨leaf, v, constraints, hlead⟩ := h.exists_leadsBy hr
  rw [hlead.intervals_eq, List.length_map, h.length_axes]

/-- **A row for the codes of an input is in the table exactly if it is that of the route which the
input takes.** -/
theorem mem_rows_iff_takes (h : c.ComesFrom t schema budget naming)
    (hsmall : budget.maxBands.toNat ≤ 65536) {values : List UInt32}
    (hvalues : schema.Admits values) {row : Row}
    (hcodes : row.codes = c.program.encode values) :
    row ∈ c.rows ↔
      ∃ r, c.routes[row.route]? = some r ∧ r.Takes values ∧ row.verdict = r.verdict := by
  rw [h.encode_eq] at hcodes
  rw [rows, h.places.mem_rows, hcodes]
  refine exists_congr fun r => ?_
  constructor
  · rintro ⟨box, hr, hbox, hverdict, hcontains⟩
    obtain ⟨leaf, v, constraints, hlead⟩ := h.exists_leadsBy (List.mem_of_getElem? hr)
    exact ⟨hr, (hlead.contains_box_iff (h.fits hsmall) hbox hvalues).1 hcontains, hverdict⟩
  · rintro ⟨hr, htakes, hverdict⟩
    have hmem := List.mem_of_getElem? hr
    obtain ⟨leaf, v, constraints, hlead⟩ := h.exists_leadsBy hmem
    obtain ⟨box?, hbox⟩ := h.places.boxes r hmem
    cases box? with
    | none => exact absurd htakes (Route.not_takes_of_box hbox values)
    | some box =>
      exact ⟨box, hr, hbox, hverdict,
        (hlead.contains_box_iff (h.fits hsmall) hbox hvalues).2 htakes⟩

/-- The codes of a row are those of some input of the domains. -/
theorem exists_values_of_row (h : c.ComesFrom t schema budget naming)
    (hsmall : budget.maxBands.toNat ≤ 65536) {row : Row} (hrow : row ∈ c.rows) :
    ∃ values, schema.Admits values ∧ c.program.encode values = row.codes := by
  obtain ⟨r, box, hr, hbox, -, hcontains⟩ := (h.places.mem_rows row).1 hrow
  obtain ⟨leaf, v, constraints, hlead⟩ := h.exists_leadsBy (List.mem_of_getElem? hr)
  obtain ⟨values, hvalues, hencode⟩ :=
    hlead.exists_values_of_box (h.fits hsmall) hbox hcontains
  exact ⟨values, hvalues, (h.encode_eq values).trans hencode⟩

end Compilation.ComesFrom

end MatchTree
